import PingPong.TransitionRuns
import Mathlib.Data.List.Forall2

/-!
Two machines that take the same labels. A step may be impossible, end the machine, or lead to a
next state; where the outcomes of related states are always alike, so are those of whole lists of
labels. Where a step of the one is a block of steps of the other, a run is a run of blocks.
-/
namespace LockStep
open TransitionRuns
variable {H S T L M : Type}

/-- Where the labels lead: nowhere if one of them is no step, and otherwise to the end of the
    machine or to a state. -/
def outcome (step : S → L → Option (Except H S)) (s : S) : List L → Option (Except H S)
  | [] => some (.ok s)
  | l :: labels => match step s l with
    | some (.ok s') => outcome step s' labels
    | stopped => stopped

theorem outcome_reaches (step : S → L → Option (Except H S)) (s : S) (labels : List L)
    (goal : S → Prop) [DecidablePred goal]
    (leads : (outcome step s labels).any (fun r => r.toOption.any (fun s' => decide (goal s'))) =
      true) : ∃ s', outcome step s labels = some (.ok s') ∧ goal s' := by
  cases found : outcome step s labels with
  | none => simp [found] at leads
  | some r =>
    cases r with
    | error h => simp [found, Except.toOption] at leads
    | ok s' =>
      rw [found] at leads
      exact ⟨s', rfl, of_decide_eq_true leads⟩

inductive Alike (related : S → T → Prop) : Option (Except H S) → Option (Except H T) → Prop where
  | none : Alike related none none
  | ended (h : H) : Alike related (some (.error h)) (some (.error h))
  | next (s : S) (t : T) (goes : related s t) : Alike related (some (.ok s)) (some (.ok t))

variable {related : S → T → Prop}

theorem alike_map {A : Type} {x : Except H A} {f : A → S} {g : A → T}
    (both : ∀ a, x = .ok a → related (f a) (g a)) :
    Alike related (some (x.map f)) (some (x.map g)) := by
  cases x with
  | error h => exact .ended h
  | ok a => exact .next (f a) (g a) (both a rfl)

theorem alike_ok {s : S} {y : Option (Except H T)}
    (alike : Alike related (some (.ok s)) y) : ∃ t, y = some (.ok t) ∧ related s t := by
  cases alike with
  | next _ t goes => exact ⟨t, rfl, goes⟩

/-- The labels of the first machine may say more than those of the second. -/
theorem alike_outcome {step : S → L → Option (Except H S)} {step' : T → M → Option (Except H T)}
    {label : L → M} (follows : ∀ s t l, related s t → Alike related (step s l) (step' t (label l)))
    {s : S} {t : T} (start : related s t) (labels : List L) :
    Alike related (outcome step s labels) (outcome step' t (labels.map label)) := by
  induction labels generalizing s t with
  | nil => exact .next s t start
  | cons l labels ih =>
    have first := follows s t l start
    simp only [List.map_cons, outcome]
    generalize step s l = here, step' t (label l) = there at first
    cases first with
    | none => exact .none
    | ended h => exact .ended h
    | next s' t' goes => exact ih goes

theorem run_blocks {next : S → L → S → Prop} {next' : T → M → T → Prop} (related : S → T → Prop)
    (spells : L → List M → Prop)
    (steps : ∀ s l s' t, next s l s' → related s t →
      ∃ block t', spells l block ∧ Run next' t block t' ∧ related s' t')
    {s s' : S} {labels : List L} (run : Run next s labels s') {t : T} (start : related s t) :
    ∃ blocks t', List.Forall₂ spells labels blocks ∧ Run next' t blocks.flatten t' ∧
      related s' t' := by
  induction run with
  | start => exact ⟨[], t, .nil, .start t, start⟩
  | step _ last ih =>
    obtain ⟨blocks, middle, spelled, earlier, between⟩ := ih
    obtain ⟨block, t', spell, more, reached⟩ := steps _ _ _ _ last between
    refine ⟨blocks ++ [block], t', List.rel_append spelled (.cons spell .nil), ?_, reached⟩
    rw [List.flatten_append, List.flatten_singleton]
    exact run_append earlier more

end LockStep
