import Mathlib.Algebra.GroupWithZero.Nat

/-! Finite runs of a labelled transition relation. Guards on the steps and
   conditions on the states passed through are part of the relation. -/
namespace TransitionRuns
variable {State Label : Type}

/-- The parties of a concrete run are numbered. -/
instance oneParty : NeZero 1 := ⟨by decide⟩
instance twoParties : NeZero 2 := ⟨by decide⟩

inductive Run (next : State → Label → State → Prop) : State → List Label → State → Prop where
  | start (s : State) : Run next s [] s
  | step {s s' s'' : State} {labels : List Label} {l : Label} :
      Run next s labels s' → next s' l s'' → Run next s (labels ++ [l]) s''

variable {next : State → Label → State → Prop}

/-- What holds at the start and is kept by every step holds at the end. -/
theorem run_invariant (inv : State → Prop)
    (kept : ∀ s l s', inv s → next s l s' → inv s') {s s' : State} {labels : List Label}
    (run : Run next s labels s') (start : inv s) : inv s' := by
  induction run with
  | start => exact start
  | step _ last ih => exact kept _ _ _ ih last

/-- The same for a property that looks back on the labels of the run so far. -/
theorem run_history {s s' : State} {labels : List Label} (inv : List Label → State → Prop)
    (kept : ∀ before a l b, Run next s before a → inv before a → next a l b →
      inv (before ++ [l]) b)
    (run : Run next s labels s') (start : inv [] s) : inv labels s' := by
  induction run with
  | start => exact start
  | step earlier last ih => exact kept _ _ _ _ earlier ih last

theorem run_mono {other : State → Label → State → Prop}
    (weaker : ∀ s l s', next s l s' → other s l s') {s s' : State} {labels : List Label}
    (run : Run next s labels s') : Run other s labels s' := by
  induction run with
  | start => exact .start _
  | step _ last ih => exact .step ih (weaker _ _ _ last)

theorem run_one {s s' : State} {l : Label} (step : next s l s') : Run next s [l] s' :=
  .step (.start s) step

theorem run_append {s s' s'' : State} {first second : List Label}
    (run : Run next s first s') (more : Run next s' second s'') :
    Run next s (first ++ second) s'' := by
  induction more with
  | start => rwa [List.append_nil]
  | step _ last ih => rw [← List.append_assoc]; exact .step ih last

theorem run_cons {s s' s'' : State} {l : Label} {labels : List Label} (step : next s l s')
    (more : Run next s' labels s'') : Run next s (l :: labels) s'' :=
  run_append (run_one step) more

def exec (next : State → Label → Option State) (s : State) : List Label → Option State
  | [] => some s
  | l :: labels => (next s l).bind fun s' => exec next s' labels

theorem exec_run {next : State → Label → Option State} {s s' : State} {labels : List Label}
    (done : exec next s labels = some s') :
    Run (fun s l s' => next s l = some s') s labels s' := by
  induction labels generalizing s with
  | nil => rw [← Option.some.inj done]; exact .start s
  | cons l labels ih =>
    obtain ⟨middle, first, rest⟩ := Option.bind_eq_some_iff.mp done
    exact run_cons first (ih rest)

theorem exec_reaches (next : State → Label → Option State) (s : State) (labels : List Label)
    (goal : State → Prop) [DecidablePred goal]
    (ends : (exec next s labels).any (fun s' => decide (goal s')) = true) :
    ∃ s', exec next s labels = some s' ∧ goal s' := by
  obtain ⟨s', found, reached⟩ := Option.any_eq_true _ _ |>.mp ends
  exact ⟨s', found, of_decide_eq_true reached⟩

/-- A step function that stops where the guard forbids the step. -/
def guarded (guard : State → Label → State → Prop) [∀ s l s', Decidable (guard s l s')]
    (next : State → Label → Option State) (s : State) (l : Label) : Option State :=
  (next s l).bind fun s' => if guard s l s' then some s' else none

theorem guarded_run {guard : State → Label → State → Prop} [∀ s l s', Decidable (guard s l s')]
    {next : State → Label → Option State} {s s' : State} {labels : List Label}
    (done : exec (guarded guard next) s labels = some s') :
    Run (fun s l s' => next s l = some s' ∧ guard s l s') s labels s' := by
  refine run_mono (fun s l s' step => ?_) (exec_run done)
  obtain ⟨middle, first, rest⟩ := Option.bind_eq_some_iff.mp step
  split at rest
  · rename_i allowed
    rw [← Option.some.inj rest]
    exact ⟨first, allowed⟩
  · cases rest

end TransitionRuns
