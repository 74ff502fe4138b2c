import PingPong.QueueModel

/-! Sequences of queue_append and queue_remove calls on arbitrary pointers refine
   a family of disjoint lists. The abstract family is a specification only, so its
   tests may be undecidable. -/
namespace QueueRefinement
open MachineModel CircularList QueueModel
variable {Q A : Type} [DecidableEq Q] [DecidableEq A]

inductive Call (Q A : Type) where
  | append (queue : Option Q) (elem : Option A)
  | remove (queue : Option Q) (elem : Option A)

open Classical in
noncomputable def listCall (qs : Q → List A) : Call Q A → Q → List A
  | .append (some q) (some e) => if ∀ p, e ∉ qs p then listAppend qs q e else qs
  | .remove (some q) (some e) => listRemove qs q e
  | _ => qs

noncomputable def listCalls (qs : Q → List A) : List (Call Q A) → Q → List A
  | [] => qs
  | c :: calls => listCalls (listCall qs c) calls

theorem listRemove_absent {qs : Q → List A} {q : Q} {e : A} (out : e ∉ qs q) :
    listRemove qs q e = qs := by
  rw [listRemove, List.erase_of_not_mem out, Function.update_eq_self]

structure AppendSpec (m m' : Queues Q A) (qs : Q → List A) (queue : Option Q)
    (elem : Option A) (code : Int) : Prop where
  success : code = 0 ↔ ∃ q e, queue = some q ∧ elem = some e ∧ ∀ p, e ∉ qs p
  effect : ∀ q e, queue = some q → elem = some e → code = 0 →
    Represents m' (listAppend qs q e)
  failure : code ≠ 0 → code < 0 ∧ m' = m

structure RemoveSpec (m m' : Queues Q A) (qs : Q → List A) (queue : Option Q)
    (elem : Option A) (code : Int) : Prop where
  success : code = 0 ↔ ∃ q e, queue = some q ∧ elem = some e ∧ e ∈ qs q
  effect : ∀ q e, queue = some q → elem = some e → code = 0 →
    Represents m' (listRemove qs q e) ∧ m'.link e = Links.free
  failure : code ≠ 0 → code < 0 ∧ m' = m

theorem queueAppend_spec {m : Queues Q A} {qs : Q → List A} (r : Represents m qs)
    (queue : Option Q) (elem : Option A) :
    ∃ m' code, queueAppend m queue elem = .ok (m', code) ∧ AppendSpec m m' qs queue elem code := by
  cases queue with
  | none => exact ⟨m, noQueue, rfl, by simp [noQueue], by simp, by simp [noQueue]⟩
  | some q =>
    cases elem with
    | none => exact ⟨m, noElem, rfl, by simp [noElem], by simp, by simp [noElem]⟩
    | some e =>
      by_cases fresh : ∀ p, e ∉ qs p
      · obtain ⟨m', run, after⟩ := r.append_free fresh q
        refine ⟨m', sucess, run, ?_, ?_, fun bad => absurd rfl bad⟩
        · exact ⟨fun _ => ⟨q, e, rfl, rfl, fresh⟩, fun _ => rfl⟩
        · rintro q' e' ⟨⟩ ⟨⟩ _
          exact after
      · obtain ⟨p, mem⟩ : ∃ p, e ∈ qs p := by simpa using fresh
        refine ⟨m, belongsToAnotherQueue, r.append_busy mem q, ?_, ?_, ?_⟩
        · simp only [belongsToAnotherQueue, Option.some.injEq]
          constructor
          · intro impossible; omega
          · rintro ⟨q', e', rfl, rfl, none⟩; exact absurd mem (none p)
        · intro q' e' _ _ impossible; simp [belongsToAnotherQueue] at impossible
        · intro _; exact ⟨by decide, rfl⟩

theorem append_step {m m' : Queues Q A} {qs : Q → List A} {queue : Option Q} {elem : Option A}
    {code : Int} (r : Represents m qs) (spec : AppendSpec m m' qs queue elem code) :
    Represents m' (listCall qs (.append queue elem)) := by
  by_cases good : code = 0
  · obtain ⟨q, e, rfl, rfl, fresh⟩ := spec.success.mp good
    simpa only [listCall, if_pos fresh] using spec.effect q e rfl rfl good
  · obtain ⟨_, rfl⟩ := spec.failure good
    cases queue with
    | none => exact r
    | some q =>
      cases elem with
      | none => exact r
      | some e =>
        have busy : ¬ ∀ p, e ∉ qs p := fun fresh => good (spec.success.mpr ⟨q, e, rfl, rfl, fresh⟩)
        simpa only [listCall, if_neg busy] using r

variable [Fintype A]

theorem queueRemove_spec {m : Queues Q A} {qs : Q → List A} (r : Represents m qs)
    (queue : Option Q) (elem : Option A) :
    ∃ m' code, queueRemove m queue elem = .ok (m', code) ∧ RemoveSpec m m' qs queue elem code := by
  cases queue with
  | none => exact ⟨m, noQueue, rfl, by simp [noQueue], by simp, by simp [noQueue]⟩
  | some q =>
    cases elem with
    | none => exact ⟨m, noElem, rfl, by simp [noElem], by simp, by simp [noElem]⟩
    | some e =>
      by_cases mem : e ∈ qs q
      · obtain ⟨m', run, after, free⟩ := r.remove_mem mem
        refine ⟨m', sucess, run, ?_, ?_, fun bad => absurd rfl bad⟩
        · exact ⟨fun _ => ⟨q, e, rfl, rfl, mem⟩, fun _ => rfl⟩
        · rintro q' e' ⟨⟩ ⟨⟩ _
          exact ⟨after, free⟩
      · obtain ⟨code, negative, run⟩ := r.remove_absent mem
        refine ⟨m, code, run, ?_, ?_, fun _ => ⟨negative, rfl⟩⟩
        · constructor
          · intro impossible; omega
          · rintro ⟨q', e', ⟨⟩, ⟨⟩, inside⟩; exact absurd inside mem
        · intro q' e' _ _ impossible; omega

omit [Fintype A] in
theorem remove_step {m m' : Queues Q A} {qs : Q → List A} {queue : Option Q} {elem : Option A}
    {code : Int} (r : Represents m qs) (spec : RemoveSpec m m' qs queue elem code) :
    Represents m' (listCall qs (.remove queue elem)) := by
  by_cases good : code = 0
  · obtain ⟨q, e, rfl, rfl, _⟩ := spec.success.mp good
    exact (spec.effect q e rfl rfl good).1
  · obtain ⟨_, rfl⟩ := spec.failure good
    cases queue with
    | none => exact r
    | some q =>
      cases elem with
      | none => exact r
      | some e =>
        have out : e ∉ qs q := fun mem => good (spec.success.mpr ⟨q, e, rfl, rfl, mem⟩)
        simpa only [listCall, listRemove_absent out] using r

/-- The return codes of earlier calls are dropped, as most callers do. -/
def runCall (m : Queues Q A) : Call Q A → Except Halt (Queues Q A)
  | .append queue elem => (queueAppend m queue elem).map Prod.fst
  | .remove queue elem => (queueRemove m queue elem).map Prod.fst

def runCalls (m : Queues Q A) : List (Call Q A) → Except Halt (Queues Q A)
  | [] => .ok m
  | c :: calls => do
      let m' ← runCall m c
      runCalls m' calls

theorem runCall_refines {m : Queues Q A} {qs : Q → List A} (r : Represents m qs)
    (c : Call Q A) : ∃ m', runCall m c = .ok m' ∧ Represents m' (listCall qs c) := by
  cases c with
  | append queue elem =>
    obtain ⟨m', code, run, spec⟩ := queueAppend_spec r queue elem
    exact ⟨m', by simp [runCall, run, Except.map], append_step r spec⟩
  | remove queue elem =>
    obtain ⟨m', code, run, spec⟩ := queueRemove_spec r queue elem
    exact ⟨m', by simp [runCall, run, Except.map], remove_step r spec⟩

theorem runCalls_refines {m : Queues Q A} {qs : Q → List A} (r : Represents m qs)
    (calls : List (Call Q A)) :
    ∃ m', runCalls m calls = .ok m' ∧ Represents m' (listCalls qs calls) := by
  induction calls generalizing m qs with
  | nil => exact ⟨m, rfl, r⟩
  | cons c calls ih =>
    obtain ⟨m₁, first, after⟩ := runCall_refines r c
    obtain ⟨m', rest, final⟩ := ih after
    exact ⟨m', by simp only [runCalls, first, bind, Except.bind]; exact rest, final⟩

omit [DecidableEq Q] in
theorem queueSize_spec {m : Queues Q A} {qs : Q → List A} (r : Represents m qs) (q : Q) :
    ∃ size, queueSize m (m.head q) = .ok size ∧
      (size = (qs q).length ↔ ((qs q).length : Int) ≤ intMax) := by
  refine ⟨_, r.queueSize_eq q, ?_⟩
  constructor
  · intro equal
    rw [← equal]
    exact (toInt_range _).2
  · intro bound
    simp only [intMax] at bound
    rw [Nat.mod_eq_of_lt (by omega), toInt_eq_self (by simp only [intMin]; omega) bound]

/-- After any calls on arbitrary pointers the queues are the abstract lists, and each further call
    succeeds exactly when it should and otherwise changes no pointer. -/
theorem queue_calls_refine_lists {m : Queues Q A} {qs : Q → List A} (r : Represents m qs)
    (calls : List (Call Q A)) :
    ∃ m', runCalls m calls = .ok m' ∧ Represents m' (listCalls qs calls) ∧
      (∀ queue elem, ∃ m'' code, queueAppend m' queue elem = .ok (m'', code) ∧
        AppendSpec m' m'' (listCalls qs calls) queue elem code) ∧
      (∀ queue elem, ∃ m'' code, queueRemove m' queue elem = .ok (m'', code) ∧
        RemoveSpec m' m'' (listCalls qs calls) queue elem code) ∧
      (∀ q, ∃ size, queueSize m' (m'.head q) = .ok size ∧
        (size = (listCalls qs calls q).length ↔
          ((listCalls qs calls q).length : Int) ≤ intMax)) := by
  obtain ⟨m', run, after⟩ := runCalls_refines r calls
  exact ⟨m', run, after, queueAppend_spec after, queueRemove_spec after, queueSize_spec after⟩

def emptyQueues : Queues Q A := ⟨fun _ => none, fun _ => Links.free⟩

omit [DecidableEq Q] [DecidableEq A] [Fintype A] in
theorem empty_represents : Represents (emptyQueues : Queues Q A) (fun _ => []) :=
  ⟨fun _ => rfl, fun _ => ring_nil _, by simp, fun _ _ => rfl⟩

/-- The second of three elements leaves its queue; the first is refused by another one. -/
def mixedCalls (a b c d : A) : List (Call Bool A) :=
  [.append (some true) (some a), .append (some true) (some b), .append (some true) (some c),
    .append (some false) (some d), .append (some false) (some a), .remove (some true) (some b)]

theorem mixedCalls_lists : listCalls (fun _ => []) (mixedCalls (0 : Fin 4) 1 2 3) =
    fun q => if q then [0, 2] else [3] := by
  funext q
  cases q <;> simp [mixedCalls, listCalls, listCall, listAppend, listRemove]

theorem middle_is_removed : ∃ m' m'' code,
    runCalls (emptyQueues : Queues Bool (Fin 4)) (mixedCalls 0 1 2 3) = .ok m' ∧
    Represents m' (fun q => if q then [0, 2] else [3]) ∧
    queueSize m' (m'.head true) = .ok 2 ∧
    queueRemove m' (some false) (some 0) = .ok (m'', code) ∧ code < 0 ∧ m'' = m' := by
  obtain ⟨m', run, after, -, removes, sizes⟩ := queue_calls_refine_lists
    (empty_represents : Represents (emptyQueues : Queues Bool (Fin 4)) (fun _ => []))
    (mixedCalls 0 1 2 3)
  rw [mixedCalls_lists] at after removes sizes
  obtain ⟨size, measured, exact⟩ := sizes true
  obtain rfl : size = 2 := exact.mpr (by decide)
  obtain ⟨m'', code, removed, spec⟩ := removes (some false) (some 0)
  have absent : code ≠ 0 := by
    intro success
    obtain ⟨q, e, queue, elem, mem⟩ := spec.success.mp success
    cases queue
    cases elem
    simp at mem
  obtain ⟨negative, same⟩ := spec.failure absent
  exact ⟨m', m'', code, run, after, measured, removed, negative, same⟩

omit [Fintype A] in
theorem append_all {qs : Q → List A} {q : Q} {l : List A} (others : ∀ p, p ≠ q → qs p = [])
    (nodup : (qs q ++ l).Nodup) :
    listCalls qs (l.map fun e => .append (some q) (some e)) q = qs q ++ l := by
  induction l generalizing qs with
  | nil => simp [listCalls]
  | cons e l ih =>
    have fresh : ∀ p, e ∉ qs p := by
      intro p mem
      by_cases same : p = q
      · rw [List.nodup_append] at nodup
        exact nodup.2.2 e (same ▸ mem) e (by simp) rfl
      · simp [others p same] at mem
    have step : listCall qs (.append (some q) (some e)) = listAppend qs q e := by
      simp [listCall, fresh]
    simp only [List.map_cons, listCalls, step]
    rw [ih]
    · simp
    · intro p ne; rw [listAppend_other qs e ne, others p ne]
    · simpa using nodup

theorem ring_of_every_cell (n : Nat) :
    ∃ (m : Queues Unit (Fin n)) (qs : Unit → List (Fin n)),
      Represents m qs ∧ (qs ()).length = n := by
  obtain ⟨m', _, after⟩ := runCalls_refines
    (empty_represents : Represents (emptyQueues : Queues Unit (Fin n)) (fun _ => []))
    ((List.finRange n).map fun e => .append (some ()) (some e))
  refine ⟨m', _, after, ?_⟩
  rw [append_all (fun p ne => absurd rfl ne) (by simpa using List.nodup_finRange n)]
  simp

/-- A ring of 2^31 cells has a length that no int holds. -/
theorem queueSize_of_a_long_ring :
    ¬ ∀ (m : Queues Unit (Fin 2147483648)) (qs : Unit → List (Fin 2147483648)),
        Represents m qs → ∀ q, queueSize m (m.head q) = .ok ((qs q).length : Int) := by
  intro claim
  obtain ⟨m, qs, r, long⟩ := ring_of_every_cell 2147483648
  obtain ⟨size, measured, exact⟩ := queueSize_spec r ()
  have said := claim m qs r ()
  rw [measured, Except.ok.injEq] at said
  have bound := exact.mp said
  rw [long] at bound
  simp only [intMax] at bound
  omega

end QueueRefinement
