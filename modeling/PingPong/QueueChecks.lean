import PingPong.QueueRefinement

/-!
fila_correta of tests/testafila.c, which the tests of core/queue.c rely on, and queue_print. The
first walks links that may be anything; it is to be trusted only if it always ends, and then with
the right answer.
-/
namespace QueueChecks
open MachineModel CircularList QueueModel
variable {Q A : Type} [DecidableEq A]

section Source
variable [Fintype A]

/-- The loop of fila_correta over a queue that has more than one element or is broken. -/
def testLinks (link : A → Links A) (fila : A) : Nat → A → Except Halt Int
  | 0, _ => .error .hang
  | fuel + 1, aux =>
    match (link aux).next with
    | none => .ok 0
    | some next =>
      if (link next).prev ≠ some aux then .ok 0
      else match (link aux).prev with
        | none => .ok 0
        | some prev =>
          if (link prev).next ≠ some aux then .ok 0
          else if next = fila then .ok 1
          else testLinks link fila fuel next

/-- No execution that ends goes round more often than there are cells. -/
def filaCorreta (link : A → Links A) (fila : Option A) : Except Halt Int :=
  match fila with
  | none => .ok 1
  | some fila =>
    if (link fila).next = some fila ∧ (link fila).prev = some fila then .ok 1
    else if (link fila).next = some fila ∨ (link fila).prev = some fila then .ok 0
    else testLinks link fila (Fintype.card A) fila

def printLinks (link : A → Links A) (queue : A) : Nat → A → Except Halt (List A)
  | 0, aux => if (link aux).next = some queue then .ok [aux] else .error .hang
  | fuel + 1, aux =>
    if (link aux).next = some queue then .ok [aux]
    else match (link aux).next with
      | none => .error .fault
      | some next => (printLinks link queue fuel next).map (aux :: ·)

def queuePrint (m : Queues Q A) (queue : Option A) : Except Halt (List A) :=
  match queue with
  | none => .ok []
  | some first => printLinks m.link first (Fintype.card A) first

end Source

section Walks
variable {link : A → Links A}

omit [DecidableEq A] in
theorem ring_neighbours {l : List A} (r : Ring link l) {a : A} (mem : a ∈ l) :
    (∃ b ∈ l, Linked link a b) ∧ ∃ b ∈ l, Linked link b a := by
  obtain ⟨pre, post, rfl⟩ := List.append_of_mem mem
  have turned := ring_turned r
  have path := ring_path turned
  have inside : ∀ b, b ∈ a :: (post ++ pre) → b ∈ pre ++ a :: post := by
    intro b
    simp only [List.mem_cons, List.mem_append]
    tauto
  constructor
  · cases rest : post ++ pre with
    | nil =>
      rw [rest] at path
      exact ⟨a, mem, (List.isChain_cons_cons.mp path).1⟩
    | cons b m =>
      rw [rest] at path
      exact ⟨b, inside b (by simp [rest]), (List.isChain_cons_cons.mp path).1⟩
  · have loop := (Cycle.chain_ne_nil _ (List.cons_ne_nil a (post ++ pre))).mp turned.chain
    exact ⟨_, inside _ (List.getLast_mem _), (List.isChain_cons_cons.mp loop).1⟩

theorem printLinks_path {target a : A} (fuel : Nat) {l : List A}
    (path : List.IsChain (Linked link) (a :: (l ++ [target]))) (fresh : target ∉ l)
    (budget : l.length ≤ fuel) : printLinks link target fuel a = .ok (a :: l) := by
  induction l generalizing fuel a with
  | nil =>
    have last : (link a).next = some target := (List.isChain_cons_cons.mp path).1.1
    cases fuel with
    | zero => simp [printLinks, last]
    | succ fuel => simp [printLinks, last]
  | cons b l ih =>
    have next : (link a).next = some b := (List.isChain_cons_cons.mp path).1.1
    have other : b ≠ target := fun same => fresh (by simp [same])
    cases fuel with
    | zero => simp at budget
    | succ fuel =>
      have rest := ih fuel (List.isChain_cons_cons.mp path).2
        (fun mem => fresh (by simp [mem])) (by simpa using budget)
      simp [printLinks, next, other, rest, Except.map]

end Walks

section Answers
variable {link : A → Links A} {fila aux next : A} {l : List A}

theorem ring_passes (r : Ring link l) {fuel : Nat} {answer : Int} (mem : aux ∈ l)
    (run : testLinks link fila fuel aux = .ok answer) : answer = 1 := by
  induction fuel generalizing aux with
  | zero => cases run
  | succ fuel ih =>
    obtain ⟨⟨next, inside, forward⟩, ⟨prev, -, back⟩⟩ := ring_neighbours r mem
    simp only [testLinks, forward.1, forward.2, back.1, back.2, ne_eq, not_true_eq_false,
      ↓reduceIte] at run
    split at run
    · cases run
      rfl
    · exact ih inside run

structure Tested (link : A → Links A) (fila aux : A) (l : List A) : Prop where
  nodup : (fila :: l).Nodup
  path : List.IsChain (Linked link) (fila :: l)
  last : (fila :: l).getLast (by simp) = aux

omit [DecidableEq A] in
theorem tested_closes (tested : Tested link fila aux l) (closed : Linked link aux fila) :
    Ring link (fila :: l) := by
  refine ⟨tested.nodup, (Cycle.chain_ne_nil _ (List.cons_ne_nil fila l)).mpr ?_⟩
  rw [tested.last]
  exact List.isChain_cons_cons.mpr ⟨closed, tested.path⟩

omit [DecidableEq A] in
theorem next_is_new (tested : Tested link fila aux l) (forward : Linked link aux next)
    (other : next ≠ fila) : next ∉ fila :: l := by
  intro mem
  have inside : next ∈ l := (List.mem_cons.mp mem).resolve_left other
  obtain ⟨front, rest, split⟩ := List.append_of_mem inside
  obtain ⟨before, x, same⟩ : ∃ before x, fila :: front = before ++ [x] := by
    have parts := List.dropLast_append_getLast (List.cons_ne_nil fila front)
    exact ⟨_, _, parts.symm⟩
  have whole : fila :: l = before ++ x :: next :: rest := by
    rw [split, ← List.cons_append, same, List.append_assoc]
    rfl
  have back := (List.isChain_iff_forall_rel_of_append_cons_cons.mp tested.path) whole
  have here : x = aux := Option.some.inj (back.2.symm.trans forward.2)
  exact (neighbours_interior tested.nodup whole).1 (here.trans tested.last.symm)

omit [DecidableEq A] in
theorem tested_next (tested : Tested link fila aux l) (forward : Linked link aux next)
    (other : next ≠ fila) : Tested link fila next (l ++ [next]) := by
  have new := next_is_new tested forward other
  refine ⟨?_, ?_, ?_⟩
  · rw [← List.cons_append]
    refine List.nodup_append.mpr ⟨tested.nodup, List.nodup_singleton next, ?_⟩
    intro x mem y single
    rw [List.mem_singleton.mp single]
    rintro rfl
    exact new mem
  · rw [← List.cons_append]
    refine List.isChain_append.mpr ⟨tested.path, List.isChain_singleton next, ?_⟩
    intro x lastOf y headOf
    rw [List.getLast?_eq_getLast_of_ne_nil (List.cons_ne_nil fila l), tested.last] at lastOf
    cases lastOf
    cases headOf
    exact forward
  · simp

variable [Fintype A]

/-- The loop cannot go round without coming back to its first element: it ends, and says 1 only of
    a ring. -/
theorem testLinks_ends {fuel : Nat} (tested : Tested link fila aux l)
    (budget : (fila :: l).length + fuel = Fintype.card A + 1) :
    ∃ answer, testLinks link fila fuel aux = .ok answer ∧
      (answer = 0 ∨ answer = 1 ∧ ∃ m, Ring link (fila :: m)) := by
  induction fuel generalizing aux l with
  | zero =>
    have room := List.Nodup.length_le_card tested.nodup
    omega
  | succ fuel ih =>
    simp only [testLinks]
    cases forward : (link aux).next with
    | none => exact ⟨0, rfl, Or.inl rfl⟩
    | some next =>
      dsimp only
      split
      · exact ⟨0, rfl, Or.inl rfl⟩
      · rename_i returns
        have linked : Linked link aux next := ⟨forward, by simpa using returns⟩
        cases back : (link aux).prev with
        | none => exact ⟨0, rfl, Or.inl rfl⟩
        | some prev =>
          dsimp only
          split
          · exact ⟨0, rfl, Or.inl rfl⟩
          · split
            · rename_i closed
              subst closed
              exact ⟨1, rfl, Or.inr ⟨rfl, l, tested_closes tested linked⟩⟩
            · rename_i other
              refine ih (tested_next tested linked other) ?_
              simp only [List.length_cons, List.length_append, List.length_nil] at budget ⊢
              omega

/-- On links of any kind fila_correta ends, and it says 1 exactly of the first element of a ring,
    or of no element. -/
theorem fila_correta_decides (link : A → Links A) (fila : Option A) :
    ∃ answer, filaCorreta link fila = .ok answer ∧ (answer = 0 ∨ answer = 1) ∧
      (answer = 1 ↔ ∃ l, Ring link l ∧ l.head? = fila) := by
  cases fila with
  | none => exact ⟨1, rfl, Or.inr rfl, ⟨fun _ => ⟨[], ring_nil link, rfl⟩, fun _ => rfl⟩⟩
  | some fila =>
    have headed : ∀ {l : List A}, l.head? = some fila → ∃ m, l = fila :: m := by
      intro l head
      cases l with
      | nil => cases head
      | cons a m =>
        cases head
        exact ⟨m, rfl⟩
    simp only [filaCorreta]
    split
    · rename_i single
      have ring := ring_singleton single.2 single.1
      exact ⟨1, rfl, Or.inr rfl, ⟨fun _ => ⟨[fila], ring, rfl⟩, fun _ => rfl⟩⟩
    · rename_i notSingle
      split
      · rename_i broken
        refine ⟨0, rfl, Or.inl rfl, ⟨fun one => absurd one (by decide), ?_⟩⟩
        rintro ⟨l, ring, head⟩
        obtain ⟨m, rfl⟩ := headed head
        exfalso
        cases m with
        | nil =>
          have loop := (Cycle.chain_singleton _ _).mp ring.chain
          exact notSingle ⟨loop.1, loop.2⟩
        | cons b m =>
          have apart : fila ∉ b :: m := (List.nodup_cons.mp ring.nodup).1
          rcases broken with next | prev
          · have first : (link fila).next = some b :=
              (List.isChain_cons_cons.mp (ring_path ring)).1.1
            rw [first, Option.some.injEq] at next
            exact apart (by simp [next])
          · have last := ring_head_prev ring
            rw [prev, Option.some.injEq] at last
            have there := List.getLast_mem (List.cons_ne_nil b m)
            rw [List.getLast_cons (List.cons_ne_nil b m)] at last
            exact apart (last ▸ there)
      · have start : Tested link fila fila [] :=
          ⟨List.nodup_singleton fila, List.isChain_singleton fila, rfl⟩
        have budget : [fila].length + Fintype.card A = Fintype.card A + 1 := by
          simp only [List.length_singleton]
          omega
        obtain ⟨answer, run, zero | ⟨one, m, ring⟩⟩ := testLinks_ends start budget
        · refine ⟨answer, run, Or.inl zero, ⟨fun one => by omega, ?_⟩⟩
          rintro ⟨l, ring, head⟩
          obtain ⟨m, rfl⟩ := headed head
          exact ring_passes ring (by simp) run
        · exact ⟨answer, run, Or.inr one, ⟨fun _ => ⟨fila :: m, ring, rfl⟩, fun _ => one⟩⟩

theorem queuePrint_spec {m : Queues Q A} {qs : Q → List A} (r : Represents m qs) (q : Q) :
    queuePrint m (m.head q) = .ok (qs q) := by
  rw [r.head]
  cases whole : qs q with
  | nil => rfl
  | cons a l =>
    have ring := r.ring q
    rw [whole] at ring
    have room := List.Nodup.length_le_card ring.nodup
    simp only [List.length_cons] at room
    exact printLinks_path _ (ring_path ring) (List.nodup_cons.mp ring.nodup).1 (by omega)

end Answers

end QueueChecks
