import PingPong.TaskPlacement

/-! A semaphore that tasks use by whole calls of sem_down and sem_up: the tasks in its queue
   are as many as the counter is below zero. -/
namespace SemaphoreBalance
open MachineModel CircularList QueueModel KernelModel KernelEffects TaskPlacement
variable {N : Type} [DecidableEq N] [Fintype N]

structure Balanced (k : Kernel N) (a : SemAddr) : Prop where
  active : (k.sem a).active ≠ 0
  free : (k.sem a).lock = 0
  waiters : ((tasks k (.semQueue a)).length : Int) = max 0 (-(k.sem a).value)

variable {live live' : Tcb N → Bool} {k k' : Kernel N} {a : SemAddr}

theorem balanced_kept {touched : List TaskQueue} {sems : List SemAddr} (b : Balanced k a)
    (moved : Moved live live' touched sems k k') (queue : .semQueue a ∉ touched)
    (other : a ∉ sems) : Balanced k' a := by
  have sem := moved.sem a other
  have lists := moved.lists (.semQueue a) (by simp) queue
  exact ⟨by rw [sem]; exact b.active, by rw [sem]; exact b.free,
    by rw [sem, lists]; exact b.waiters⟩

theorem balanced_down (p : Placed live k) (user : k.curr ≠ .dispatcherTask) (b : Balanced k a)
    (low : intMin < (k.sem a).value) (high : (k.sem a).value ≤ intMax) {r : Option Int}
    (run : semDown k (some a) = .ok (k', r)) :
    Kept live [.semQueue a] [a] k k' ∧ Balanced k' a ∧
      (k'.sem a).value = (k.sem a).value - 1 ∧
      ∀ t ∈ tasks k' (.semQueue a), t ∈ tasks k (.semQueue a) ∨ t = k.curr := by
  have exact' : (k.sem a).value - 1 = toInt ((k.sem a).value - 1) :=
    (toInt_eq_self (by omega) (by omega)).symm
  obtain ⟨k₁, r₁, known, kept, sem, waits, passes⟩ :=
    semDown_kept p user b.active b.free exact'
  rw [known, Except.ok.injEq, Prod.mk.injEq] at run
  obtain ⟨rfl, -⟩ := run
  have count := b.waiters
  by_cases wait : (k.sem a).value - 1 < 0
  · have lists : tasks k₁ (.semQueue a) = tasks k (.semQueue a) ++ [k.curr] := by
      rw [(waits wait).2, moveTask_target _ (by simp)]
    refine ⟨kept, ⟨by rw [sem]; exact b.active, by rw [sem], ?_⟩, by rw [sem], ?_⟩
    · rw [lists, sem, List.length_append, List.length_singleton]
      push_cast
      omega
    · intro t mem
      rw [lists, List.mem_append, List.mem_singleton] at mem
      exact mem
  · have lists := (passes wait).2
    refine ⟨kept, ⟨by rw [sem]; exact b.active, by rw [sem], ?_⟩, by rw [sem], ?_⟩
    · rw [lists, sem]
      dsimp only
      omega
    · rw [lists]
      exact fun t mem => Or.inl mem

theorem balanced_up (p : Placed live k) (b : Balanced k a) (low : intMin ≤ (k.sem a).value)
    (high : (k.sem a).value < intMax) {r : Int} (run : semUp k (some a) = .ok (k', r)) :
    Kept live [.semQueue a] [a] k k' ∧ Balanced k' a ∧
      (k'.sem a).value = (k.sem a).value + 1 ∧ k'.curr = k.curr ∧
      ∀ t ∈ tasks k' (.semQueue a), t ∈ tasks k (.semQueue a) := by
  have exact' : (k.sem a).value + 1 = toInt ((k.sem a).value + 1) :=
    (toInt_eq_self (by omega) (by omega)).symm
  obtain ⟨k₁, r₁, known, kept, sem, curr, wakes, passes⟩ := semUp_kept p b.active b.free exact'
  rw [known, Except.ok.injEq, Prod.mk.injEq] at run
  obtain ⟨rfl, -⟩ := run
  have count := b.waiters
  rcases waiting : tasks k (.semQueue a) with _ | ⟨t, rest⟩
  · have lists := passes fun both => both.2 waiting
    rw [waiting, List.length_nil] at count
    refine ⟨kept, ⟨by rw [sem]; exact b.active, by rw [sem], ?_⟩, by rw [sem], curr, ?_⟩
    · rw [lists, waiting, sem, List.length_nil]
      push_cast at count ⊢
      omega
    · rw [lists, waiting]
      exact fun t mem => mem
  · rw [waiting, List.length_cons] at count
    push_cast at count
    have lists : tasks k₁ (.semQueue a) = rest := by
      rw [wakes t rest (by omega) waiting, moveTask_source _ (by simp), waiting,
        List.erase_cons_head]
    refine ⟨kept, ⟨by rw [sem]; exact b.active, by rw [sem], ?_⟩, by rw [sem], curr, ?_⟩
    · rw [lists, sem]
      dsimp only
      omega
    · rw [lists]
      exact fun t mem => List.mem_cons_of_mem _ mem

end SemaphoreBalance
