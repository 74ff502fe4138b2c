import PingPong.SystemFrames
import Mathlib.Data.Nat.Count

/-!
A semaphore that tasks use by whole calls of sem_down and sem_up, with its counter anywhere in the
range of an int. A call in progress holds a share of the units; what the calls hold and what the
counter offers add up, modulo the width of the counter.
-/
namespace SemaphoreShares
open MachineModel CircularList QueueModel KernelModel KernelEffects TaskPlacement SystemModel
open SystemFrames FiniteTally
variable {N : Type} [DecidableEq N] [Fintype N]

section Arithmetic

theorem toInt_pred (x : Int) : toInt (toInt x - 1) = toInt (x - 1) := Int.bmod_sub_bmod

theorem toInt_succ (x : Int) : toInt (toInt x + 1) = toInt (x + 1) := Int.bmod_add_bmod

/-- Two counts that differ by one are two values of the counter. -/
theorem toInt_succ_ne (x : Int) : toInt (x + 1) ≠ toInt x := by
  intro same
  have cancelled : Int.bmod (x + 1) 4294967296 = Int.bmod (x + 0) 4294967296 := by
    rw [Int.add_zero]
    exact same
  rw [Int.bmod_add_cancel_left] at cancelled
  exact absurd cancelled (by decide)

/-- How many of the first n calls of sem_down on an empty semaphore have to wait, if nobody gives
    anything back. It is n until the counter wraps. -/
def mustWait (n : Nat) : Nat := Nat.count (fun i : Nat => toInt (-i - 1) < 0) n

theorem mustWait_succ (n : Nat) :
    mustWait (n + 1) = mustWait n + if toInt (-n - 1) < 0 then 1 else 0 := Nat.count_succ _ _

theorem mustWait_le (n : Nat) : mustWait n ≤ n := Nat.count_le _

end Arithmetic

/-- The semaphore is in use, its counter is what the calls leave of the units, and whoever is
    blocked is at a point where a call waits for it. -/
structure Shared (a : SemAddr) (units : Int) (share : Ctl N → Int) (waits : Ctl N → Prop)
    (s : System N) : Prop where
  active : (s.kernel.sem a).active ≠ 0
  free : (s.kernel.sem a).lock = 0
  value : (s.kernel.sem a).value = toInt (units - total share s)
  blocked : ∀ t ∈ tasks s.kernel (.semQueue a), waits (s.ctl t)

/-- No more tasks are blocked than the calls account for. -/
def Few (a : SemAddr) (units : Int) (share : Ctl N → Int) (s : System N) : Prop :=
  (tasks s.kernel (.semQueue a)).length ≤ mustWait (total share s - units).toNat

section Steps
variable {a : SemAddr} {units units' : Int} {share : Ctl N → Int} {waits : Ctl N → Prop}
variable {s s' : System N}

theorem blocked_stays (c : Conserved s) {new : Ctl N}
    (ctl : s'.ctl = Function.update s.ctl s.curr new) {t : Tcb N}
    (mem : t ∈ tasks s.kernel (.semQueue a)) : s'.ctl t = s.ctl t := by
  have other : t ≠ s.curr := by
    rintro rfl
    exact current_nowhere_else c.placed (by simp) mem
  rw [ctl, Function.update_of_ne other]

theorem shared_start (sem : s.kernel.sem a = ⟨units, 0, 1⟩) (isInt : toInt units = units)
    (vacant : tasks s.kernel (.semQueue a) = []) (none : ∀ t, share (s.ctl t) = 0) :
    Shared a units share waits s := by
  have zero : total share s = 0 := tally_zero none
  refine ⟨by rw [sem]; simp, by rw [sem], ?_, ?_⟩
  · rw [sem, zero, Int.sub_zero, isInt]
  · rw [vacant]
    intro t mem
    cases mem

theorem shared_down (sh : Shared a units share waits s) (c : Conserved s) {old new : Ctl N}
    (here : s.ctl s.curr = old) (task : role old ≠ .dispatcher)
    (ctl : s'.ctl = Function.update s.ctl s.curr new) {r : Option Int}
    (run : semDown s.kernel (some a) = .ok (s'.kernel, r))
    (account : units' - share new = units - share old - 1) (point : waits new) :
    Shared a units' share waits s' := by
  have user : s.kernel.curr ≠ .dispatcherTask :=
    not_dispatcher c (t := s.curr) (by rw [here]; exact task)
  have queue := semDown_waits c.placed user run
  obtain ⟨k, r', known, _, sem, _⟩ := semDown_kept c.placed user sh.active sh.free rfl
  rw [known, Except.ok.injEq, Prod.mk.injEq] at run
  rw [run.1] at sem
  refine ⟨by rw [sem]; exact sh.active, by rw [sem], ?_, ?_⟩
  · rw [sem, total_update share ctl, here]
    dsimp only
    rw [sh.value, toInt_pred]
    exact congrArg toInt (by omega)
  · intro t mem
    rcases queue t mem with before | now
    · rw [blocked_stays c ctl before]
      exact sh.blocked t before
    · have own : s'.ctl t = new := by
        rw [ctl, now]
        exact Function.update_self _ _ _
      rw [own]
      exact point

theorem shared_up (sh : Shared a units share waits s) (c : Conserved s) {old new : Ctl N}
    (here : s.ctl s.curr = old) (ctl : s'.ctl = Function.update s.ctl s.curr new) {r : Int}
    (run : semUp s.kernel (some a) = .ok (s'.kernel, r))
    (account : units' - share new = units - share old + 1) :
    Shared a units' share waits s' := by
  have queue := semUp_waits c.placed run
  obtain ⟨k, r', known, _, sem, _⟩ := semUp_kept c.placed sh.active sh.free rfl
  rw [known, Except.ok.injEq, Prod.mk.injEq] at run
  rw [run.1] at sem
  refine ⟨by rw [sem]; exact sh.active, by rw [sem], ?_, ?_⟩
  · rw [sem, total_update share ctl, here]
    dsimp only
    rw [sh.value, toInt_succ]
    exact congrArg toInt (by omega)
  · intro t mem
    rw [blocked_stays c ctl (queue t mem)]
    exact sh.blocked t (queue t mem)

theorem shared_same (sh : Shared a units share waits s) (c : Conserved s) {old new : Ctl N}
    (here : s.ctl s.curr = old) (ctl : s'.ctl = Function.update s.ctl s.curr new)
    (sem : s'.kernel.sem a = s.kernel.sem a)
    (queue : tasks s'.kernel (.semQueue a) = tasks s.kernel (.semQueue a))
    (account : units' - share new = units - share old) : Shared a units' share waits s' := by
  refine ⟨by rw [sem]; exact sh.active, by rw [sem]; exact sh.free, ?_, ?_⟩
  · rw [sem, sh.value, total_update share ctl, here]
    exact congrArg toInt (by omega)
  · rw [queue]
    intro t mem
    rw [blocked_stays c ctl mem]
    exact sh.blocked t mem

theorem shared_framed (sh : Shared a units share waits s)
    (framed : Framed (semClient a) s s')
    (off : ∀ c, ctlClient c ≠ semClient a → share c = 0)
    (mine : ∀ c, waits c → ctlClient c = semClient a) : Shared a units share waits s' := by
  have sem := framed.sem a rfl
  have queue : tasks s'.kernel (.semQueue a) = tasks s.kernel (.semQueue a) :=
    framed.lists (.semQueue a) (by simp) rfl
  refine ⟨by rw [sem]; exact sh.active, by rw [sem]; exact sh.free, ?_, ?_⟩
  · rw [sem, sh.value, total_framed off framed]
  · rw [queue]
    intro t mem
    have before := sh.blocked t mem
    rcases framed.ctl t with same | ⟨outside, _⟩
    · rw [same]
      exact before
    · exact absurd (mine _ before) outside

theorem few_down (sh : Shared a units share waits s) (few : Few a units share s)
    (c : Conserved s) {old new : Ctl N} (here : s.ctl s.curr = old)
    (task : role old ≠ .dispatcher) (ctl : s'.ctl = Function.update s.ctl s.curr new)
    {r : Option Int} (run : semDown s.kernel (some a) = .ok (s'.kernel, r))
    (range : units - total share s ≤ intMax) (account : share new = share old + 1) :
    Few a units share s' := by
  have user : s.kernel.curr ≠ .dispatcherTask :=
    not_dispatcher c (t := s.curr) (by rw [here]; exact task)
  have count : toInt ((s.kernel.sem a).value - 1) = toInt (units - total share s - 1) := by
    rw [sh.value, toInt_pred]
  have more : total share s' = total share s + 1 := by
    rw [total_update share ctl, here]
    omega
  obtain ⟨k, r', known, _, _, waits', passes⟩ :=
    semDown_kept c.placed user sh.active sh.free count.symm
  rw [known, Except.ok.injEq, Prod.mk.injEq] at run
  rw [run.1] at waits' passes
  unfold Few at few ⊢
  by_cases empty : units - total share s ≤ 0
  · obtain ⟨n, same⟩ : ∃ n : Nat, total share s - units = n :=
      ⟨(total share s - units).toNat, by omega⟩
    have value : units - total share s - 1 = -n - 1 := by omega
    rw [show (total share s' - units).toNat = n + 1 by omega, mustWait_succ, ← value]
    rw [show (total share s - units).toNat = n by omega] at few
    by_cases wait : toInt (units - total share s - 1) < 0
    · rw [if_pos wait, (waits' wait).2, moveTask_target _ (by simp), List.length_append,
        List.length_singleton]
      omega
    · rw [if_neg wait, (passes wait).2]
      exact few
  · have pass : ¬ toInt (units - total share s - 1) < 0 := by
      rw [toInt_eq_self (by simp only [intMin]; omega) (by omega)]
      omega
    rw [(passes pass).2, show (total share s' - units).toNat = 0 by omega]
    rwa [show (total share s - units).toNat = 0 by omega] at few

theorem few_up (sh : Shared a units share waits s) (few : Few a units share s)
    (c : Conserved s) {old new : Ctl N} (here : s.ctl s.curr = old)
    (ctl : s'.ctl = Function.update s.ctl s.curr new) {r : Int}
    (run : semUp s.kernel (some a) = .ok (s'.kernel, r)) (account : share new + 1 = share old) :
    Few a units share s' := by
  have less : total share s' = total share s - 1 := by
    rw [total_update share ctl, here]
    omega
  obtain ⟨k, r', known, _, _, _, wakes, passes⟩ := semUp_kept c.placed sh.active sh.free rfl
  rw [known, Except.ok.injEq, Prod.mk.injEq] at run
  rw [run.1] at wakes passes
  unfold Few at few ⊢
  rcases waiting : tasks s.kernel (.semQueue a) with _ | ⟨t, rest⟩
  · rw [passes fun both => both.2 waiting, waiting]
    exact Nat.zero_le _
  · rw [waiting, List.length_cons] at few
    have most := mustWait_le (total share s - units).toNat
    obtain ⟨n, same⟩ : ∃ n : Nat, total share s - units = n + 1 :=
      ⟨(total share s - units - 1).toNat, by omega⟩
    have least : units - total share s = -n - 1 := by omega
    rw [show (total share s - units).toNat = n + 1 by omega, mustWait_succ, ← least,
      ← sh.value] at few
    rw [show (total share s' - units).toNat = n by omega]
    by_cases wake : toInt ((s.kernel.sem a).value + 1) ≤ 0
    · rw [wakes t rest wake waiting, moveTask_source _ (by simp), waiting, List.erase_cons_head]
      split at few <;> omega
    · -- a negative counter owes a wake-up
      have high : ¬ (s.kernel.sem a).value < 0 := by
        intro negative
        have range := toInt_range (units - total share s)
        rw [← sh.value] at range
        rw [toInt_eq_self (by omega) (by simp only [intMax]; omega)] at wake
        omega
      rw [if_neg high] at few
      rw [passes fun both => wake both.1, waiting, List.length_cons]
      exact few

theorem few_same (few : Few a units share s)
    (queue : tasks s'.kernel (.semQueue a) = tasks s.kernel (.semQueue a))
    (same : total share s' = total share s) : Few a units share s' := by
  unfold Few
  rw [queue, same]
  exact few

/-- If everybody who holds a share is blocked, then nobody does. -/
theorem nobody_holds (sh : Shared a units share waits s) (few : Few a units share s)
    (c : Conserved s) (offer : 1 ≤ units)
    (range : units ≤ intMax) (one : ∀ x, waits x → share x = 1)
    (all : ∀ t, share (s.ctl t) ≠ 0 → t ∈ tasks s.kernel (.semQueue a)) :
    (s.kernel.sem a).value = units ∧ tasks s.kernel (.semQueue a) = [] := by
  have length : total share s = (tasks s.kernel (.semQueue a)).length := by
    refine tally_eq_length (c.placed.wellFormed.ring _).nodup
      (fun t mem => one _ (sh.blocked t mem)) fun t out => ?_
    by_contra holds
    exact out (all t holds)
  have empty : tasks s.kernel (.semQueue a) = [] := by
    apply List.eq_nil_of_length_eq_zero
    have most := mustWait_le (total share s - units).toNat
    unfold Few at few
    omega
  refine ⟨?_, empty⟩
  rw [sh.value, length, empty, List.length_nil]
  have exact' : toInt units = units := toInt_eq_self (by simp only [intMin]; omega) range
  simpa using exact'

end Steps

end SemaphoreShares
