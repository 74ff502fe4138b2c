import PingPong.FiniteTally
import PingPong.TransitionRuns

/-! The reusable barrier of coordination/barrier.c, called any number of times by as many threads
as its size. A semaphore is a number of tokens that any waiting thread may take. -/
namespace BarrierRounds
open TransitionRuns FiniteTally

structure Barrier where
  sizeS : Nat
  size : Nat
  counter : Nat
  barrierS : Nat
  deriving DecidableEq

def barrierInit (size : Nat) : Barrier := { sizeS := 1, size := size, counter := 0, barrierS := 0 }

/-- Where a thread stands in barrier_wait; await is the wait on barrier_s. -/
inductive WaitPoint where
  | outside
  | lock
  | increment
  | compare
  | reset
  | post (i : Nat)
  | unlockLast
  | unlock
  | await
  deriving DecidableEq

/-- A thread with the calls of barrier_wait it has entered and returned from. -/
structure Thread where
  point : WaitPoint
  entered : Nat
  returned : Nat
  deriving DecidableEq

structure State (T : Type) where
  barrier : Barrier
  thread : T → Thread

def Thread.goto (x : Thread) (point : WaitPoint) : Thread := { x with point := point }

def Thread.back (x : Thread) : Thread := { x with point := .outside, returned := x.returned + 1 }

/-- The next step of a thread by itself, with the barrier it leaves behind. -/
def barrierWait (b : Barrier) (x : Thread) : Option (Barrier × Thread) :=
  match x.point with
  | .outside => some (b, { x with point := .lock, entered := x.entered + 1 })
  | .lock => if 0 < b.sizeS then some ({ b with sizeS := b.sizeS - 1 }, x.goto .increment) else none
  | .increment => some ({ b with counter := b.counter + 1 }, x.goto .compare)
  | .compare => some (b, x.goto (if b.counter = b.size then .reset else .unlock))
  | .reset => some ({ b with counter := 0 }, x.goto (.post 0))
  | .post i =>
    if i < b.size - 1 then some ({ b with barrierS := b.barrierS + 1 }, x.goto (.post (i + 1)))
    else some (b, x.goto .unlockLast)
  | .unlockLast => some ({ b with sizeS := b.sizeS + 1 }, x.back)
  | .unlock => some ({ b with sizeS := b.sizeS + 1 }, x.goto .await)
  | .await => if 0 < b.barrierS then some ({ b with barrierS := b.barrierS - 1 }, x.back) else none

variable {T : Type} [DecidableEq T]

def step (s : State T) (t : T) : Option (State T) :=
  (barrierWait s.barrier (s.thread t)).map fun (b, x) => ⟨b, Function.update s.thread t x⟩

/-- Every thread has entered the calls that some thread has returned from. -/
def Safe (s : State T) : Prop := ∀ t u, (s.thread t).returned ≤ (s.thread u).entered

/-- A token of barrier_s goes to a thread only if none is waiting in an earlier call. -/
def Fair (s : State T) (t : T) : Prop :=
  (s.thread t).point = .await → ∀ u, (s.thread u).point = .await →
    (s.thread t).entered ≤ (s.thread u).entered

section Rounds

/-- Where a thread can be when the barrier has opened r times. -/
def ThreadOk (n r : Nat) (x : Thread) : Prop :=
  match x.point with
  | .outside => x.entered = r ∧ x.returned = r
  | .lock | .increment | .compare | .unlock => x.entered = r + 1 ∧ x.returned = r
  | .await => x.entered = x.returned + 1 ∧ (x.entered = r + 1 ∨ x.entered = r)
  | .reset | .unlockLast => x.entered = r ∧ x.entered = x.returned + 1
  | .post i => x.entered = r ∧ x.entered = x.returned + 1 ∧ i ≤ n - 1

/-- Who holds size_s. -/
def holds (x : Thread) : Int :=
  match x.point with
  | .outside | .lock | .await => 0
  | _ => 1

/-- Whom the counter counts: those who have come to the next round. -/
def counted (n r : Nat) (x : Thread) : Int :=
  match x.point with
  | .compare | .unlock => 1
  | .await => if x.entered = r + 1 then 1 else 0
  | .reset => n
  | _ => 0

/-- Tokens that waiting threads of the last round have coming, less those still to be posted. -/
def due (n r : Nat) (x : Thread) : Int :=
  match x.point with
  | .await => if x.entered = r then 1 else 0
  | .reset => 1 - n
  | .post i => i + 1 - n
  | _ => 0

variable [Fintype T]

structure Inv (r : Nat) (s : State T) : Prop where
  size : s.barrier.size = Fintype.card T
  threads : ∀ t, ThreadOk s.barrier.size r (s.thread t)
  mutex : s.barrier.sizeS + tally (fun _ => holds) s.thread = 1
  counter : (s.barrier.counter : Int) = tally (fun _ => counted s.barrier.size r) s.thread
  tokens : (s.barrier.barrierS : Int) = tally (fun _ => due s.barrier.size r) s.thread
  full : ∀ t, (s.thread t).point = .reset → s.barrier.counter = s.barrier.size

variable {s s' : State T} {t u : T} {r : Nat}

def startState (T : Type) [Fintype T] : State T :=
  ⟨barrierInit (Fintype.card T), fun _ => ⟨.outside, 0, 0⟩⟩

omit [DecidableEq T] in
theorem start_inv : Inv 0 (startState T) := by
  have none : tally (fun _ => holds) (startState T).thread = 0 := tally_zero fun _ => rfl
  refine ⟨rfl, fun t => ⟨rfl, rfl⟩, ?_, ?_, ?_, fun t impossible => by cases impossible⟩
  · rw [none]
    rfl
  · exact (tally_zero fun _ => rfl).symm
  · exact (tally_zero fun _ => rfl).symm

theorem holds_nonneg (x : Thread) : 0 ≤ holds x := by
  unfold holds
  split <;> decide

theorem one_holder (inv : Inv r s) (here : holds (s.thread t) = 1) (other : u ≠ t) :
    holds (s.thread u) = 0 := by
  have both := two_le_tally (w := fun _ => holds) (c := s.thread)
    (fun a => holds_nonneg _) other
  have mutex := inv.mutex
  have least := holds_nonneg (s.thread u)
  omega

theorem inv_move {b : Barrier} {x : Thread} (inv : Inv r s) (size : b.size = s.barrier.size)
    (ok : ThreadOk s.barrier.size r x)
    (mutex : b.sizeS + holds x = s.barrier.sizeS + holds (s.thread t))
    (counter : b.counter - counted s.barrier.size r x =
      s.barrier.counter - counted s.barrier.size r (s.thread t))
    (tokens : b.barrierS - due s.barrier.size r x =
      s.barrier.barrierS - due s.barrier.size r (s.thread t))
    (full : ∀ u, (Function.update s.thread t x u).point = .reset → b.counter = b.size) :
    Inv r ⟨b, Function.update s.thread t x⟩ := by
  have oldMutex := inv.mutex
  have oldCounter := inv.counter
  have oldTokens := inv.tokens
  refine ⟨size.trans inv.size, fun u => ?_, ?_, ?_, ?_, full⟩
  · dsimp only
    rw [size, Function.update_apply]
    split
    · exact ok
    · exact inv.threads u
  · dsimp only
    rw [tally_update]
    omega
  · dsimp only
    rw [size, tally_update]
    omega
  · dsimp only
    rw [size, tally_update]
    omega

theorem alone_full {b : Barrier} {x : Thread} (inv : Inv r s)
    (here : holds (s.thread t) = 1) (own : x.point ≠ .reset) (u : T)
    (point : (Function.update s.thread t x u).point = .reset) : b.counter = b.size := by
  by_cases same : u = t
  · subst same
    rw [Function.update_self] at point
    exact absurd point own
  · rw [Function.update_of_ne same] at point
    have out := one_holder inv here same
    rw [holds, point] at out
    cases out

theorem same_full {b : Barrier} {x : Thread} (inv : Inv r s) (own : x.point ≠ .reset)
    (counter : b.counter = s.barrier.counter) (size : b.size = s.barrier.size) (u : T)
    (point : (Function.update s.thread t x u).point = .reset) : b.counter = b.size := by
  by_cases same : u = t
  · subst same
    rw [Function.update_self] at point
    exact absurd point own
  · rw [Function.update_of_ne same] at point
    rw [counter, size]
    exact inv.full u point

theorem counted_le_one (inv : Inv r s) (here : (s.thread t).point = .compare) (u : T) :
    counted s.barrier.size r (s.thread u) ≤ 1 := by
  unfold counted
  split
  · decide
  · decide
  · split <;> decide
  · rename_i point
    have out := one_holder inv (t := t) (u := u) (by rw [holds, here]) (by
      rintro rfl
      rw [here] at point
      cases point)
    rw [holds, point] at out
    cases out
  · decide

/-- When the last thread has come, all others wait in the same round. -/
theorem others_wait (inv : Inv r s) (here : (s.thread t).point = .compare)
    (last : s.barrier.counter = s.barrier.size) (other : u ≠ t) :
    (s.thread u).point = .await ∧ (s.thread u).entered = r + 1 := by
  have full := inv.counter
  rw [last, inv.size] at full
  have one := tally_full (counted_le_one inv here) (by rw [← inv.size] at full ⊢; exact full.symm) u
  have out := one_holder inv (t := t) (u := u) (by rw [holds, here]) other
  unfold counted at one
  unfold holds at out
  split at one
  · rename_i point
    rw [point] at out
    cases out
  · rename_i point
    rw [point] at out
    cases out
  · rename_i point
    split at one
    · rename_i entered
      exact ⟨point, entered⟩
    · cases one
  · rename_i point
    rw [point] at out
    cases out
  · cases one

theorem inv_open (inv : Inv r s) (here : (s.thread t).point = .compare)
    (last : s.barrier.counter = s.barrier.size) :
    Inv (r + 1) ⟨s.barrier, Function.update s.thread t ((s.thread t).goto .reset)⟩ := by
  have waits := fun u (other : u ≠ t) => others_wait inv here last other
  have size := inv.size
  -- no token of the last round is left over
  have spent : s.barrier.barrierS = 0 := by
    have none : tally (fun _ => due s.barrier.size r) s.thread = 0 := by
      refine tally_zero fun u => ?_
      by_cases same : u = t
      · subst same
        simp [due, here]
      · simp [due, waits u same]
    have tokens := inv.tokens
    omega
  have own := inv.threads t
  simp only [ThreadOk, here] at own
  refine ⟨size, fun u => ?_, ?_, ?_, ?_, fun u _ => last⟩
  · by_cases same : u = t
    · subst same
      dsimp only
      rw [Function.update_self]
      exact ⟨own.1, by simp [Thread.goto, own]⟩
    · have ok := inv.threads u
      obtain ⟨point, entered⟩ := waits u same
      simp only [ThreadOk, point] at ok
      simp only [Function.update_of_ne same, ThreadOk, point]
      exact ⟨ok.1, Or.inr entered⟩
  · have mutex := inv.mutex
    dsimp only
    rw [tally_update]
    simp only [holds, here, Thread.goto] at mutex ⊢
    omega
  · have now : tally (fun _ => counted s.barrier.size (r + 1))
        (Function.update s.thread t ((s.thread t).goto .reset)) = s.barrier.size := by
      rw [tally_but_one (t := t) (k := 0) fun u other => by
        simp [Function.update_of_ne other, counted, waits u other]]
      simp [counted, Thread.goto]
    rw [now, last]
  · have now : tally (fun _ => due s.barrier.size (r + 1))
        (Function.update s.thread t ((s.thread t).goto .reset)) = 0 := by
      rw [tally_but_one (t := t) (k := 1) fun u other => by
        simp [Function.update_of_ne other, due, waits u other]]
      simp [due, Thread.goto, size]
    rw [now, spent]
    rfl

omit [DecidableEq T] in
theorem fair_token (inv : Inv r s) (fair : Fair s t) (here : (s.thread t).point = .await)
    (some : 0 < s.barrier.barrierS) : (s.thread t).entered = r := by
  have tokens := inv.tokens
  obtain ⟨u, coming⟩ := tally_pos (w := fun _ => due s.barrier.size r) (c := s.thread) (by omega)
  have ok := inv.threads u
  have own := inv.threads t
  unfold due at coming
  unfold ThreadOk at ok
  simp only [ThreadOk, here] at own
  split at coming
  · rename_i point
    split at coming
    · rename_i entered
      have least := fair here u point
      omega
    · cases coming
  · rename_i point
    have size := Fintype.card_pos_iff.mpr ⟨u⟩
    have whole := inv.size
    omega
  · rename_i i point
    have size := Fintype.card_pos_iff.mpr ⟨u⟩
    have whole := inv.size
    simp only [point] at ok
    omega
  · cases coming

theorem inv_step (inv : Inv r s) (fair : Fair s t) (go : step s t = some s') :
    ∃ r', Inv r' s' := by
  obtain ⟨⟨b, x⟩, run, rfl⟩ := Option.map_eq_some_iff.mp go
  have ok := inv.threads t
  cases point : (s.thread t).point with
  | outside =>
    simp only [barrierWait, point, Option.some.injEq, Prod.mk.injEq] at run
    obtain ⟨rfl, rfl⟩ := run
    simp only [ThreadOk, point] at ok
    refine ⟨r, inv_move inv rfl ?_ ?_ ?_ ?_ (same_full inv (by simp) rfl rfl)⟩
    · simp [ThreadOk, ok]
    · simp [holds, point]
    · simp [counted, point]
    · simp [due, point]
  | lock =>
    simp only [barrierWait, point, Option.ite_none_right_eq_some, Option.some.injEq,
      Prod.mk.injEq] at run
    obtain ⟨open', rfl, rfl⟩ := run
    simp only [ThreadOk, point] at ok
    refine ⟨r, inv_move inv rfl ?_ ?_ ?_ ?_ (same_full inv (by simp [Thread.goto]) rfl rfl)⟩
    · simp [ThreadOk, Thread.goto, ok]
    · simp only [holds, point, Thread.goto]
      omega
    · simp [counted, point, Thread.goto]
    · simp [due, point, Thread.goto]
  | increment =>
    simp only [barrierWait, point, Option.some.injEq, Prod.mk.injEq] at run
    obtain ⟨rfl, rfl⟩ := run
    simp only [ThreadOk, point] at ok
    have here : holds (s.thread t) = 1 := by rw [holds, point]
    refine ⟨r, inv_move inv rfl ?_ ?_ ?_ ?_ (alone_full inv here (by simp [Thread.goto]))⟩
    · simp [ThreadOk, Thread.goto, ok]
    · simp [holds, point, Thread.goto]
    · simp [counted, point, Thread.goto]
    · simp [due, point, Thread.goto]
  | compare =>
    simp only [barrierWait, point, Option.some.injEq, Prod.mk.injEq] at run
    obtain ⟨rfl, rfl⟩ := run
    by_cases last : s.barrier.counter = s.barrier.size
    · rw [if_pos last]
      exact ⟨r + 1, inv_open inv point last⟩
    · rw [if_neg last]
      simp only [ThreadOk, point] at ok
      refine ⟨r, inv_move inv rfl ?_ ?_ ?_ ?_ (same_full inv (by simp [Thread.goto]) rfl rfl)⟩
      · simp [ThreadOk, Thread.goto, ok]
      · simp [holds, point, Thread.goto]
      · simp [counted, point, Thread.goto]
      · simp [due, point, Thread.goto]
  | reset =>
    simp only [barrierWait, point, Option.some.injEq, Prod.mk.injEq] at run
    obtain ⟨rfl, rfl⟩ := run
    simp only [ThreadOk, point] at ok
    have here : holds (s.thread t) = 1 := by rw [holds, point]
    refine ⟨r, inv_move inv rfl ?_ ?_ ?_ ?_ (alone_full inv here (by simp [Thread.goto]))⟩
    · simp only [ThreadOk, Thread.goto]
      omega
    · simp [holds, point, Thread.goto]
    · simp [counted, point, Thread.goto, inv.full t point]
    · simp [due, point, Thread.goto]
  | post i =>
    simp only [ThreadOk, point] at ok
    simp only [barrierWait, point] at run
    split at run
    · rename_i more
      simp only [Option.some.injEq, Prod.mk.injEq] at run
      obtain ⟨rfl, rfl⟩ := run
      refine ⟨r, inv_move inv rfl ?_ ?_ ?_ ?_ (same_full inv (by simp [Thread.goto]) rfl rfl)⟩
      · simp only [ThreadOk, Thread.goto]
        omega
      · simp [holds, point, Thread.goto]
      · simp [counted, point, Thread.goto]
      · simp only [due, point, Thread.goto]
        omega
    · rename_i done
      simp only [Option.some.injEq, Prod.mk.injEq] at run
      obtain ⟨rfl, rfl⟩ := run
      have size := inv.size
      have someone := Fintype.card_pos_iff.mpr ⟨t⟩
      refine ⟨r, inv_move inv rfl ?_ ?_ ?_ ?_ (same_full inv (by simp [Thread.goto]) rfl rfl)⟩
      · simp only [ThreadOk, Thread.goto]
        omega
      · simp [holds, point, Thread.goto]
      · simp [counted, point, Thread.goto]
      · simp only [due, point, Thread.goto]
        omega
  | unlockLast =>
    simp only [barrierWait, point, Option.some.injEq, Prod.mk.injEq] at run
    obtain ⟨rfl, rfl⟩ := run
    simp only [ThreadOk, point] at ok
    refine ⟨r, inv_move inv rfl ?_ ?_ ?_ ?_ (same_full inv (by simp [Thread.back]) rfl rfl)⟩
    · simp only [ThreadOk, Thread.back]
      omega
    · simp [holds, point, Thread.back]
    · simp [counted, point, Thread.back]
    · simp [due, point, Thread.back]
  | unlock =>
    simp only [barrierWait, point, Option.some.injEq, Prod.mk.injEq] at run
    obtain ⟨rfl, rfl⟩ := run
    simp only [ThreadOk, point] at ok
    refine ⟨r, inv_move inv rfl ?_ ?_ ?_ ?_ (same_full inv (by simp [Thread.goto]) rfl rfl)⟩
    · simp [ThreadOk, Thread.goto, ok]
    · simp [holds, point, Thread.goto]
    · simp [counted, point, Thread.goto, ok]
    · simp [due, point, Thread.goto, ok]
  | await =>
    simp only [barrierWait, point, Option.ite_none_right_eq_some, Option.some.injEq,
      Prod.mk.injEq] at run
    obtain ⟨some, rfl, rfl⟩ := run
    simp only [ThreadOk, point] at ok
    have entered := fair_token inv fair point some
    refine ⟨r, inv_move inv rfl ?_ ?_ ?_ ?_ (same_full inv (by simp [Thread.back]) rfl rfl)⟩
    · simp only [ThreadOk, Thread.back]
      omega
    · simp [holds, point, Thread.back]
    · simp [counted, point, Thread.back, entered]
    · simp only [due, point, Thread.back, entered, ↓reduceIte]
      omega

omit [DecidableEq T] in
theorem inv_safe (inv : Inv r s) : Safe s := by
  intro t u
  have one := inv.threads t
  have other := inv.threads u
  unfold ThreadOk at one other
  split at one <;> split at other <;> omega

/-- A token taken out of turn breaks the barrier at once. -/
theorem unfair_unsafe (inv : Inv r s) (go : step s t = some s') (safe : Safe s') : Fair s t := by
  intro here u waiting
  obtain ⟨⟨b, x⟩, run, rfl⟩ := Option.map_eq_some_iff.mp go
  simp only [barrierWait, here, Option.ite_none_right_eq_some, Option.some.injEq,
    Prod.mk.injEq] at run
  obtain ⟨some, rfl, rfl⟩ := run
  have ok := inv.threads t
  simp only [ThreadOk, here] at ok
  by_cases same : u = t
  · rw [same]
  · have back := safe t u
    dsimp only at back
    rw [Function.update_self, Function.update_of_ne same] at back
    simp only [Thread.back] at back
    omega

end Rounds

section Runs
variable [Fintype T]

theorem fair_run_inv {threads : List T} {s : State T}
    (run : Run (fun a t b => step a t = some b ∧ Fair a t) (startState T) threads s) :
    ∃ r, Inv r s :=
  run_invariant (fun s => ∃ r, Inv r s) (fun _ _ _ ⟨_, inv⟩ go => inv_step inv go.2 go.1) run
    ⟨0, start_inv⟩

end Runs

theorem barrier_is_safe {T : Type} [DecidableEq T] [Fintype T] {threads : List T} {s : State T} :
    (Run (fun a t b => step a t = some b ∧ Fair a t) (startState T) threads s → Safe s) ∧
    (Run (fun a t b => step a t = some b ∧ Fair a t) (startState T) threads s ↔
      Run (fun a t b => step a t = some b ∧ Safe b) (startState T) threads s) := by
  refine ⟨fun run => ?_, fun run => ?_, fun run => ?_⟩
  · obtain ⟨r, inv⟩ := fair_run_inv run
    exact inv_safe inv
  · induction run with
    | start => exact .start _
    | step earlier last ih =>
      obtain ⟨r, inv⟩ := fair_run_inv earlier
      obtain ⟨r', inv'⟩ := inv_step inv last.2 last.1
      exact .step ih ⟨last.1, inv_safe inv'⟩
  · induction run with
    | start => exact .start _
    | step earlier last ih =>
      obtain ⟨r, inv⟩ := fair_run_inv ih
      exact .step ih ⟨last.1, unfair_unsafe inv last.1 last.2⟩

/-- Two threads meet at the barrier: the second to come lets the first go. -/
def meeting : List (Fin 2) :=
  List.replicate 5 0 ++ List.replicate 8 1 ++ [0]

instance (s : State (Fin 2)) : Decidable (Safe s) := inferInstanceAs (Decidable (∀ _ _, _))

instance (s : State (Fin 2)) (t : Fin 2) : Decidable (Fair s t) :=
  inferInstanceAs (Decidable (_ → ∀ _, _))

theorem two_threads_meet : ∃ s : State (Fin 2),
    Run (fun a t b => step a t = some b ∧ Fair a t) (startState (Fin 2)) meeting s ∧ Safe s ∧
    ∀ t, (s.thread t).returned = 1 := by
  have ends : (exec (guarded (fun a t _ => Fair a t) step) (startState (Fin 2)) meeting).isSome =
      true := by decide +kernel
  have facts : ∀ s ∈ exec (guarded (fun a t _ => Fair a t) step) (startState (Fin 2)) meeting,
      ∀ t, (s.thread t).returned = 1 := by decide +kernel
  obtain ⟨s, found⟩ := Option.isSome_iff_exists.mp ends
  have run := guarded_run found
  exact ⟨s, run, barrier_is_safe.1 run, facts s found⟩

/-- The second thread comes back at once and takes the token of the first. -/
def overtaking : List (Fin 2) :=
  List.replicate 5 0 ++ List.replicate 8 1 ++ List.replicate 6 1

theorem token_is_stolen :
    ¬ ∀ (threads : List (Fin 2)) (s : State (Fin 2)),
      Run (fun a t b => step a t = some b) (startState (Fin 2)) threads s → Safe s := by
  intro claim
  obtain ⟨s, found, stolen⟩ := exec_reaches step (startState (Fin 2)) overtaking
    (fun s => ¬ Safe s) (by decide +kernel)
  exact stolen (claim _ s (exec_run found))

end BarrierRounds
