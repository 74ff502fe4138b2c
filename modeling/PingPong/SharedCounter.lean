import PingPong.UserPrograms

/-!
tests/pingpong-racecond.c: tasks that add to one variable, each addition a load and a store with a
semaphore around them. The timer may take the processor away between the two, so the sum is right
only because the kernel's semaphore excludes the other tasks, and main sees all of it only because
task_wait waits.
-/
namespace SharedCounter
open MachineModel CircularList QueueModel KernelModel KernelEffects TaskPlacement SystemModel
open SystemFrames TransitionRuns FiniteTally TaskConservation WaitingTasks SemaphorePreemption
open KernelActs UserPrograms

section Source

/-- The statement main executes next. -/
inductive MainPoint where
  | semInit
  | taskInit (i : Nat)
  | semUp
  | taskWait (i : Nat)
  | verify
  | taskExit
  deriving DecidableEq, Repr

/-- The statement of the loop a task executes next, in round i; store has the loaded value. -/
inductive TaskPoint where
  | test (i : Nat)
  | load (i : Nat)
  | store (i : Nat) (value : BitVec 64)
  | up (i : Nat)
  deriving DecidableEq, Repr

/-- soma is a long int; correct says which of its two lines main has printed. -/
structure Variables (k : Nat) where
  soma : BitVec 64
  correct : Option Bool
  main : MainPoint
  task : Fin k → TaskPoint
  deriving DecidableEq

def zeroed (k : Nat) : Variables k := ⟨0, none, .semInit, fun _ => .test 0⟩

variable {k : Nat}

def Variables.at (v : Variables k) (i : Fin k) (p : TaskPoint) : Variables k :=
  { v with task := Function.update v.task i p }

def taskBody (numSteps : Nat) (id : Fin k) (v : Variables k) : Action (Fin k) (Variables k) :=
  match v.task id with
  | .test i =>
    if i < numSteps then .call (.semDown (some 0)) (v.at id (.load i)) else .call (.taskExit 0) v
  | .load i => .own (v.at id (.store i v.soma))
  | .store i value => .own { v.at id (.up i) with soma := value + 1 }
  | .up i => .call (.semUp (some 0)) (v.at id (.test (i + 1)))

def main (numSteps : Nat) (stack : Bool) (v : Variables k) : Action (Fin k) (Variables k) :=
  match v.main with
  | .semInit => .call (.semInit (some 0) 0) { v with main := .taskInit 0 }
  | .taskInit i =>
    if h : i < k then .call (.taskInit (.user ⟨i, h⟩) stack) { v with main := .taskInit (i + 1) }
    else .call (.taskSleep 20) { v with main := .semUp }
  | .semUp => .call (.semUp (some 0)) { v with main := .taskWait 0 }
  | .taskWait i =>
    if h : i < k then .call (.taskWait (some (.user ⟨i, h⟩))) { v with main := .taskWait (i + 1) }
    else .call (.semDestroy (some 0)) { v with main := .verify }
  | .verify =>
    .own { v with
      correct := some (decide (v.soma = BitVec.ofInt 64 (toInt (k * numSteps))))
      main := .taskExit }
  | .taskExit => .call (.taskExit 0) v

/-- NUMTASKS is k. -/
def racecond (k numSteps : Nat) : Program (Fin k) (Variables k) := fun t stack v =>
  match t with
  | .mainTask => some (main numSteps stack v)
  | .user i => some (taskBody numSteps i v)
  | .dispatcherTask | .diskDriverTask => none

structure Started (p : Process (Fin k) (Variables k)) : Prop where
  booted : Booted p.system
  memory : p.memory = zeroed k
  lock : (p.system.kernel.sem (.user 0)).lock = 0
  unused : ∀ t, account 0 p.system t = ⟨p.system.ctl t, 0, 0, 0⟩
  emptyTests : p.system.history.emptyTests 0 = 0

end Source

section Shapes
variable {k numSteps : Nat}

def added : TaskPoint → Nat
  | .test i | .load i | .store i _ => i
  | .up i => i + 1

def begun (k : Nat) : MainPoint → Nat
  | .semInit => 0
  | .taskInit i => i
  | _ => k

/-- The tasks before this one are over. -/
def waited (k : Nat) : MainPoint → Ctl (Fin k) → Nat
  | .taskWait i, .waitReturn _ => i - 1
  | .taskWait i, _ => i
  | .verify, _ | .taskExit, _ => k
  | _, _ => 0

/-- Where a task is in its code, where in the kernel, and what it has done on the semaphore. -/
inductive InBody (numSteps : Nat) : TaskPoint → Account (Fin k) → Prop where
  | unborn : InBody numSteps (.test 0) ⟨.unborn, 0, 0, 0⟩
  | test (i : Nat) (code : Int) (more : i ≤ numSteps) :
      InBody numSteps (.test i) ⟨.body code, i, i, i⟩
  | ended : InBody numSteps (.test numSteps) ⟨.terminated, numSteps, numSteps, numSteps⟩
  | waits (i : Nat) (p : DownPoint) (more : i < numSteps) :
      InBody numSteps (.load i) ⟨.semDown 0 p, i, i, i⟩
  | load (i : Nat) (code : Int) (more : i < numSteps) :
      InBody numSteps (.load i) ⟨.body code, i + 1, i, i⟩
  | store (i : Nat) (value : BitVec 64) (code : Int) (more : i < numSteps) :
      InBody numSteps (.store i value) ⟨.body code, i + 1, i, i⟩
  | up (i : Nat) (code : Int) (more : i < numSteps) :
      InBody numSteps (.up i) ⟨.body code, i + 1, i, i⟩
  | raises (i c : Nat) (p : UpPoint) (more : i < numSteps)
      (counted : c + rising 0 (.semUp 0 p : Ctl (Fin k)) = i + 1) :
      InBody numSteps (.test (i + 1)) ⟨.semUp 0 p, i + 1, i + 1, c⟩

inductive InMain (k : Nat) : MainPoint → Account (Fin k) → Prop where
  | semInit (code : Int) : InMain k .semInit ⟨.body code, 0, 0, 0⟩
  | taskInit (i : Nat) (code : Int) (more : i ≤ k) :
      InMain k (.taskInit i) ⟨.body code, 0, 0, 0⟩
  | semUp (code : Int) : InMain k .semUp ⟨.body code, 0, 0, 0⟩
  | raises (c : Nat) (p : UpPoint) (counted : c + rising 0 (.semUp 0 p : Ctl (Fin k)) = 1) :
      InMain k (.taskWait 0) ⟨.semUp 0 p, 0, 1, c⟩
  | taskWait (i : Nat) (code : Int) (more : i ≤ k) :
      InMain k (.taskWait i) ⟨.body code, 0, 1, 1⟩
  | waits (i : Fin k) : InMain k (.taskWait (i + 1)) ⟨.waitReturn (.user i), 0, 1, 1⟩
  | verify (code : Int) : InMain k .verify ⟨.body code, 0, 1, 1⟩
  | taskExit (code : Int) : InMain k .taskExit ⟨.body code, 0, 1, 1⟩
  | ended : InMain k .taskExit ⟨.terminated, 0, 1, 1⟩

theorem begun_le {k : Nat} {p : MainPoint} {b : Account (Fin k)} (main : InMain k p b) :
    begun k p ≤ k := by
  cases main with
  | semInit => exact Nat.zero_le k
  | taskInit i code more => exact more
  | semUp | raises | taskWait | waits | verify | taskExit | ended => exact Nat.le_refl k

structure Shape (numSteps : Nat) (a : Tcb (Fin k) → Account (Fin k)) (v : Variables k) : Prop where
  main : InMain k v.main (a .mainTask)
  tasks : ∀ i, InBody numSteps (v.task i) (a (.user i))
  begun : ∀ i : Fin k, (a (.user i)).ctl = .unborn ↔ begun k v.main ≤ i
  waited : ∀ i : Fin k, i.val < waited k v.main (a .mainTask).ctl → (a (.user i)).ctl = .terminated
  dispatcher : ∃ point, a .dispatcherTask = ⟨.dispatcher point, 0, 0, 0⟩
  driver : a .diskDriverTask = ⟨.unborn, 0, 0, 0⟩
  sum : v.soma = BitVec.ofNat 64 (∑ i, added (v.task i))
  loaded : ∀ i j value, v.task i = .store j value → value = v.soma
  verdict : v.correct = none ∨ v.correct = some true ∧ v.main = .taskExit

variable {a : Tcb (Fin k) → Account (Fin k)} {v : Variables k}

theorem body_advances {p : TaskPoint} {b b' : Account (Fin k)} (body : InBody numSteps p b)
    (step : Advances 0 b b') :
    InBody numSteps p b' ∧ (b.ctl ≠ .unborn ∧ b'.ctl ≠ .unborn) ∧ b.ctl ≠ .terminated := by
  cases body with
  | unborn | test | ended | load | store | up => cases step
  | waits i p more =>
    cases step with
    | down _ p' => exact ⟨.waits i p' more, by simp, by simp⟩
    | passed => exact ⟨.load i 0 more, by simp, by simp⟩
  | raises i c p more counted =>
    cases step with
    | up _ p' r s _ c' same => exact ⟨.raises i c' p' more (same.trans counted), by simp, by simp⟩
    | raised _ r s _ done =>
      rw [done, Nat.add_zero] at counted
      subst counted
      exact ⟨.test (i + 1) 0 more, by simp, by simp⟩

theorem main_advances {p : MainPoint} {b b' : Account (Fin k)} (main : InMain k p b)
    (step : Advances 0 b b') : InMain k p b' ∧
      (waited k p b'.ctl = waited k p b.ctl ∨
        ∃ i : Fin k, b.ctl = .waitReturn (.user i) ∧ waited k p b'.ctl = i + 1 ∧
          waited k p b.ctl = i) := by
  cases main with
  | semInit | taskInit | semUp | taskWait | verify | taskExit | ended => cases step
  | raises c p counted =>
    cases step with
    | up _ p' r s _ c' same => exact ⟨.raises c' p' (same.trans counted), Or.inl rfl⟩
    | raised _ r s _ done =>
      rw [done, Nat.add_zero] at counted
      subst counted
      exact ⟨.taskWait 0 0 (Nat.zero_le k), Or.inl rfl⟩
  | waits i =>
    cases step with
    | awaited _ code => exact ⟨.taskWait (i + 1) code i.isLt, Or.inr ⟨i, rfl, rfl, rfl⟩⟩

theorem shape_rests {a' : Tcb (Fin k) → Account (Fin k)} (shape : Shape numSteps a v)
    (others : ∀ t, t ≠ .dispatcherTask → a' t = a t)
    (dispatcher : ∃ point, a' .dispatcherTask = ⟨.dispatcher point, 0, 0, 0⟩) :
    Shape numSteps a' v := by
  have main := others .mainTask (by simp)
  have user : ∀ i, a' (.user i) = a (.user i) := fun i => others (.user i) (by simp)
  have driver := others .diskDriverTask (by simp)
  constructor
  · rw [main]
    exact shape.main
  · intro i
    rw [user]
    exact shape.tasks i
  · intro i
    rw [user]
    exact shape.begun i
  · intro i
    rw [user, main]
    exact shape.waited i
  · exact dispatcher
  · rw [driver]
    exact shape.driver
  · exact shape.sum
  · exact shape.loaded
  · exact shape.verdict

theorem added_update (task : Fin k → TaskPoint) (i : Fin k) (p : TaskPoint) :
    ∑ j, added (Function.update task i p j) + added (task i) = ∑ j, added (task j) + added p := by
  have changed := tally_update (fun _ p => (added p : Int)) task i p
  simp only [tally] at changed
  have whole : ((∑ j, added (Function.update task i p j) + added (task i) : Nat) : Int) =
      (∑ j, added (task j) + added p : Nat) := by
    push_cast
    omega
  exact_mod_cast whole

theorem unprinted (shape : Shape numSteps a v) {i : Fin k}
    (going : (a (.user i)).ctl ≠ .terminated) : v.correct = none := by
  rcases shape.verdict with none | ⟨-, last⟩
  · exact none
  · refine absurd (shape.waited i ?_) going
    rw [last]
    exact i.isLt

theorem shape_task (shape : Shape numSteps a v) {i : Fin k} {b : Account (Fin k)} {p : TaskPoint}
    {c : Nat} (body : InBody numSteps p b)
    (born : (a (.user i)).ctl ≠ .unborn ∧ b.ctl ≠ .unborn)
    (going : (a (.user i)).ctl ≠ .terminated) (counts : added p = added (v.task i) + c)
    (loaded : ∀ j value, p = .store j value → value = v.soma + BitVec.ofNat 64 c)
    (alone : c = 0 ∨ ∀ i', i' ≠ i → ∀ j value, v.task i' ≠ .store j value) :
    Shape numSteps (Function.update a (.user i) b)
      { v.at i p with soma := v.soma + BitVec.ofNat 64 c } := by
  constructor
  · rw [Function.update_of_ne (by simp)]
    exact shape.main
  · intro j
    by_cases own : j = i
    · subst own
      simpa [Variables.at] using body
    · have other : Tcb.user j ≠ Tcb.user i := by simpa using own
      simpa [Variables.at, Function.update_of_ne own, Function.update_of_ne other] using
        shape.tasks j
  · intro j
    by_cases own : j = i
    · subst own
      rw [Function.update_self]
      exact ⟨fun unborn => absurd unborn born.2,
        fun later => absurd ((shape.begun j).mpr later) born.1⟩
    · rw [Function.update_of_ne (by simpa using own)]
      exact shape.begun j
  · intro j before
    rw [Function.update_of_ne (by simp)] at before
    have ended := shape.waited j before
    rw [Function.update_of_ne, ended]
    rintro same
    cases same
    exact going ended
  · rw [Function.update_of_ne (by simp)]
    exact shape.dispatcher
  · rw [Function.update_of_ne (by simp)]
    exact shape.driver
  · have total := added_update v.task i p
    have grown : ∑ j, added (Function.update v.task i p j) = ∑ j, added (v.task j) + c := by omega
    simp only [Variables.at, grown, shape.sum]
    exact (BitVec.ofNat_add _ _).symm
  · intro j r value here
    by_cases own : j = i
    · subst own
      exact loaded r value (by simpa [Variables.at] using here)
    · have before : v.task j = .store r value := by
        simpa [Variables.at, Function.update_of_ne own] using here
      rcases alone with still | nobody
      · rw [shape.loaded j r value before, still]
        simp
      · exact absurd before (nobody j own r value)
  · have none := unprinted shape going
    exact Or.inl none

theorem shape_moves (shape : Shape numSteps a v) {i : Fin k} {b : Account (Fin k)} {p : TaskPoint}
    (body : InBody numSteps p b) (born : (a (.user i)).ctl ≠ .unborn ∧ b.ctl ≠ .unborn)
    (going : (a (.user i)).ctl ≠ .terminated) (counts : added p = added (v.task i))
    (loaded : ∀ j value, p = .store j value → value = v.soma) :
    Shape numSteps (Function.update a (.user i) b) (v.at i p) := by
  have next := shape_task shape (c := 0) body born going counts
    (fun j value here => by rw [loaded j value here]; simp) (Or.inl rfl)
  simpa [Variables.at] using next

theorem shape_main (shape : Shape numSteps a v) {b : Account (Fin k)} {p : MainPoint}
    {correct : Option Bool} (main : InMain k p b) (same : begun k p = begun k v.main)
    (ended : ∀ i : Fin k, i.val < waited k p b.ctl → (a (.user i)).ctl = .terminated)
    (verdict : correct = none ∨ correct = some true ∧ p = .taskExit) :
    Shape numSteps (Function.update a .mainTask b) { v with main := p, correct := correct } := by
  have user : ∀ i, Function.update a .mainTask b (.user i) = a (.user i) := fun i =>
    Function.update_of_ne (by simp) _ _
  constructor
  · rw [Function.update_self]
    exact main
  · intro i
    rw [user]
    exact shape.tasks i
  · intro i
    rw [user, same]
    exact shape.begun i
  · intro i before
    rw [Function.update_self] at before
    rw [user]
    exact ended i before
  · rw [Function.update_of_ne (by simp)]
    exact shape.dispatcher
  · rw [Function.update_of_ne (by simp)]
    exact shape.driver
  · exact shape.sum
  · exact shape.loaded
  · exact verdict

theorem silent (shape : Shape numSteps a v) (early : v.main ≠ .taskExit) : v.correct = none :=
  shape.verdict.resolve_right fun printed => early printed.2

theorem unborn_point {p : TaskPoint} {b : Account (Fin k)} (body : InBody numSteps p b)
    (unborn : b.ctl = .unborn) : p = .test 0 ∧ b = ⟨.unborn, 0, 0, 0⟩ := by
  cases body <;> first | exact ⟨rfl, rfl⟩ | cases unborn

theorem over_point {p : TaskPoint} {b : Account (Fin k)} (body : InBody numSteps p b)
    (ended : b.ctl = .terminated) : p = .test numSteps := by
  cases body <;> first | rfl | cases ended

theorem shape_init (shape : Shape numSteps a v) {i : Fin k} {id : Int}
    (here : v.main = .taskInit i) :
    Shape numSteps (Function.update (Function.update a (.user i) ⟨.body 0, 0, 0, 0⟩) .mainTask
      ⟨.body id, 0, 0, 0⟩) { v with main := .taskInit (i + 1) } := by
  have unborn : (a (.user i)).ctl = .unborn :=
    (shape.begun i).mpr (by rw [here]; exact Nat.le_refl _)
  have user : ∀ j, j ≠ i → Function.update (Function.update a (.user i) ⟨.body 0, 0, 0, 0⟩)
      .mainTask ⟨.body id, 0, 0, 0⟩ (.user j) = a (.user j) := by
    intro j other
    rw [Function.update_of_ne (by simp), Function.update_of_ne (by simpa using other)]
  have own : Function.update (Function.update a (.user i) ⟨.body 0, 0, 0, 0⟩)
      .mainTask ⟨.body id, 0, 0, 0⟩ (.user i) = ⟨.body 0, 0, 0, 0⟩ := by
    rw [Function.update_of_ne (by simp), Function.update_self]
  constructor
  · rw [Function.update_self]
    exact .taskInit (i + 1) id i.isLt
  · intro j
    by_cases same : j = i
    · subst same
      rw [own, (unborn_point (shape.tasks j) unborn).1]
      exact .test 0 0 (Nat.zero_le numSteps)
    · rw [user j same]
      exact shape.tasks j
  · intro j
    by_cases same : j = i
    · subst same
      rw [own]
      simp [SharedCounter.begun]
    · rw [user j same, shape.begun j, here]
      simp only [SharedCounter.begun]
      have apart : j.val ≠ i.val := fun both => same (Fin.ext both)
      omega
  · intro j before
    rw [Function.update_self] at before
    cases before
  · rw [Function.update_of_ne (by simp), Function.update_of_ne (by simp)]
    exact shape.dispatcher
  · rw [Function.update_of_ne (by simp), Function.update_of_ne (by simp)]
    exact shape.driver
  · exact shape.sum
  · exact shape.loaded
  · rcases shape.verdict with none | ⟨-, last⟩
    · exact Or.inl none
    · rw [here] at last
      cases last

end Shapes

section Counting
variable {k numSteps : Nat} {a : Tcb (Fin k) → Account (Fin k)} {v : Variables k}

/-- A task is ahead by at most one return, and only inside its critical section. -/
theorem body_counts {p : TaskPoint} {b : Account (Fin k)} (body : InBody numSteps p b) :
    b.incremented ≤ b.started ∧ b.started ≤ b.returned ∧
      (b.returned + inside 0 b.ctl ≤ b.incremented + 1) ∧ 0 ≤ inside 0 b.ctl := by
  cases body with
  | unborn | test | ended | load | store | up => simp [inside]
  | waits i p more => cases p <;> simp [inside]
  | raises i c p more counted =>
    have one : rising 0 (.semUp 0 p : Ctl (Fin k)) ≤ 1 := by cases p <;> simp [rising]
    have none : inside 0 (.semUp 0 p : Ctl (Fin k)) = 0 := rfl
    simp only [none]
    omega

theorem main_counts {p : MainPoint} {b : Account (Fin k)} (main : InMain k p b) :
    b.returned = 0 ∧ b.incremented ≤ 1 ∧ inside 0 b.ctl = 0 := by
  cases main with
  | raises c p counted =>
    refine ⟨rfl, ?_, rfl⟩
    dsimp only
    omega
  | semInit | taskInit | semUp | taskWait | waits | verify | taskExit | ended => simp [inside]

theorem storing_is_critical {p : TaskPoint} {b : Account (Fin k)} (body : InBody numSteps p b)
    {i : Nat} {value : BitVec 64} (here : p = .store i value) : b.started < b.returned := by
  cases body with
  | store => exact Nat.lt_succ_self _
  | unborn | test | ended | waits | load | up | raises => cases here

theorem shape_counts (shape : Shape numSteps a v) (t : Tcb (Fin k)) :
    (a t).incremented ≤ (a t).returned + (if t = .mainTask then 1 else 0) ∧
      (a t).returned + inside 0 (a t).ctl ≤
        (a t).incremented + (if t = .mainTask ∨ t = .dispatcherTask ∨ t = .diskDriverTask
          then 0 else 1) ∧
      0 ≤ inside 0 (a t).ctl ∧ ((a t).started < (a t).returned →
        (a t).incremented + 1 ≤ (a t).returned) := by
  cases t with
  | mainTask =>
    have counts := main_counts shape.main
    simp only [↓reduceIte]
    omega
  | dispatcherTask =>
    obtain ⟨point, same⟩ := shape.dispatcher
    simp [same, inside]
  | diskDriverTask => simp [shape.driver, inside]
  | user i =>
    have counts := body_counts (shape.tasks i)
    simp only [reduceCtorEq, or_self, ↓reduceIte]
    omega

end Counting

section Semaphore
variable {k numSteps : Nat} {s s' : System (Fin k)} {v : Variables k}

structure Untouched (s : System (Fin k)) : Prop where
  lock : (s.kernel.sem (.user 0)).lock = 0
  noWaiters : waiters 0 s = []
  emptyTests : s.history.emptyTests 0 = 0

def Phase (p : MainPoint) (s : System (Fin k)) : Prop :=
  match p with
  | .semInit => Untouched s
  | .verify | .taskExit => True
  | _ => Ledger 0 0 s

theorem shape_simple (shape : Shape numSteps (account 0 s) v) (t : Tcb (Fin k)) :
    Simple 0 (s.ctl t) := by
  change Simple 0 (account 0 s t).ctl
  cases t with
  | mainTask =>
    have main := shape.main
    generalize account 0 s .mainTask = b at main ⊢
    generalize v.main = p at main
    cases main <;> trivial
  | dispatcherTask =>
    obtain ⟨point, same⟩ := shape.dispatcher
    rw [same]
    trivial
  | diskDriverTask =>
    rw [shape.driver]
    trivial
  | user i =>
    have body := shape.tasks i
    generalize account 0 s (.user i) = b at body ⊢
    generalize v.task i = p at body
    cases body <;> trivial

theorem shape_waits (shape : Shape numSteps (account 0 s) v) {w u : Tcb (Fin k)}
    (waits : s.ctl w = .waitReturn u) : w = .mainTask ∧ ∃ i, v.main = .taskWait i := by
  change (account 0 s w).ctl = _ at waits
  cases w with
  | mainTask =>
    have main := shape.main
    generalize account 0 s .mainTask = b at main waits
    generalize v.main = p at main
    cases main <;> first | exact ⟨rfl, _, rfl⟩ | cases waits
  | dispatcherTask =>
    obtain ⟨point, same⟩ := shape.dispatcher
    rw [same] at waits
    cases waits
  | diskDriverTask =>
    rw [shape.driver] at waits
    cases waits
  | user i =>
    have body := shape.tasks i
    generalize account 0 s (.user i) = b at body waits
    generalize v.task i = p at body
    cases body <;> cases waits

theorem shape_outside (shape : Shape numSteps (account 0 s) v) (start : v.main = .semInit)
    (t : Tcb (Fin k)) : ctlClient (s.ctl t) = .plain ∧
      account 0 s t = ⟨s.ctl t, 0, 0, 0⟩ := by
  suffices both : ctlClient (account 0 s t).ctl = .plain ∧
      account 0 s t = ⟨(account 0 s t).ctl, 0, 0, 0⟩ from both
  cases t with
  | mainTask =>
    have main := shape.main
    rw [start] at main
    generalize account 0 s .mainTask = b at main ⊢
    cases main
    exact ⟨rfl, rfl⟩
  | dispatcherTask =>
    obtain ⟨point, same⟩ := shape.dispatcher
    rw [same]
    exact ⟨rfl, rfl⟩
  | diskDriverTask =>
    rw [shape.driver]
    exact ⟨rfl, rfl⟩
  | user i =>
    have unborn := (shape.begun i).mpr (by rw [start]; exact Nat.zero_le _)
    rw [(unborn_point (shape.tasks i) unborn).2]
    exact ⟨rfl, rfl⟩

theorem users_sum (k : Nat) : ∑ t : Tcb (Fin k),
    (if t = .mainTask ∨ t = .dispatcherTask ∨ t = .diskDriverTask then 0 else 1 : Int) = k := by
  have users : (Finset.univ.filter fun t : Tcb (Fin k) =>
      ¬ (t = .mainTask ∨ t = .dispatcherTask ∨ t = .diskDriverTask)) =
      Finset.univ.map ⟨Tcb.user, fun _ _ same => Tcb.user.inj same⟩ := by
    ext t
    cases t with
    | user i => simpa using ⟨i, rfl⟩
    | mainTask | dispatcherTask | diskDriverTask => simp
  have counted : ∀ t : Tcb (Fin k),
      (if t = .mainTask ∨ t = .dispatcherTask ∨ t = .diskDriverTask then 0 else 1 : Int) =
        if ¬ (t = .mainTask ∨ t = .dispatcherTask ∨ t = .diskDriverTask) then 1 else 0 := by
    intro t
    split
    · rfl
    · rfl
  rw [Finset.sum_congr rfl fun t _ => counted t, ← Finset.sum_filter, Finset.sum_const, users,
    Finset.card_map, Finset.card_univ, Fintype.card_fin, nsmul_one]

theorem counter_range (shape : Shape numSteps (account 0 s) v) (ledger : Ledger 0 0 s) :
    -(k : Int) ≤ value 0 s ∧ value 0 s ≤ 1 := by
  have shares : ∀ t : Tcb (Fin k),
      (s.history.incremented 0 t : Int) - s.history.returned 0 t - inside 0 (s.ctl t) ≤
        (if t = .mainTask then 1 else 0) ∧
      (s.history.returned 0 t : Int) + inside 0 (s.ctl t) - s.history.incremented 0 t ≤
        (if t = .mainTask ∨ t = .dispatcherTask ∨ t = .diskDriverTask then 0 else 1) := by
    intro t
    obtain ⟨most, least, nonneg, -⟩ := shape_counts shape t
    simp only [account] at most least nonneg
    constructor
    · split at most
      · rename_i own
        rw [if_pos own]
        omega
      · rename_i other
        rw [if_neg other]
        omega
    · omega
  have whole : value 0 s = ∑ t, ((s.history.incremented 0 t : Int) - s.history.returned 0 t -
      inside 0 (s.ctl t)) := by
    have grants := ledger.grants
    simp only [sum, total, tally] at grants
    rw [Finset.sum_sub_distrib, Finset.sum_sub_distrib]
    omega
  have opposite : -value 0 s = ∑ t, ((s.history.returned 0 t : Int) + inside 0 (s.ctl t) -
      s.history.incremented 0 t) := by
    rw [whole, ← Finset.sum_neg_distrib]
    exact Finset.sum_congr rfl fun t _ => by omega
  have high := Finset.sum_le_sum fun t (_ : t ∈ Finset.univ) => (shares t).1
  have low := Finset.sum_le_sum fun t (_ : t ∈ Finset.univ) => (shares t).2
  rw [← opposite, users_sum] at low
  rw [← whole, Finset.sum_ite_eq' Finset.univ, if_pos (Finset.mem_univ _)] at high
  omega

/-- Two tasks in their critical sections would be two returns with no more than one up of main
    behind them. -/
theorem critical_alone (shape : Shape numSteps (account 0 s) v) (ledger : Ledger 0 0 s)
    {t u : Tcb (Fin k)} (first : InCritical 0 s t) (second : InCritical 0 s u) : t = u := by
  by_contra ne
  have backed := returns_are_backed ledger.toBooks
  have share : ∀ a, 0 ≤ (s.history.returned 0 a : Int) - s.history.incremented 0 a +
      if a = .mainTask then 1 else 0 := by
    intro a
    have most := (shape_counts shape a).1
    simp only [account] at most
    split at most
    · rename_i own
      rw [if_pos own]
      omega
    · rename_i other
      rw [if_neg other]
      omega
  have ahead : ∀ a, InCritical 0 s a → 1 ≤ (s.history.returned 0 a : Int) -
      s.history.incremented 0 a + if a = .mainTask then 1 else 0 := by
    intro a critical
    have one := (shape_counts shape a).2.2.2 critical
    simp only [account] at one
    split <;> omega
  have pair := two_le_tally (w := fun a (_ : Ctl (Fin k)) => (s.history.returned 0 a : Int) -
    s.history.incremented 0 a + if a = .mainTask then 1 else 0) (c := s.ctl) share ne
  have firstAhead := ahead t first
  have secondAhead := ahead u second
  simp only [tally] at pair
  rw [Finset.sum_add_distrib, Finset.sum_sub_distrib, Finset.sum_ite_eq' Finset.univ,
    if_pos (Finset.mem_univ _)] at pair
  simp only [sum] at backed
  omega

theorem phase_of_ledger {p : MainPoint} (ledger : Ledger 0 0 s) (later : p ≠ .semInit) :
    Phase p s := by
  cases p with
  | semInit => exact absurd rfl later
  | verify | taskExit => trivial
  | taskInit | semUp | taskWait => exact ledger

theorem ledger_goes_on (few : (k : Int) ≤ intMax) (shape : Shape numSteps (account 0 s) v)
    (ledger : Ledger 0 0 s) {l : Label (Fin k)} (go : Operates s l s')
    (spares : SemaphorePreemption.Spares 0 l) : Ledger 0 0 s' := by
  refine ledger_step ledger ⟨go.1, go.2, spares, ?_⟩
  have range := counter_range shape ledger
  simp only [intMax] at few
  unfold CounterFits
  split
  · split
    · rintro rfl
      simp only [intMin]
      omega
    · rintro rfl
      simp only [intMax]
      omega
    · trivial
  · trivial

theorem untouched_stays (c : Conserved s) (shape : Shape numSteps (account 0 s) v)
    (start : v.main = .semInit) (untouched : Untouched s) {l : Label (Fin k)}
    (plain : ∀ c, l ≠ .call c) (go : Operates s l s') : Untouched s' := by
  have other : client s l ≠ .semaphore 0 := by
    cases l with
    | tick | completion => simp [client]
    | call c => exact absurd rfl (plain c)
    | run m₁ m₂ => simp [client, (shape_outside shape start s.curr).1]
  have framed := (step_kept c go.2 go.1).framed (.semaphore 0) (by simp) (Ne.symm other)
  have queue : waiters 0 s' = waiters 0 s := framed.lists (.semQueue (.user 0)) (by simp) rfl
  have data : SemaphoreData 0 s s' := framed.data
  refine ⟨?_, queue.trans untouched.noWaiters, data.emptyTests.trans untouched.emptyTests⟩
  rw [framed.sem (.user 0) rfl]
  exact untouched.lock

theorem phase_goes_on (few : (k : Int) ≤ intMax) (c : Conserved s)
    (shape : Shape numSteps (account 0 s) v) (phase : Phase v.main s) {l : Label (Fin k)}
    (plain : ∀ c, l ≠ .call c) (go : Operates s l s') : Phase v.main s' := by
  by_cases start : v.main = .semInit
  · rw [start] at phase ⊢
    exact untouched_stays c shape start phase plain go
  · have spares : SemaphorePreemption.Spares 0 l := by
      cases l with
      | call c => exact absurd rfl (plain c)
      | tick | completion | run => trivial
    cases here : v.main with
    | semInit => exact absurd here start
    | verify | taskExit => trivial
    | taskInit | semUp | taskWait =>
      rw [here] at phase
      exact ledger_goes_on few shape phase go spares

end Semaphore

section Steps
variable {k numSteps : Nat} {s s' : System (Fin k)} {v : Variables k}

structure Invariant (numSteps : Nat) (p : Process (Fin k) (Variables k)) : Prop where
  orderly : Orderly (begun k p.memory.main) p.system
  shape : Shape numSteps (account 0 p.system) p.memory
  phase : Phase p.memory.main p.system

theorem shape_advances {a : Tcb (Fin k) → Account (Fin k)} (shape : Shape numSteps a v)
    {t : Tcb (Fin k)} {b : Account (Fin k)} (step : Advances 0 (a t) b)
    (ended : ∀ u, (a t).ctl = .waitReturn u → (a u).ctl = .terminated) :
    Shape numSteps (Function.update a t b) v := by
  cases t with
  | mainTask =>
    obtain ⟨main, same | ⟨i, awaits, now, before⟩⟩ := main_advances shape.main step
    · refine shape_main shape main rfl ?_ shape.verdict
      rw [same]
      exact shape.waited
    · refine shape_main shape main rfl ?_ shape.verdict
      intro j early
      rw [now] at early
      by_cases last : j = i
      · rw [last]
        exact ended _ awaits
      · refine shape.waited j ?_
        rw [before]
        have apart : j.val ≠ i.val := fun both => last (Fin.ext both)
        omega
  | dispatcherTask =>
    obtain ⟨point, same⟩ := shape.dispatcher
    rw [same] at step
    cases step
  | diskDriverTask =>
    rw [shape.driver] at step
    cases step
  | user i =>
    obtain ⟨body, born, going⟩ := body_advances (shape.tasks i) step
    have next := shape_moves shape body born going rfl (shape.loaded i)
    simpa [Variables.at] using next

theorem kernel_step (few : (k : Int) < intMax) {p p' : Process (Fin k) (Variables k)}
    (inv : Invariant numSteps p) {l : Label (Fin k)} (plain : ∀ c, l ≠ .call c)
    (go : SystemModel.step p.system l = some (.ok p'.system)) (memory : p'.memory = p.memory) :
    Invariant numSteps p' := by
  have operates : Operates p.system l p'.system := by
    refine ⟨go, ?_⟩
    cases l with
    | call c => exact absurd rfl (plain c)
    | tick | completion | run => trivial
  have conserved := inv.orderly.waiting.sound.conserved
  have count : births l = 0 := by
    cases l with
    | call c => exact absurd rfl (plain c)
    | tick | completion | run => rfl
  have admits : Admits p.system l := by
    cases l with
    | call c => exact absurd rfl (plain c)
    | tick | completion | run => trivial
  have most := begun_le inv.shape.main
  have orderly := orderly_step inv.orderly operates admits (fun host stack => plain _)
    (by rw [count]; omega)
  rw [count, Nat.add_zero] at orderly
  have phase := phase_goes_on (le_of_lt few) conserved inv.shape inv.phase plain operates
  rw [← memory] at orderly phase
  refine ⟨orderly, ?_, phase⟩
  rw [memory]
  rcases kernel_shifts (n := 0) (shape_simple inv.shape _) plain go with shifts | rests
  · rw [shifts_update shifts]
    exact shape_advances inv.shape shifts.own fun u here => awaited_is_over inv.orderly here
  · refine shape_rests inv.shape rests.others ?_
    obtain ⟨point, here⟩ := dispatcher_point orderly.waiting.sound.conserved
    obtain ⟨before, same⟩ := inv.shape.dispatcher
    refine ⟨point, ?_⟩
    rw [rests.counts, same, here]

def held (r : Int) : TaskPoint → Account (Fin k)
  | .test i => ⟨.body r, i, i, i⟩
  | .load i | .store i _ | .up i => ⟨.body r, i + 1, i, i⟩

def WithinLoop (numSteps : Nat) : TaskPoint → Prop
  | .test i => i ≤ numSteps
  | .load i | .store i _ | .up i => i < numSteps

theorem body_held {p : TaskPoint} {b : Account (Fin k)} (body : InBody numSteps p b) {r : Int}
    (here : b.ctl = .body r) : b = held r p ∧ WithinLoop numSteps p := by
  cases body with
  | unborn | ended | waits | raises => cases here
  | test i code more | load i code more | store i value code more | up i code more =>
    cases here
    exact ⟨rfl, more⟩

theorem working_ledger (shape : Shape numSteps (account 0 s) v) (phase : Phase v.main s)
    {i : Fin k} {r : Int} (here : s.ctl (.user i) = .body r) :
    Ledger 0 0 s ∧ v.main ≠ .semInit := by
  have born : v.main ≠ .semInit := by
    intro start
    have unborn : s.ctl (.user i) = .unborn :=
      (shape.begun i).mpr (by rw [start]; exact Nat.zero_le _)
    rw [here] at unborn
    cases unborn
  refine ⟨?_, born⟩
  have late : waited k v.main (account 0 s .mainTask).ctl ≠ k := by
    intro all
    have ended : s.ctl (.user i) = .terminated := shape.waited i (by rw [all]; exact i.isLt)
    rw [here] at ended
    cases ended
  cases main : v.main with
  | semInit => exact absurd main born
  | verify | taskExit =>
    rw [main] at late
    exact absurd rfl late
  | taskInit | semUp | taskWait =>
    rw [main] at phase
    exact phase

theorem called (few : (k : Int) < intMax) {p p' : Process (Fin k) (Variables k)}
    (inv : Invariant numSteps p) {c : Call (Fin k)} {r : Int}
    (body : p.system.ctl p.system.curr = .body r)
    (go : SystemModel.call p.system c = .ok p'.system) (permitted : Permitted p.system (.call c))
    (admits : Admits p.system (.call c)) (manager : ∀ host stack, c ≠ .diskMgrInit host stack)
    (count : begun k p'.memory.main = begun k p.memory.main + births (.call c))
    (shape : Shape numSteps (account 0 p'.system) p'.memory)
    (phase : Phase p'.memory.main p'.system) : Invariant numSteps p' := by
  have most := begun_le shape.main
  have orderly := orderly_step inv.orderly ⟨call_steps body go, permitted⟩ admits
    (fun host stack same => manager host stack (Label.call.inj same)) (by omega)
  rw [← count] at orderly
  exact ⟨orderly, shape, phase⟩

theorem task_called (few : (k : Int) < intMax) {p p' : Process (Fin k) (Variables k)}
    (inv : Invariant numSteps p) {i : Fin k} {c : Call (Fin k)} {r : Int}
    (mine : p.system.curr = .user i) (body : p.system.ctl p.system.curr = .body r)
    (go : SystemModel.call p.system c = .ok p'.system)
    (kind : c = .semDown (some 0) ∨ c = .semUp (some 0) ∨ c = .taskExit 0)
    (same : p'.memory.main = p.memory.main)
    (shape : Shape numSteps (account 0 p'.system) p'.memory) : Invariant numSteps p' := by
  have here : p.system.ctl (.user i) = .body r := by rw [← mine, body]
  obtain ⟨ledger, later⟩ := working_ledger inv.shape inv.phase here
  have permitted : Permitted p.system (.call c) := by rcases kind with rfl | rfl | rfl <;> trivial
  have admits : Admits p.system (.call c) := by rcases kind with rfl | rfl | rfl <;> trivial
  have spares : SemaphorePreemption.Spares 0 (.call c : Label (Fin k)) := by
    rcases kind with rfl | rfl | rfl <;> trivial
  have count : births (.call c : Label (Fin k)) = 0 := by rcases kind with rfl | rfl | rfl <;> rfl
  have next := ledger_goes_on (le_of_lt few) inv.shape ledger ⟨call_steps body go, permitted⟩ spares
  refine called few inv body go permitted admits ?_ (by rw [same, count]; rfl) shape ?_
  · rcases kind with rfl | rfl | rfl <;> simp
  · rw [same]
    exact phase_of_ledger next later

theorem task_calls (few : (k : Int) < intMax) {p : Process (Fin k) (Variables k)}
    {s' : System (Fin k)} {v' : Variables k} (inv : Invariant numSteps p) {i : Fin k}
    {c : Call (Fin k)} {r : Int} (mine : p.system.curr = .user i)
    (body : p.system.ctl p.system.curr = .body r)
    (action : taskBody numSteps i p.memory = .call c v')
    (go : SystemModel.call p.system c = .ok s') : Invariant numSteps ⟨s', v'⟩ := by
  have here : p.system.ctl (.user i) = .body r := by rw [← mine, body]
  obtain ⟨account, room⟩ := body_held (inv.shape.tasks i) (r := r) here
  have active := (working_ledger inv.shape inv.phase here).1.active
  have born : (UserPrograms.account 0 p.system (.user i)).ctl ≠ .unborn := by
    simp [UserPrograms.account, here]
  have going : (UserPrograms.account 0 p.system (.user i)).ctl ≠ .terminated := by
    simp [UserPrograms.account, here]
  cases point : p.memory.task i with
  | test j =>
    simp only [taskBody, point] at action
    rw [point] at account room
    split at action
    · rename_i more
      cases action
      cases go
      refine task_called (c := .semDown (some 0)) few inv mine body rfl (by simp) rfl ?_
      dsimp only
      rw [account_down active, mine, account]
      exact shape_moves inv.shape (.waits j .enter more) ⟨born, by simp⟩ going (by rw [point]; rfl)
        (by simp)
    · rename_i last
      cases action
      have done : j = numSteps := le_antisymm room (not_lt.mp last)
      subst done
      refine task_called few inv mine body go (by simp) rfl ?_
      obtain ⟨m, -, rfl⟩ := map_ok go
      have moved : UserPrograms.account 0 ((p.system.withKernel m).goto p.system.curr .terminated) =
          Function.update (UserPrograms.account 0 p.system) p.system.curr
            { UserPrograms.account 0 p.system p.system.curr with ctl := .terminated } :=
        account_update rfl rfl
      dsimp only
      rw [moved, mine, account]
      have next := shape_moves inv.shape (p := .test j) .ended ⟨born, by simp⟩ going
        (by rw [point]) (by simp)
      have still : p.memory.at i (.test j) = p.memory := by simp [Variables.at, ← point]
      rw [still] at next
      exact next
  | up j =>
    simp only [taskBody, point] at action
    rw [point] at account room
    cases action
    cases go
    refine task_called (c := .semUp (some 0)) few inv mine body rfl (by simp) rfl ?_
    dsimp only
    rw [account_up active, mine, account]
    have started : p.system.history.started 0 (.user i) = j :=
      congrArg UserPrograms.Account.started account
    rw [started]
    exact shape_moves inv.shape (.raises j j .enter room rfl) ⟨born, by simp⟩ going
      (by rw [point]; rfl) (by simp)
  | load j | store j value =>
    simp only [taskBody, point] at action
    cases action

/-- The store adds to what soma is now: nobody else has come as far as its store. -/
theorem task_owns {p : Process (Fin k) (Variables k)} {v' : Variables k}
    (inv : Invariant numSteps p) {i : Fin k} {r : Int} (here : p.system.ctl (.user i) = .body r)
    (action : taskBody numSteps i p.memory = .own v') : Invariant numSteps ⟨p.system, v'⟩ := by
  obtain ⟨account, room⟩ := body_held (inv.shape.tasks i) (r := r) here
  have ledger := (working_ledger inv.shape inv.phase here).1
  have born : (UserPrograms.account 0 p.system (.user i)).ctl ≠ .unborn := by
    simp [UserPrograms.account, here]
  have going : (UserPrograms.account 0 p.system (.user i)).ctl ≠ .terminated := by
    simp [UserPrograms.account, here]
  cases point : p.memory.task i with
  | load j =>
    simp only [taskBody, point] at action
    rw [point] at account room
    cases action
    refine ⟨inv.orderly, ?_, inv.phase⟩
    have next := shape_moves inv.shape (b := held r (.load j)) (p := .store j p.memory.soma)
      (.store j _ r room) ⟨born, by simp [held]⟩ going (by rw [point]; rfl) (by simp)
    rwa [← account, Function.update_eq_self] at next
  | store j value =>
    simp only [taskBody, point] at action
    rw [point] at account room
    cases action
    refine ⟨inv.orderly, ?_, inv.phase⟩
    have alone : ∀ i', i' ≠ i → ∀ j value, p.memory.task i' ≠ .store j value := by
      intro i' other j' value' storing
      refine other ?_
      have critical : InCritical 0 p.system (.user i) :=
        storing_is_critical (inv.shape.tasks i) point
      have second : InCritical 0 p.system (.user i') :=
        storing_is_critical (inv.shape.tasks i') storing
      have same := critical_alone inv.shape ledger second critical
      exact Tcb.user.inj same
    have next := shape_task inv.shape (b := held r (.store j value)) (p := .up j) (c := 1)
      (.up j r room) ⟨born, by simp [held]⟩ going (by rw [point]; rfl) (by simp) (Or.inr alone)
    rw [← account, Function.update_eq_self, ← inv.shape.loaded i j value point] at next
    exact next
  | test j =>
    simp only [taskBody, point] at action
    split at action <;> cases action
  | up j =>
    simp only [taskBody, point] at action
    cases action

def mainHeld (r : Int) : MainPoint → Account (Fin k)
  | .semInit | .taskInit _ | .semUp => ⟨.body r, 0, 0, 0⟩
  | .taskWait _ | .verify | .taskExit => ⟨.body r, 0, 1, 1⟩

theorem main_held {p : MainPoint} {b : Account (Fin k)} (main : InMain k p b) {r : Int}
    (here : b.ctl = .body r) : b = mainHeld r p := by
  cases main with
  | raises | waits | ended => cases here
  | semInit | taskInit | semUp | taskWait | verify | taskExit =>
    cases here
    rfl

theorem main_wait_le {i : Nat} {b : Account (Fin k)} (main : InMain k (.taskWait i) b) : i ≤ k := by
  cases main with
  | raises => exact Nat.zero_le k
  | taskWait i code more => exact more
  | waits i => exact i.isLt

section Main
variable {p : Process (Fin k) (Variables k)} {s' : System (Fin k)} {r : Int}

theorem init_fresh (conserved : Conserved s) (shape : Shape numSteps (account 0 s) v)
    (start : v.main = .semInit) (untouched : Untouched s)
    (kept : Conserved ((s.withKernel (semInit s.kernel (some (.user 0)) 0).1).answer 0)) :
    Fresh 0 0 ((s.withKernel (semInit s.kernel (some (.user 0)) 0).1).answer 0) := by
  obtain ⟨-, lists, -, sem⟩ := semInit_kept conserved.placed untouched.noWaiters 0
  have outside := shape_outside shape start
  refine ⟨kept, ?_, le_refl 0, by decide, ?_, ?_, ?_, ?_, ?_, untouched.emptyTests⟩
  · rw [untouched.lock] at sem
    exact sem
  · exact (congrFun lists (.semQueue (.user 0))).trans untouched.noWaiters
  · intro t
    change ctlClient (Function.update s.ctl s.curr (.body 0) t) ≠ _
    rw [Function.update_apply]
    split
    · simp [ctlClient]
    · simp [(outside t).1]
  · exact fun t => congrArg Account.returned (outside t).2
  · exact fun t => congrArg Account.started (outside t).2
  · exact fun t => congrArg Account.incremented (outside t).2

theorem main_inits (few : (k : Int) < intMax) (inv : Invariant numSteps p)
    (mine : p.system.curr = .mainTask) (body : p.system.ctl p.system.curr = .body r)
    (point : p.memory.main = .semInit)
    (go : SystemModel.call p.system (.semInit (some 0) 0) = .ok s') :
    Invariant numSteps ⟨s', { p.memory with main := .taskInit 0 }⟩ := by
  have conserved := inv.orderly.waiting.sound.conserved
  have untouched : Untouched p.system := by
    have phase := inv.phase
    rwa [point] at phase
  have permitted : Permitted p.system (.call (.semInit (some 0) 0)) := untouched.noWaiters
  have ok := step_kept conserved permitted (call_steps body go)
  have same : s' = (p.system.withKernel (semInit p.system.kernel (some (.user 0)) 0).1).answer 0 :=
    (Except.ok.inj go).symm
  subst same
  have moved : account 0
      ((p.system.withKernel (semInit p.system.kernel (some (.user 0)) 0).1).answer 0) =
      Function.update (account 0 p.system) .mainTask
        { account 0 p.system .mainTask with ctl := .body 0 } :=
    account_update (by rw [← mine]; rfl) rfl
  refine called few inv body go permitted trivial (by simp) ?_ ?_ ?_
  · rw [point]
    rfl
  · dsimp only
    rw [moved, (shape_outside inv.shape point .mainTask).2]
    exact shape_main inv.shape (.taskInit 0 0 (Nat.zero_le k)) (by rw [point]; rfl)
      (fun i early => absurd early (Nat.not_lt_zero i))
      (Or.inl (silent inv.shape (by rw [point]; simp)))
  · exact fresh_ledger (init_fresh conserved inv.shape point untouched ok.conserved)

theorem main_called (few : (k : Int) < intMax) {v' : Variables k} (inv : Invariant numSteps p)
    {c : Call (Fin k)} (body : p.system.ctl p.system.curr = .body r)
    (go : SystemModel.call p.system c = .ok s') (ledger : Ledger 0 0 p.system)
    (permitted : Permitted p.system (.call c)) (admits : Admits p.system (.call c))
    (spares : SemaphorePreemption.Spares 0 (.call c : Label (Fin k)))
    (manager : ∀ host stack, c ≠ .diskMgrInit host stack) (later : v'.main ≠ .semInit)
    (count : begun k v'.main = begun k p.memory.main + births (.call c))
    (shape : Shape numSteps (account 0 s') v') : Invariant numSteps ⟨s', v'⟩ :=
  called few inv body go permitted admits manager count shape
    (phase_of_ledger (ledger_goes_on (le_of_lt few) inv.shape ledger
      ⟨call_steps body go, permitted⟩ spares) later)

theorem main_begins (few : (k : Int) < intMax) (inv : Invariant numSteps p)
    (mine : p.system.curr = .mainTask) (body : p.system.ctl p.system.curr = .body r) {i : Fin k}
    {stack : Bool} (point : p.memory.main = .taskInit i)
    (go : SystemModel.call p.system (.taskInit (.user i) stack) = .ok s') :
    Invariant numSteps ⟨s', { p.memory with main := .taskInit (i + 1) }⟩ := by
  have ledger : Ledger 0 0 p.system := by
    have phase := inv.phase
    rwa [point] at phase
  have unborn : p.system.ctl (.user i) = .unborn :=
    (inv.shape.begun i).mpr (by rw [point]; exact Nat.le_refl _)
  have nobody : ∀ w, p.system.ctl w ≠ .waitReturn (.user i) := by
    intro w waits
    obtain ⟨-, j, later⟩ := shape_waits inv.shape waits
    rw [point] at later
    cases later
  have held := main_held inv.shape.main (r := r) (by rw [← body, mine]; rfl)
  rw [point] at held
  refine main_called few inv body go ledger ⟨by rw [unborn]; rfl, by simp⟩ nobody trivial (by simp)
    (by simp) (by rw [point]; rfl) ?_
  obtain ⟨⟨m, id⟩, -, rfl⟩ := map_ok go
  have born : account 0 ((p.system.withKernel m).goto (.user i) (.body 0)) =
      Function.update (account 0 p.system) (.user i)
        { account 0 p.system (.user i) with ctl := .body 0 } := account_update rfl rfl
  have moved : account 0
      (((p.system.withKernel m).goto (.user i) (.body 0)).goto p.system.curr (.body id)) =
      Function.update (account 0 ((p.system.withKernel m).goto (.user i) (.body 0))) .mainTask
        { account 0 ((p.system.withKernel m).goto (.user i) (.body 0)) .mainTask with
          ctl := .body id } := account_update (by rw [← mine]; rfl) rfl
  have untouched := (unborn_point (inv.shape.tasks i) unborn).2
  dsimp only
  rw [moved, born, Function.update_of_ne (by simp), held, untouched]
  exact shape_init inv.shape point

theorem main_sleeps (few : (k : Int) < intMax) (inv : Invariant numSteps p)
    (mine : p.system.curr = .mainTask) (body : p.system.ctl p.system.curr = .body r) {i : Nat}
    (point : p.memory.main = .taskInit i) (last : ¬ i < k)
    (go : SystemModel.call p.system (.taskSleep 20) = .ok s') :
    Invariant numSteps ⟨s', { p.memory with main := .semUp }⟩ := by
  have ledger : Ledger 0 0 p.system := by
    have phase := inv.phase
    rwa [point] at phase
  have most := begun_le inv.shape.main
  have held := main_held inv.shape.main (r := r) (by rw [← body, mine]; rfl)
  rw [point] at most held
  have all : begun k .semUp = begun k p.memory.main := by
    rw [point]
    simp only [begun] at most ⊢
    omega
  refine main_called few inv body go ledger trivial trivial trivial (by simp) (by simp) all ?_
  obtain ⟨m, -, rfl⟩ := map_ok go
  have moved : account 0 ((p.system.withKernel m).goto p.system.curr (.body 0)) =
      Function.update (account 0 p.system) .mainTask
        { account 0 p.system .mainTask with ctl := .body 0 } :=
    account_update (by rw [← mine]; rfl) rfl
  dsimp only
  rw [moved, held]
  exact shape_main inv.shape (.semUp 0) all (fun i early => absurd early (Nat.not_lt_zero i))
    (Or.inl (silent inv.shape (by rw [point]; simp)))

theorem main_ups (few : (k : Int) < intMax) (inv : Invariant numSteps p)
    (mine : p.system.curr = .mainTask) (body : p.system.ctl p.system.curr = .body r)
    (point : p.memory.main = .semUp)
    (go : SystemModel.call p.system (.semUp (some 0)) = .ok s') :
    Invariant numSteps ⟨s', { p.memory with main := .taskWait 0 }⟩ := by
  have ledger : Ledger 0 0 p.system := by
    have phase := inv.phase
    rwa [point] at phase
  have held := main_held inv.shape.main (r := r) (by rw [← body, mine]; rfl)
  rw [point] at held
  refine main_called few inv body go ledger trivial trivial trivial (by simp) (by simp)
    (by rw [point]; rfl) ?_
  have same : s' = semUpCall p.system (some 0) := (Except.ok.inj go).symm
  have started : p.system.history.started 0 .mainTask = 0 := congrArg Account.started held
  subst same
  dsimp only
  rw [account_up ledger.active, mine, held, started]
  exact shape_main inv.shape (.raises 0 .enter rfl) (by rw [point]; rfl)
    (fun i early => absurd early (Nat.not_lt_zero i))
    (Or.inl (silent inv.shape (by rw [point]; simp)))

omit s' in
theorem wait_answers {m : Kernel (Fin k)} {t : Tcb (Fin k)} {code : Int}
    (answer : taskWait s.kernel (some t) = .ok (m, some code)) :
    (s.kernel.task t).status = .terminated := by
  simp only [taskWait] at answer
  split at answer
  · assumption
  · obtain ⟨_, -, same⟩ := map_ok answer
    cases same

theorem main_waits (few : (k : Int) < intMax) (inv : Invariant numSteps p)
    (mine : p.system.curr = .mainTask) (body : p.system.ctl p.system.curr = .body r) {i : Fin k}
    (point : p.memory.main = .taskWait i)
    (go : SystemModel.call p.system (.taskWait (some (.user i))) = .ok s') :
    Invariant numSteps ⟨s', { p.memory with main := .taskWait (i + 1) }⟩ := by
  have ledger : Ledger 0 0 p.system := by
    have phase := inv.phase
    rwa [point] at phase
  have born : p.system.ctl (.user i) ≠ .unborn := by
    intro unborn
    have later := (inv.shape.begun i).mp unborn
    rw [point] at later
    exact absurd i.isLt (not_lt.mpr later)
  have held := main_held inv.shape.main (r := r) (by rw [← body, mine]; rfl)
  rw [point] at held
  have before : ∀ j : Fin k, j.val < i.val → p.system.ctl (.user j) = .terminated := by
    intro j early
    refine inv.shape.waited j ?_
    rw [point, held]
    exact early
  refine main_called few inv body go ledger trivial born trivial (by simp) (by simp)
    (by rw [point]; rfl) ?_
  have unprinted := silent inv.shape (by rw [point]; simp)
  obtain ⟨⟨m, answer⟩, waited, same⟩ := map_ok go
  cases answer with
  | none =>
    subst same
    have moved : account 0 ((p.system.withKernel m).goto p.system.curr (.waitReturn (.user i))) =
        Function.update (account 0 p.system) .mainTask
          { account 0 p.system .mainTask with ctl := .waitReturn (.user i) } :=
      account_update (by rw [← mine]; rfl) rfl
    dsimp only
    rw [moved, held]
    exact shape_main inv.shape (.waits i) (by rw [point]; rfl) before (Or.inl unprinted)
  | some code =>
    subst same
    have ended : p.system.ctl (.user i) = .terminated :=
      ended_iff.mp ((inv.orderly.waiting.sound.marked (.user i)).mp (wait_answers waited))
    have moved : account 0 ((p.system.withKernel m).goto p.system.curr (.body code)) =
        Function.update (account 0 p.system) .mainTask
          { account 0 p.system .mainTask with ctl := .body code } :=
      account_update (by rw [← mine]; rfl) rfl
    dsimp only
    change Shape numSteps (account 0 ((p.system.withKernel m).goto p.system.curr (.body code))) _
    rw [moved, held]
    refine shape_main inv.shape (.taskWait (i + 1) code i.isLt) (by rw [point]; rfl) ?_
      (Or.inl unprinted)
    intro j early
    by_cases last : j = i
    · rw [last]
      exact ended
    · refine before j ?_
      have apart : j.val ≠ i.val := fun both => last (Fin.ext both)
      change j.val < i.val + 1 at early
      omega

theorem main_destroys (few : (k : Int) < intMax) (inv : Invariant numSteps p)
    (mine : p.system.curr = .mainTask) (body : p.system.ctl p.system.curr = .body r) {i : Nat}
    (point : p.memory.main = .taskWait i) (last : ¬ i < k)
    (go : SystemModel.call p.system (.semDestroy (some 0)) = .ok s') :
    Invariant numSteps ⟨s', { p.memory with main := .verify }⟩ := by
  have held := main_held inv.shape.main (r := r) (by rw [← body, mine]; rfl)
  have most : i ≤ k := by
    have main := inv.shape.main
    rw [point] at main
    exact main_wait_le main
  have all : i = k := le_antisymm most (not_lt.mp last)
  subst all
  rw [point] at held
  refine called few inv body go trivial trivial (by simp) (by rw [point]; rfl) ?_ trivial
  obtain ⟨⟨m, code⟩, destroyed, rfl⟩ := map_ok go
  have curr : m.curr = p.system.kernel.curr := (destroy_act destroyed).2
  have moved : account 0 ((p.system.withKernel m).answer code) =
      Function.update (account 0 p.system) .mainTask
        { account 0 p.system .mainTask with ctl := .body code } := by
    refine account_update ?_ rfl
    change Function.update p.system.ctl m.curr _ = _
    rw [curr, ← mine]
    rfl
  dsimp only
  rw [moved, held]
  refine shape_main inv.shape (.verify code) (by rw [point]; rfl) ?_
    (Or.inl (silent inv.shape (by rw [point]; simp)))
  intro j early
  refine inv.shape.waited j ?_
  rw [point, held]
  exact early

theorem main_leaves (few : (k : Int) < intMax) (inv : Invariant numSteps p)
    (mine : p.system.curr = .mainTask) (body : p.system.ctl p.system.curr = .body r)
    (point : p.memory.main = .taskExit)
    (go : SystemModel.call p.system (.taskExit 0) = .ok s') :
    Invariant numSteps ⟨s', p.memory⟩ := by
  have held := main_held inv.shape.main (r := r) (by rw [← body, mine]; rfl)
  rw [point] at held
  refine called few inv body go trivial trivial (by simp) (by rfl) ?_ (by rw [point]; trivial)
  obtain ⟨m, -, rfl⟩ := map_ok go
  have moved : account 0 ((p.system.withKernel m).goto p.system.curr .terminated) =
      Function.update (account 0 p.system) .mainTask
        { account 0 p.system .mainTask with ctl := .terminated } :=
    account_update (by rw [← mine]; rfl) rfl
  dsimp only
  rw [moved, held]
  have main : InMain k p.memory.main ⟨.terminated, 0, 1, 1⟩ := by
    rw [point]
    exact .ended
  refine shape_main inv.shape main rfl ?_ inv.shape.verdict
  intro j _
  refine inv.shape.waited j ?_
  rw [point]
  exact j.isLt

theorem sum_complete {a : Tcb (Fin k) → Account (Fin k)} (shape : Shape numSteps a v)
    (ended : ∀ i : Fin k, (a (.user i)).ctl = .terminated) :
    v.soma = BitVec.ofNat 64 (k * numSteps) := by
  have each : ∀ i ∈ Finset.univ, added (v.task i) = numSteps := by
    intro i _
    rw [over_point (shape.tasks i) (ended i)]
    rfl
  rw [shape.sum, Finset.sum_const_nat each, Finset.card_univ, Fintype.card_fin]

theorem main_verifies (fits : (k * numSteps : Int) ≤ intMax) (inv : Invariant numSteps p)
    (mine : p.system.curr = .mainTask) (body : p.system.ctl p.system.curr = .body r)
    (point : p.memory.main = .verify) :
    Invariant numSteps ⟨p.system, { p.memory with
      correct := some (decide (p.memory.soma = BitVec.ofInt 64 (toInt (k * numSteps))))
      main := .taskExit }⟩ := by
  have held := main_held inv.shape.main (r := r) (by rw [← body, mine]; rfl)
  rw [point] at held
  have ended : ∀ i : Fin k, (account 0 p.system (.user i)).ctl = .terminated := by
    intro i
    refine inv.shape.waited i ?_
    rw [point]
    exact i.isLt
  have right : p.memory.soma = BitVec.ofInt 64 (toInt (k * numSteps)) := by
    have nonneg : (0 : Int) ≤ k * numSteps := Int.mul_nonneg (by simp) (by simp)
    rw [toInt_eq_self (le_trans (by decide) nonneg) fits, sum_complete inv.shape ended,
      ← Nat.cast_mul, BitVec.ofInt_natCast]
  refine ⟨?_, ?_, trivial⟩
  · have orderly := inv.orderly
    rw [point] at orderly
    exact orderly
  · have next := shape_main inv.shape (.taskExit r) (by rw [point]; rfl) (fun i _ => ended i)
      (Or.inr ⟨congrArg some (decide_eq_true right), rfl⟩)
    have same : (⟨.body r, 0, 1, 1⟩ : Account (Fin k)) = account 0 p.system .mainTask := held.symm
    rw [same, Function.update_eq_self] at next
    exact next

end Main

theorem invariant_step (few : (k : Int) < intMax) (fits : (k * numSteps : Int) ≤ intMax)
    {p p' : Process (Fin k) (Variables k)} {l : Move} (inv : Invariant numSteps p)
    (go : Executes (racecond k numSteps) p l p') : Invariant numSteps p' := by
  obtain ⟨s', v'⟩ := p'
  rcases executes_cases go with ⟨l, plain, go, memory⟩ | ⟨c, stack, r, body, action, go⟩ |
    ⟨stack, r, body, action, system⟩
  · exact kernel_step few inv plain go memory
  · cases mine : p.system.curr with
    | mainTask =>
      rw [mine] at action
      have action := Option.some.inj action
      cases point : p.memory.main with
      | semInit =>
        simp only [main, point] at action
        cases action
        exact main_inits few inv mine body point go
      | taskInit i =>
        simp only [main, point] at action
        split at action
        · rename_i more
          cases action
          exact main_begins few inv mine body (i := ⟨i, more⟩) point go
        · rename_i last
          cases action
          exact main_sleeps few inv mine body point last go
      | semUp =>
        simp only [main, point] at action
        cases action
        exact main_ups few inv mine body point go
      | taskWait i =>
        simp only [main, point] at action
        split at action
        · rename_i more
          cases action
          exact main_waits few inv mine body (i := ⟨i, more⟩) point go
        · rename_i last
          cases action
          exact main_destroys few inv mine body point last go
      | verify =>
        simp only [main, point] at action
        cases action
      | taskExit =>
        simp only [main, point] at action
        cases action
        exact main_leaves few inv mine body point go
    | user i =>
      rw [mine] at action
      exact task_calls few inv mine body (Option.some.inj action) go
    | dispatcherTask | diskDriverTask =>
      rw [mine] at action
      cases action
  · cases system
    cases mine : p.system.curr with
    | mainTask =>
      rw [mine] at action
      have action := Option.some.inj action
      cases point : p.memory.main with
      | verify =>
        simp only [main, point] at action
        cases action
        exact main_verifies fits inv mine body point
      | taskInit | taskWait =>
        simp only [main, point] at action
        split at action <;> cases action
      | semInit | semUp | taskExit =>
        simp only [main, point] at action
        cases action
    | user i =>
      rw [mine] at action body
      exact task_owns inv body (Option.some.inj action)
    | dispatcherTask | diskDriverTask =>
      rw [mine] at action
      cases action

theorem started_invariant {p : Process (Fin k) (Variables k)} (started : Started p) :
    Invariant numSteps p := by
  have boot := started.booted
  have memory := started.memory
  obtain ⟨s, v⟩ := p
  cases memory
  have lists : tasks s.kernel = bootLists := (boot_lists boot).1.elems_eq
  refine ⟨boot_orderly boot, ⟨?_, ?_, ?_, ?_, ?_, ?_, ?_, ?_, ?_⟩, started.lock, ?_,
    started.emptyTests⟩
  · rw [started.unused, boot.main]
    exact .semInit 0
  · intro i
    rw [started.unused, boot.user]
    exact .unborn
  · intro i
    exact ⟨fun _ => Nat.zero_le _, fun _ => boot.user i⟩
  · intro i early
    exact absurd early (Nat.not_lt_zero _)
  · refine ⟨.top, ?_⟩
    rw [started.unused, boot.dispatcher]
  · rw [started.unused, boot.driver]
  · simp [added]
  · intro i j value here
    cases here
  · exact Or.inl rfl
  · change tasks s.kernel _ = _
    rw [lists]
    rfl

def Inside (p : Process (Fin k) (Variables k)) (i : Fin k) : Prop :=
  match p.memory.task i with
  | .test _ => False
  | .load _ => ∃ r, p.system.ctl (.user i) = .body r
  | .store _ _ | .up _ => True

theorem inside_held {p : Process (Fin k) (Variables k)} (inv : Invariant numSteps p) {i : Fin k}
    (inside : Inside p i) : (∃ r, p.system.ctl (.user i) = .body r) ∧
      InCritical 0 p.system (.user i) := by
  suffices both : (∃ r, (account 0 p.system (.user i)).ctl = .body r) ∧
      (account 0 p.system (.user i)).started < (account 0 p.system (.user i)).returned from both
  have body := inv.shape.tasks i
  simp only [Inside] at inside
  change (match p.memory.task i with
    | .test _ => False
    | .load _ => ∃ r, (account 0 p.system (.user i)).ctl = .body r
    | .store _ _ | .up _ => True) at inside
  generalize account 0 p.system (.user i) = b at body inside ⊢
  generalize p.memory.task i = point at body inside
  cases body with
  | unborn | test | ended | raises => exact inside.elim
  | waits =>
    obtain ⟨r, here⟩ := inside
    cases here
  | load i code | store i value code | up i code => exact ⟨⟨code, rfl⟩, Nat.lt_succ_self i⟩

/-- Whatever the timer does: no two tasks are inside their critical sections at once, no addition
    is lost, and main prints at most that the sum is right, when every task is over. -/
theorem sum_is_right {k numSteps : Nat} (few : (k : Int) < intMax)
    (fits : (k * numSteps : Int) ≤ intMax) {p p' : Process (Fin k) (Variables k)}
    {labels : List Move} (started : Started p)
    (run : Run (Executes (racecond k numSteps)) p labels p') :
    (∀ i j, Inside p' i → Inside p' j → i = j) ∧
    p'.memory.soma = BitVec.ofNat 64 (∑ i, added (p'.memory.task i)) ∧
    (p'.memory.correct = none ∨ p'.memory.correct = some true ∧
      p'.memory.soma = BitVec.ofNat 64 (k * numSteps) ∧
      ∀ i, p'.system.ctl (.user i) = .terminated) := by
  have inv : Invariant numSteps p' :=
    run_invariant (Invariant numSteps) (fun _ _ _ inv go => invariant_step few fits inv go) run
      (started_invariant started)
  refine ⟨?_, inv.shape.sum, ?_⟩
  · intro i j first second
    obtain ⟨⟨r, here⟩, one⟩ := inside_held inv first
    obtain ⟨-, two⟩ := inside_held inv second
    have ledger := (working_ledger inv.shape inv.phase here).1
    have same := critical_alone inv.shape ledger one two
    exact Tcb.user.inj same
  · rcases inv.shape.verdict with nothing | ⟨printed, last⟩
    · exact Or.inl nothing
    · have ended : ∀ i : Fin k, p'.system.ctl (.user i) = .terminated := by
        intro i
        refine inv.shape.waited i ?_
        rw [last]
        exact i.isLt
      exact Or.inr ⟨printed, sum_complete inv.shape ended, ended⟩

def booted (k : Nat) : Process (Fin k) (Variables k) := ⟨bootSystem, zeroed k⟩

theorem booted_starts (k : Nat) : Started (booted k) :=
  ⟨boot_booted, rfl, rfl, fun t => by cases t <;> rfl, rfl⟩

/-- Two tasks, two rounds each, with the length of each stretch. Both tasks block on the semaphore
    before main wakes up and releases the first, which loses the processor between its load and
    its store; then they take turns, while main waits for the one and for the other. -/
def twoRounds : List (Nat × Move) :=
  [(4, .go true), (4, .run true true), (1, .go true), (9, .run true true), (1, .go true),
    (4, .run true true), (24, .tick), (5, .run true true), (1, .go true), (5, .run true true),
    (1, .go true), (6, .run true true), (1, .go true), (10, .tick), (5, .run true true),
    (2, .go true), (5, .run true true), (1, .go true), (10, .run true true), (3, .go true),
    (5, .run true true), (1, .go true), (10, .run true true), (3, .go true), (5, .run true true),
    (1, .go true), (6, .run true true), (3, .go true), (4, .run true true), (1, .go true),
    (6, .run true true), (3, .go true)]

theorem two_rounds_are_summed : ∃ p', Run (Executes (racecond 2 2)) (booted 2)
      (twoRounds.flatMap fun turn => List.replicate turn.1 turn.2) p' ∧
    p'.memory.correct = some true ∧ p'.memory.soma = BitVec.ofNat 64 4 ∧
    ∀ i, p'.system.ctl (.user i) = .terminated := by
  obtain ⟨p', found, printed⟩ := exec_reaches (follow (racecond 2 2)) (booted 2)
    (twoRounds.flatMap fun turn => List.replicate turn.1 turn.2)
    (fun p' => p'.memory.correct = some true) (by decide +kernel)
  have run := exec_executes found
  have few : ((2 : Nat) : Int) < intMax := by decide
  have fits : ((2 : Nat) * (2 : Nat) : Int) ≤ intMax := by decide
  obtain ⟨-, -, nothing | ⟨-, sum, ended⟩⟩ :=
    sum_is_right few fits (booted_starts 2) run
  · rw [printed] at nothing
    cases nothing
  · exact ⟨p', run, printed, sum, ended⟩

end Steps

end SharedCounter
