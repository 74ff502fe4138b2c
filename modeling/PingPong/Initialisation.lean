import PingPong.KernelActs

/-!
What sem_init and mqueue_init leave of the memory they are given. They set every field that is
read later but the lock of a semaphore.
-/
namespace Initialisation
open MachineModel CircularList QueueModel KernelModel KernelEffects TaskPlacement SystemModel
open SystemFrames TransitionRuns TaskConservation KernelActs KernelViews
variable {N : Type} [DecidableEq N]

section Storage

/-- The memory of a semaphore_t. -/
structure SemStorage (N : Type) where
  value : Int
  queue : Option (Tcb N)
  lock : Int
  active : Int

structure QueueStorage (N : Type) where
  mqueue : Mqueue
  sBuffer : SemStorage N
  sItem : SemStorage N
  sVaga : SemStorage N

def QueueStorage.Unlocked (x : QueueStorage N) : Prop :=
  x.sBuffer.lock = 0 ∧ x.sItem.lock = 0 ∧ x.sVaga.lock = 0

def putSem (k : Kernel N) (a : SemAddr) (x : SemStorage N) : Kernel N :=
  { k with
    sem := Function.update k.sem a ⟨x.value, x.lock, x.active⟩
    queues := ⟨Function.update k.queues.head (.semQueue a) x.queue, k.queues.link⟩ }

def withSem (s : System N) (a : SemAddr) (x : SemStorage N) : System N :=
  s.withKernel (putSem s.kernel a x)

def withQueue (s : System N) (q : Nat) (x : QueueStorage N) : System N :=
  withSem (withSem (withSem (s.setMqueue q fun _ => x.mqueue) (.sBuffer q) x.sBuffer)
    (.sItem q) x.sItem) (.sVaga q) x.sVaga

/-- The task has passed enter_cs and not reached leave_cs. The semaphores of a message queue are
    locked and unlocked within one step. -/
def Holds (a : SemAddr) : Ctl N → Prop
  | .semDown n .update | .semDown n (.leave _) | .semUp n .update | .semUp n (.leave _) =>
    a = .user n
  | _ => False

variable [Fintype N]

/-- What the tasks can see: where each of them stands, with the value its call has returned, the
    tasks of each queue, who runs, and the messages. -/
structure View (N : Type) where
  ctl : Tcb N → Ctl N
  lists : TaskQueue → List (Tcb N)
  status : Tcb N → TaskState
  curr : Tcb N
  mqueue : Nat → Mqueue
  ram : Nat → UInt8

def view (s : System N) : View N :=
  ⟨s.ctl, tasks s.kernel, fun t => (s.kernel.task t).status, s.curr, s.mqueue, s.ram⟩

def follow (s : System N) : List (Label N) → Option (Except Halt (System N))
  | [] => some (.ok s)
  | l :: labels => match step s l with
    | some (.ok s') => follow s' labels
    | stopped => stopped

/-- The same operations give the same results. -/
def Alike (b b' : System N) : Prop :=
  ∀ labels, (follow b labels).map (·.map view) = (follow b' labels).map (·.map view)

/-- enter_cs ends whenever no task holds the lock. -/
def Ends (c : Client) (b : System N) : Prop :=
  ∀ labels s, Run Operates b labels s → ∀ a, semClient a = c →
    (∀ t, ¬ Holds a (s.ctl t)) → ∃ k, enterCs s.kernel a = .ok k

/-- No task is in a call about it, and none waits in its queues. -/
structure Unused (s : System N) (c : Client) : Prop where
  outside : ∀ t, ctlClient (s.ctl t) ≠ c
  empty : ∀ a, semClient a = c → tasks s.kernel (.semQueue a) = []

def Held (c : Client) (s : System N) : Prop :=
  ∀ a, semClient a = c → (s.kernel.sem a).lock ≠ 0 → ∃ t, Holds a (s.ctl t)

end Storage

section Locks
variable {k k' : Kernel N}

def Releases (k k' : Kernel N) : Prop :=
  ∀ a, (k'.sem a).lock = (k.sem a).lock ∨ (k'.sem a).lock = 0

omit [DecidableEq N] in
theorem releases_sem (same : k'.sem = k.sem) : Releases k k' := by
  intro a
  rw [same]
  exact Or.inl rfl

omit [DecidableEq N] in
theorem releases_trans {j : Kernel N} (first : Releases k j) (second : Releases j k') :
    Releases k k' := by
  intro a
  rcases second a with same | zero
  · rw [same]
    exact first a
  · exact Or.inr zero

omit [DecidableEq N] in
theorem releases_set (k : Kernel N) (a : SemAddr) {f : Semaphore → Semaphore}
    (keeps : ∀ x, (f x).lock = x.lock ∨ (f x).lock = 0) : Releases k (k.setSem a f) := by
  intro b
  by_cases same : b = a
  · subst same
    simp only [Kernel.setSem, Function.update_self]
    exact keeps (k.sem b)
  · simp [Kernel.setSem, same]

omit [DecidableEq N] in
theorem semInit_releases (k : Kernel N) (a : Option SemAddr) (value : Int) :
    Releases k (semInit k a value).1 := by
  cases a with
  | none => exact releases_sem rfl
  | some a =>
    have first := releases_set k a (f := fun x => { x with value := value }) fun _ => Or.inl rfl
    refine releases_trans first ?_
    exact releases_set _ a (f := fun x => { x with active := 1 }) fun _ => Or.inl rfl

variable [Fintype N]

omit [DecidableEq N] [Fintype N] in
theorem recount_releases (k : Kernel N) (a : SemAddr) (v : Int) : Releases k (recount k a v) :=
  releases_set k a fun _ => Or.inr rfl

theorem semDown_releases {a : SemAddr} {r : Option Int}
    (run : semDown k (some a) = .ok (k', r)) : Releases k k' := by
  rcases semDown_effect run with rfl | ⟨v, rfl | suspended⟩
  · exact releases_sem rfl
  · exact recount_releases k a v
  · exact releases_trans (recount_releases k a v) (releases_sem (suspend_sem suspended))

theorem semUp_releases {a : SemAddr} {r : Int} (run : semUp k (some a) = .ok (k', r)) :
    Releases k k' := by
  rcases semUp_effect run with rfl | ⟨v, rfl | ⟨-, resumed⟩⟩
  · exact releases_sem rfl
  · exact recount_releases k a v
  · exact releases_trans (recount_releases k a v)
      (releases_sem (resume_blind blind_sem resumed))

theorem semDestroy_releases {a : Option SemAddr} {r : Int}
    (run : semDestroy k a = .ok (k', r)) : Releases k k' := by
  cases a with
  | none =>
    cases run
    exact releases_sem rfl
  | some a =>
    rcases semDestroy_effect run with rfl | drained
    · exact releases_sem rfl
    · have closed := releases_set k a (f := fun x => { x with active := 0 }) fun _ => Or.inl rfl
      exact releases_trans closed (releases_sem (drain_blind blind_sem drained))

theorem semCall_releases (call : SemCall k k') : Releases k k' := by
  cases call with
  | none => exact releases_sem rfl
  | down run => exact semDown_releases run
  | up run => exact semUp_releases run
  | destroy run => exact semDestroy_releases run

end Locks

section Steps
variable {s s' : System N} {n : Nat} {c : Client}

omit [DecidableEq N] in
theorem holds_client {a : SemAddr} {old : Ctl N} (holds : Holds a old) :
    ctlClient old = semClient a := by
  unfold Holds at holds
  split at holds
  · rw [holds]
    rfl
  · rw [holds]
    rfl
  · rw [holds]
    rfl
  · rw [holds]
    rfl
  · cases holds

theorem user_only {a : SemAddr} (mine : semClient a = .semaphore n) : a = .user n := by
  cases a with
  | user m =>
    cases mine
    rfl
  | sBuffer q | sItem q | sVaga q => cases mine
  | semDisk => cases mine

theorem held_release (held : Held c s) (releases : Releases s.kernel s'.kernel)
    (ctl : ∃ new, s'.ctl = Function.update s.ctl s.curr new)
    (free : ∀ a, ¬ Holds a (s.ctl s.curr)) : Held c s' := by
  obtain ⟨new, ctl⟩ := ctl
  intro a mine locked
  rcases releases a with same | zero
  · rw [same] at locked
    obtain ⟨t, holds⟩ := held a mine locked
    have other : t ≠ s.curr := by
      rintro rfl
      exact free a holds
    exact ⟨t, by rw [ctl, Function.update_of_ne other]; exact holds⟩
  · exact absurd zero locked

theorem held_holder (new : Ctl N) (ctl : s'.ctl = Function.update s.ctl s.curr new)
    (holds : Holds (.user n) new) : Held (.semaphore n) s' := by
  intro a mine _
  rw [user_only mine]
  refine ⟨s.curr, ?_⟩
  rw [ctl, Function.update_self]
  exact holds

omit [DecidableEq N] in
theorem held_free (free : (s'.kernel.sem (.user n)).lock = 0) : Held (.semaphore n) s' := by
  intro a mine locked
  rw [user_only mine] at locked
  exact absurd free locked

variable [Fintype N]

theorem held_framed (held : Held c s) (framed : Framed c s s') : Held c s' := by
  intro a mine locked
  rw [framed.sem a mine] at locked
  obtain ⟨t, holds⟩ := held a mine locked
  rcases framed.ctl t with same | ⟨other, -⟩
  · exact ⟨t, by rw [same]; exact holds⟩
  · exact absurd ((holds_client holds).trans mine) other

theorem semDownStep_held (held : Held (.semaphore n) s) {point : DownPoint}
    (here : s.ctl s.curr = .semDown n point) (run : semDownStep s n point = .ok s') :
    Held (.semaphore n) s' := by
  cases point with
  | enter =>
    simp only [semDownStep] at run
    split at run
    · cases run
      exact held
    · cases run
      exact held_holder (.semDown n .update) rfl rfl
  | update =>
    cases run
    exact held_holder (.semDown n (.leave _)) rfl rfl
  | leave v =>
    have free : ((leaveCs s.kernel (.user n)).sem (.user n)).lock = 0 := by
      simp [leaveCs, Kernel.setSem]
    cases run
    refine held_free ?_
    split
    · exact free
    · exact free
  | suspend =>
    obtain ⟨k, suspended, rfl⟩ := map_ok run
    refine held_release held (releases_sem (suspend_sem suspended)) ⟨_, rfl⟩ fun a holds => ?_
    rw [here] at holds
    cases holds
  | woken =>
    cases run
    refine held_release held (releases_sem rfl) ⟨.body 0, rfl⟩ fun a holds => ?_
    rw [here] at holds
    cases holds

theorem semUpStep_held (held : Held (.semaphore n) s) {point : UpPoint}
    (here : s.ctl s.curr = .semUp n point) (run : semUpStep s n point = .ok s') :
    Held (.semaphore n) s' := by
  cases point with
  | enter =>
    simp only [semUpStep] at run
    split at run
    · cases run
      exact held
    · cases run
      exact held_holder (.semUp n .update) rfl rfl
  | update =>
    cases run
    exact held_holder (.semUp n (.leave _)) rfl rfl
  | leave v =>
    cases run
    refine held_free ?_
    simp [leaveCs, Kernel.setSem]
  | test v =>
    have free : ∀ a, ¬ Holds a (s.ctl s.curr) := by
      intro a holds
      rw [here] at holds
      cases holds
    simp only [semUpStep] at run
    split at run
    · split at run
      · cases run
        exact held_release held (releases_sem rfl) ⟨_, rfl⟩ free
      · cases run
        exact held_release held (releases_sem rfl) ⟨.body 0, rfl⟩ free
    · cases run
      exact held_release held (releases_sem rfl) ⟨.body 0, rfl⟩ free
  | resume =>
    obtain ⟨k, resumed, rfl⟩ := map_ok run
    have curr := resume_blind blind_curr resumed
    refine held_release held (releases_sem (resume_blind blind_sem resumed)) ⟨.body 0, ?_⟩
      fun a holds => ?_
    · change Function.update s.ctl k.curr _ = _
      rw [curr]
      rfl
    · rw [here] at holds
      cases holds

omit [DecidableEq N] [Fintype N] in
theorem fields_releases (kernel : s'.kernel = s.kernel) : Releases s.kernel s'.kernel := by
  rw [kernel]
  exact releases_sem rfl

theorem call_releases {call' : Call N} (mine : (∃ n, callClient call' = .semaphore n) ∨
    ∃ q, callClient call' = .queue q) (run : call s call' = .ok s') :
    Releases s.kernel s'.kernel := by
  cases call' with
  | semInit a value =>
    cases run
    exact semInit_releases s.kernel (a.map .user) value
  | semDown a =>
    cases run
    exact fields_releases (semDownCall_kernel s a)
  | semUp a =>
    cases run
    exact fields_releases (semUpCall_kernel s a)
  | semDestroy a =>
    obtain ⟨⟨k, r⟩, destroyed, rfl⟩ := map_ok run
    exact semDestroy_releases destroyed
  | mqueueInit a max size =>
    cases run
    unfold mqueueInit
    split
    · exact fields_releases rfl
    · rename_i p
      have first := semInit_releases s.kernel (some (.sBuffer p)) 1
      have second := semInit_releases (semInit s.kernel (some (.sBuffer p)) 1).1
        (some (.sItem p)) 0
      exact releases_trans (releases_trans first second)
        (semInit_releases _ (some (.sVaga p)) max)
  | mqueueSend a msg =>
    cases run
    exact fields_releases (mqueueSendCall_kernel s a msg)
  | mqueueRecv a msg =>
    cases run
    exact fields_releases (mqueueRecvCall_kernel s a msg)
  | mqueueDestroy a =>
    cases run
    split
    · exact fields_releases rfl
    · exact fields_releases rfl
  | taskInit | taskYield | taskSwitch | taskSleep | taskWait | taskExit | taskSetprio
  | taskGetprio | mqueueMsgs | diskMgrInit | diskBlockRead | diskBlockWrite | store =>
    rcases mine with ⟨n, mine⟩ | ⟨q, mine⟩
    · cases mine
    · cases mine

theorem call_held (conserved : Conserved s) (held : Held c s) {call' : Call N} {r : Int}
    (body : s.ctl s.curr = .body r) (permitted : Permitted s (.call call'))
    (mine : callClient call' = c) (kind : (∃ n, c = .semaphore n) ∨ ∃ q, c = .queue q)
    (run : call s call' = .ok s') : Held c s' := by
  have releases : Releases s.kernel s'.kernel := call_releases (mine ▸ kind) run
  have foreign : callClient call' ≠ .birth ∧ callClient call' ≠ .disk ∧
      callClient call' ≠ .plain := by
    rw [mine]
    rcases kind with ⟨n, rfl⟩ | ⟨q, rfl⟩
    · simp
    · simp
  have acts : Acts s s' := by
    refine call_acts conserved.placed permitted ?_ ?_ ?_ ?_ ?_ run
    · rintro t stack rfl
      exact foreign.1 rfl
    · rintro host stack rfl
      exact foreign.2.1 rfl
    · rintro code rfl
      exact foreign.2.2 rfl
    · rintro rfl
      exact foreign.2.2 rfl
    · rintro t rfl
      exact foreign.2.2 rfl
  obtain ⟨new, -, ctl⟩ := acts.ctl
  refine held_release held releases ⟨new, ctl⟩ fun a holds => ?_
  rw [body] at holds
  cases holds

theorem advance_held (conserved : Conserved s) (held : Held c s) {m₁ m₂ : Bool}
    (mine : ctlClient (s.ctl s.curr) = c) (kind : (∃ n, c = .semaphore n) ∨ ∃ q, c = .queue q)
    (run : advance s m₁ m₂ = some (.ok s')) : Held c s' := by
  have alive : live (s.ctl s.curr) = true := current_live conserved.placed
  have foreign : ctlClient (s.ctl s.curr) ≠ .disk ∧ ctlClient (s.ctl s.curr) ≠ .plain := by
    rw [mine]
    rcases kind with ⟨n, rfl⟩ | ⟨q, rfl⟩
    · simp
    · simp
  have acts : Acts s s' := by
    refine advance_acts alive (fun point here => ?_) (fun block buffer op here => ?_) run
    · rw [here] at foreign
      exact foreign.2 rfl
    · rw [here] at foreign
      exact foreign.1 rfl
  obtain ⟨new, -, ctl⟩ := acts.ctl
  simp only [advance] at run
  cases here : s.ctl s.curr <;> rw [here] at run mine foreign
  case semDown p point =>
    subst mine
    exact semDownStep_held held here (Option.some.inj run)
  case semUp p point =>
    subst mine
    exact semUpStep_held held here (Option.some.inj run)
  case send p a point =>
    refine held_release held (semCall_releases (send_semCall (Option.some.inj run))) ⟨new, ctl⟩
      fun a holds => ?_
    rw [here] at holds
    cases holds
  case recv p a point =>
    refine held_release held (semCall_releases (recv_semCall (Option.some.inj run))) ⟨new, ctl⟩
      fun a holds => ?_
    rw [here] at holds
    cases holds
  case destroy p point =>
    refine held_release held (semCall_releases (destroy_semCall (Option.some.inj run))) ⟨new, ctl⟩
      fun a holds => ?_
    rw [here] at holds
    cases holds
  case blockOp | driver => exact absurd rfl foreign.1
  case unborn | terminated | body | waitReturn | dispatcher => exact absurd rfl foreign.2

theorem held_step (conserved : Conserved s) (held : Held c s)
    (kind : (∃ n, c = .semaphore n) ∨ ∃ q, c = .queue q) {l : Label N} (go : Operates s l s') :
    Held c s' := by
  obtain ⟨next, permitted⟩ := go
  by_cases mine : client s l = c
  · cases l with
    | tick =>
      rcases kind with ⟨n, rfl⟩ | ⟨q, rfl⟩
      · cases mine
      · cases mine
    | completion =>
      rcases kind with ⟨n, rfl⟩ | ⟨q, rfl⟩
      · cases mine
      · cases mine
    | call call' =>
      obtain ⟨r, body, next⟩ := call_runs next
      exact call_held conserved held body permitted mine kind next
    | run m₁ m₂ => exact advance_held conserved held mine kind next
  · have notPlain : c ≠ .plain := by
      rcases kind with ⟨n, rfl⟩ | ⟨q, rfl⟩
      · simp
      · simp
    exact held_framed held
      ((step_kept conserved permitted next).framed c notPlain (Ne.symm mine))

theorem held_ends (conserved : Conserved s) (held : Held c s)
    (kind : (∃ n, c = .semaphore n) ∨ ∃ q, c = .queue q) : Ends c s := by
  intro labels s' run a mine nobody
  have both : Conserved s' ∧ Held c s' := by
    refine run_invariant (fun s => Conserved s ∧ Held c s) ?_ run ⟨conserved, held⟩
    intro s₁ l s₂ inv go
    exact ⟨(step_kept inv.1 go.2 go.1).conserved, held_step inv.1 inv.2 kind go⟩
  have free : (s'.kernel.sem a).lock = 0 := by
    by_contra locked
    obtain ⟨t, holds⟩ := both.2 a mine locked
    exact nobody t holds
  exact ⟨s'.kernel.setSem a fun x => { x with lock := 1 }, by simp [enterCs, free]⟩

theorem ends_free (ends : Ends c s) {a : SemAddr} (mine : semClient a = c)
    (outside : ∀ t, ctlClient (s.ctl t) ≠ c) : (s.kernel.sem a).lock = 0 := by
  have nobody : ∀ t, ¬ Holds a (s.ctl t) := fun t holds =>
    outside t ((holds_client holds).trans mine)
  obtain ⟨k, entered⟩ := ends [] s (.start s) a mine nobody
  by_contra locked
  simp only [enterCs, ne_eq, locked, not_false_eq_true, if_true] at entered
  cases entered

end Steps

section Memory
variable {k : Kernel N} {a : SemAddr}

def initialised (k : Kernel N) (a : SemAddr) (value lock : Int) : Kernel N :=
  { k with
    sem := Function.update k.sem a ⟨value, lock, 1⟩
    queues := ⟨Function.update k.queues.head (.semQueue a) none, k.queues.link⟩ }

omit [DecidableEq N] in
theorem semInit_putSem (k : Kernel N) (a : SemAddr) (x : SemStorage N) (value : Int) :
    (semInit (putSem k a x) (some a) value).1 = initialised k a value x.lock := by
  simp [semInit, putSem, initialised, Kernel.setSem]

omit [DecidableEq N] in
theorem semInit_apart (k : Kernel N) {a b : SemAddr} (ne : b ≠ a) (x : SemStorage N)
    (value : Int) :
    (semInit (putSem k b x) (some a) value).1 = putSem (semInit k (some a) value).1 b x := by
  have queue : TaskQueue.semQueue b ≠ .semQueue a := by simpa using ne
  simp only [semInit, putSem, Kernel.setSem, Function.update_self, Function.update_idem,
    Function.update_of_ne ne.symm, Function.update_comm ne, Function.update_comm queue]

variable [Fintype N] {live : Tcb N → Bool}

theorem initialised_kept (p : Placed live k) (idle : tasks k (.semQueue a) = [])
    (value lock : Int) :
    Kept live [] [a] k (initialised k a value lock) ∧
      tasks (initialised k a value lock) = tasks k := by
  have same : initialised k a value lock =
      (semInit (k.setSem a fun x => { x with lock := lock }) (some a) value).1 := by
    simp [semInit, initialised, Kernel.setSem]
  have first := kept_setSem p a fun x => { x with lock := lock }
  obtain ⟨second, lists, -⟩ := semInit_kept first.placed (s := a) idle value
  rw [same]
  exact ⟨kept_trans first second, lists⟩

end Memory

section Initialised
variable [Fintype N] {s b : System N} {n q : Nat} {value max size : Int}

def afterSemInit (s : System N) (n : Nat) (value lock : Int) : System N :=
  (s.withKernel (initialised s.kernel (.user n) value lock)).answer 0

def afterMqueueInit (s : System N) (q : Nat) (max size lockBuffer lockItem lockVaga : Int) :
    System N :=
  ((s.withKernel (initialised (initialised (initialised s.kernel (.sBuffer q) 1 lockBuffer)
    (.sItem q) 0 lockItem) (.sVaga q) max lockVaga)).setMqueue q
      fun _ => ⟨[], max, size, 1⟩).answer 0

theorem sem_created {x : SemStorage N}
    (go : step (withSem s (.user n) x) (.call (.semInit (some n) value)) = some (.ok b)) :
    (∃ r, s.ctl s.curr = .body r) ∧ b = afterSemInit s n value x.lock := by
  obtain ⟨r, body, go⟩ := call_runs go
  refine ⟨⟨r, body⟩, ?_⟩
  have same : ((withSem s (.user n) x).withKernel
      (semInit (putSem s.kernel (.user n) x) (some (.user n)) value).1).answer 0 = b :=
    Except.ok.inj go
  rw [← same, semInit_putSem]
  rfl

theorem queue_created {x : QueueStorage N}
    (go : step (withQueue s q x) (.call (.mqueueInit (some q) max size)) = some (.ok b)) :
    (∃ r, s.ctl s.curr = .body r) ∧
      b = afterMqueueInit s q max size x.sBuffer.lock x.sItem.lock x.sVaga.lock := by
  obtain ⟨r, body, go⟩ := call_runs go
  refine ⟨⟨r, body⟩, ?_⟩
  have same : mqueueInit (withQueue s q x) (some q) max size = b := Except.ok.inj go
  have kernel : (semInit (semInit (semInit (putSem (putSem (putSem s.kernel (.sBuffer q)
      x.sBuffer) (.sItem q) x.sItem) (.sVaga q) x.sVaga) (some (.sBuffer q)) 1).1
      (some (.sItem q)) 0).1 (some (.sVaga q)) max).1 =
      initialised (initialised (initialised s.kernel (.sBuffer q) 1 x.sBuffer.lock) (.sItem q) 0
        x.sItem.lock) (.sVaga q) max x.sVaga.lock := by
    rw [semInit_apart _ (by simp), semInit_apart _ (by simp), semInit_putSem,
      semInit_apart _ (by simp), semInit_putSem, semInit_putSem]
  rw [← same]
  simp only [mqueueInit, withQueue, withSem, System.setMqueue, System.withKernel]
  rw [kernel]
  simp [afterMqueueInit, System.answer, System.goto, System.setMqueue, System.withKernel,
    System.curr]

theorem afterSemInit_conserved (conserved : Conserved s) {r : Int}
    (body : s.ctl s.curr = .body r) (unused : Unused s (.semaphore n)) (lock : Int) :
    Conserved (afterSemInit s n value lock) := by
  obtain ⟨kept, -⟩ := initialised_kept conserved.placed (unused.empty (.user n) rfl) value lock
  have ok : StepOk (.semaphore n) s (afterSemInit s n value lock) :=
    kernel_answer_ok conserved body rfl kept rfl
      ⟨by simp, by simp [semClient], Or.inl rfl, Or.inl rfl⟩
  exact ok.conserved

theorem afterMqueueInit_conserved (conserved : Conserved s) {r : Int}
    (body : s.ctl s.curr = .body r) (unused : Unused s (.queue q))
    (lockBuffer lockItem lockVaga : Int) :
    Conserved (afterMqueueInit s q max size lockBuffer lockItem lockVaga) := by
  obtain ⟨first, lists₁⟩ := initialised_kept conserved.placed (unused.empty (.sBuffer q) rfl) 1
    lockBuffer
  have noItem : tasks (initialised s.kernel (.sBuffer q) 1 lockBuffer) (.semQueue (.sItem q)) =
      [] := by
    rw [lists₁]
    exact unused.empty (.sItem q) rfl
  obtain ⟨second, lists₂⟩ := initialised_kept first.placed noItem 0 lockItem
  have noVaga : tasks (initialised (initialised s.kernel (.sBuffer q) 1 lockBuffer) (.sItem q) 0
      lockItem) (.semQueue (.sVaga q)) = [] := by
    rw [lists₂, lists₁]
    exact unused.empty (.sVaga q) rfl
  obtain ⟨third, -⟩ := initialised_kept second.placed noVaga max lockVaga
  have sems : ∀ a ∈ [SemAddr.sBuffer q, .sItem q, .sVaga q], semClient a = .queue q := by
    simp [semClient]
  have whole : Kept (liveTasks s) [] [.sBuffer q, .sItem q, .sVaga q] s.kernel
      (afterMqueueInit s q max size lockBuffer lockItem lockVaga).kernel :=
    kept_trans (kept_trans (kept_weaken first (by simp) (by simp))
      (kept_weaken second (by simp) (by simp))) (kept_weaken third (by simp) (by simp))
  have ok : StepOk (.queue q) s (afterMqueueInit s q max size lockBuffer lockItem lockVaga) := by
    refine task_step_ok conserved body whole rfl rfl (by simp [role]) rfl
      ⟨by simp, sems, Or.inl rfl, Or.inl rfl⟩ (queue_data rfl rfl ?_ rfl)
    intro p ne
    refine ⟨?_, rfl, rfl⟩
    simp only [afterMqueueInit, System.answer, System.goto, System.withKernel, System.setMqueue,
      Function.update_of_ne ne]
  exact ok.conserved

omit [Fintype N] in
theorem answered_outside {c : Client} (plain : c ≠ .plain)
    (outside : ∀ t, ctlClient (s.ctl t) ≠ c) {code : Int}
    (ctl : b.ctl = Function.update s.ctl s.curr (.body code)) (t : Tcb N) :
    ctlClient (b.ctl t) ≠ c := by
  rw [ctl, Function.update_apply]
  split
  · exact plain.symm
  · exact outside t

/-- sem_init hides what was in the memory, and no enter_cs on the semaphore hangs, exactly where
    the lock was 0. -/
theorem sem_forgets (conserved : Conserved s) (unused : Unused s (.semaphore n))
    {x x' : SemStorage N} {b b' : System N}
    (go : step (withSem s (.user n) x) (.call (.semInit (some n) value)) = some (.ok b))
    (go' : step (withSem s (.user n) x') (.call (.semInit (some n) value)) = some (.ok b')) :
    Alike b b' ∧ Ends (.semaphore n) b ∧ Ends (.semaphore n) b' ↔ x.lock = 0 ∧ x'.lock = 0 := by
  obtain ⟨⟨r, body⟩, rfl⟩ := sem_created go
  obtain ⟨-, rfl⟩ := sem_created go'
  have lock : ∀ l, ((afterSemInit s n value l).kernel.sem (.user n)).lock = l := by
    intro l
    simp [afterSemInit, System.answer, initialised]
  constructor
  · rintro ⟨-, ends, ends'⟩
    have outside : ∀ l t, ctlClient ((afterSemInit s n value l).ctl t) ≠ .semaphore n :=
      fun l => answered_outside (by simp) unused.outside rfl
    rw [← lock x.lock, ← lock x'.lock]
    exact ⟨ends_free ends rfl (outside _), ends_free ends' rfl (outside _)⟩
  · rintro ⟨free, free'⟩
    have ends : Ends (.semaphore n) (afterSemInit s n value 0) :=
      held_ends (afterSemInit_conserved conserved body unused 0) (held_free (lock 0))
        (Or.inl ⟨n, rfl⟩)
    rw [free, free']
    exact ⟨fun _ => rfl, ends, ends⟩

theorem queue_forgets (conserved : Conserved s) (unused : Unused s (.queue q))
    {x x' : QueueStorage N} {b b' : System N}
    (go : step (withQueue s q x) (.call (.mqueueInit (some q) max size)) = some (.ok b))
    (go' : step (withQueue s q x') (.call (.mqueueInit (some q) max size)) = some (.ok b')) :
    Alike b b' ∧ Ends (.queue q) b ∧ Ends (.queue q) b' ↔ x.Unlocked ∧ x'.Unlocked := by
  obtain ⟨⟨r, body⟩, rfl⟩ := queue_created go
  obtain ⟨-, rfl⟩ := queue_created go'
  have locks : ∀ l₁ l₂ l₃,
      ((afterMqueueInit s q max size l₁ l₂ l₃).kernel.sem (.sBuffer q)).lock = l₁ ∧
      ((afterMqueueInit s q max size l₁ l₂ l₃).kernel.sem (.sItem q)).lock = l₂ ∧
      ((afterMqueueInit s q max size l₁ l₂ l₃).kernel.sem (.sVaga q)).lock = l₃ := by
    intro l₁ l₂ l₃
    simp [afterMqueueInit, System.answer, initialised, System.setMqueue]
  constructor
  · have free : ∀ l₁ l₂ l₃, Ends (.queue q) (afterMqueueInit s q max size l₁ l₂ l₃) →
        l₁ = 0 ∧ l₂ = 0 ∧ l₃ = 0 := by
      intro l₁ l₂ l₃ ends
      have outside : ∀ t,
          ctlClient ((afterMqueueInit s q max size l₁ l₂ l₃).ctl t) ≠ .queue q :=
        answered_outside (by simp) unused.outside rfl
      obtain ⟨buffer, item, vaga⟩ := locks l₁ l₂ l₃
      exact ⟨buffer.symm.trans (ends_free ends rfl outside),
        item.symm.trans (ends_free ends rfl outside),
        vaga.symm.trans (ends_free ends rfl outside)⟩
    rintro ⟨-, ends, ends'⟩
    exact ⟨free _ _ _ ends, free _ _ _ ends'⟩
  · rintro ⟨⟨buffer, item, vaga⟩, ⟨buffer', item', vaga'⟩⟩
    have held : Held (.queue q) (afterMqueueInit s q max size 0 0 0) := by
      obtain ⟨buffer, item, vaga⟩ := locks 0 0 0
      intro a mine locked
      cases a with
      | sBuffer p =>
        cases mine
        exact absurd buffer locked
      | sItem p =>
        cases mine
        exact absurd item locked
      | sVaga p =>
        cases mine
        exact absurd vaga locked
      | user m => cases mine
      | semDisk => cases mine
    have ends : Ends (.queue q) (afterMqueueInit s q max size 0 0 0) :=
      held_ends (afterMqueueInit_conserved conserved body unused 0 0 0) held
        (Or.inr ⟨q, rfl⟩)
    rw [buffer, item, vaga, buffer', item', vaga']
    exact ⟨fun _ => rfl, ends, ends⟩

/-- In every state that a program reaches: two contents of the memory handed to sem_init, or to
    mqueue_init, make no difference and leave no lock taken exactly where their locks are 0. -/
theorem initialisation_forgets {s₀ s : System N} {labels : List (Label N)} (boot : Booted s₀)
    (run : Run Operates s₀ labels s) :
    (∀ n value x x' b b', Unused s (.semaphore n) →
      step (withSem s (.user n) x) (.call (.semInit (some n) value)) = some (.ok b) →
      step (withSem s (.user n) x') (.call (.semInit (some n) value)) = some (.ok b') →
      (Alike b b' ∧ Ends (.semaphore n) b ∧ Ends (.semaphore n) b' ↔
        x.lock = 0 ∧ x'.lock = 0)) ∧
    ∀ q max size x x' b b', Unused s (.queue q) →
      step (withQueue s q x) (.call (.mqueueInit (some q) max size)) = some (.ok b) →
      step (withQueue s q x') (.call (.mqueueInit (some q) max size)) = some (.ok b') →
      (Alike b b' ∧ Ends (.queue q) b ∧ Ends (.queue q) b' ↔ x.Unlocked ∧ x'.Unlocked) := by
  have conserved : Conserved s := run_invariant Conserved
    (fun _ _ _ inv go => (step_kept inv go.2 go.1).conserved) run (boot_conserved boot)
  constructor
  · intro n value x x' b b' unused go go'
    exact sem_forgets conserved unused go go'
  · intro q max size x x' b b' unused go go'
    exact queue_forgets conserved unused go go'

end Initialised

section Examples

theorem boot_unused (n : Nat) : Unused (bootSystem : System (Fin 1)) (.semaphore n) := by
  have represents : Represents (bootSystem : System (Fin 1)).kernel.queues bootLists :=
    (boot_lists boot_booted).1
  have lists : tasks (bootSystem : System (Fin 1)).kernel = bootLists := represents.elems_eq
  constructor
  · intro t
    cases t <;> simp [bootSystem, ctlClient]
  · intro a _
    rw [lists]
    rfl

def usedBefore : SemStorage (Fin 1) := ⟨5, some (.user 0), 0, 7⟩

/-- A static variable, but for the lock. -/
def leftover (lock : Int) : SemStorage (Fin 1) := ⟨0, none, lock, 0⟩

theorem released_memory_is_forgotten : ∃ b b',
    step (withSem bootSystem (.user 0) usedBefore) (.call (.semInit (some 0) 1)) =
      some (.ok b) ∧
    step (withSem bootSystem (.user 0) (leftover 0)) (.call (.semInit (some 0) 1)) =
      some (.ok b') ∧
    Alike b b' ∧ Ends (.semaphore 0) b ∧ Ends (.semaphore 0) b' := by
  refine ⟨_, _, rfl, rfl, ?_⟩
  exact ((initialisation_forgets boot_booted (.start _)).1 0 1 usedBefore (leftover 0) _ _
    (boot_unused 0) rfl rfl).mpr ⟨rfl, rfl⟩

/-- After sem_init(&s, 1), main's sem_down returns where the lock was 0 and spins where it was
    1. -/
theorem old_lock_blocks :
    ¬ ∀ (x x' : SemStorage (Fin 1)) (b b' : System (Fin 1)),
      step (withSem bootSystem (.user 0) x) (.call (.semInit (some 0) 1)) = some (.ok b) →
      step (withSem bootSystem (.user 0) x') (.call (.semInit (some 0) 1)) = some (.ok b') →
      Alike b b' := by
  intro claim
  have same := claim (leftover 1) (leftover 0) _ _ rfl rfl
    [.call (.semDown (some 0)), .run true true, .run true true, .run true true]
  have seen := congrArg (Option.map fun o => o.toOption.map fun v => v.ctl .mainTask) same
  revert seen
  decide +kernel

end Examples
end Initialisation
