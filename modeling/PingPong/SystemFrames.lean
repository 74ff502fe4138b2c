import PingPong.SystemModel
import PingPong.TaskPlacement
import PingPong.FiniteTally

/-! What every step of the system keeps: the tasks stay where they belong, and a step
   about one semaphore, one message queue or the disk leaves the others alone. -/
namespace SystemFrames
open MachineModel CircularList QueueModel KernelModel KernelEffects TaskPlacement SystemModel
open TransitionRuns FiniteTally
variable {N : Type} [DecidableEq N] [Fintype N]

section Roles

def live (c : Ctl N) : Bool :=
  match c with
  | .unborn | .terminated => false
  | _ => true

abbrev liveTasks (s : System N) : Tcb N → Bool := fun t => live (s.ctl t)

/-- The two kernel tasks run their own loops and nothing else. -/
inductive Role where
  | absent
  | program
  | driver
  | dispatcher
  deriving DecidableEq

def role (c : Ctl N) : Role :=
  match c with
  | .unborn | .terminated => .absent
  | .driver _ => .driver
  | .dispatcher _ => .dispatcher
  | _ => .program

/-- What a step can be about. -/
inductive Client where
  | plain
  | birth
  | semaphore (n : Nat)
  | queue (q : Nat)
  | disk
  deriving DecidableEq

def ctlClient (c : Ctl N) : Client :=
  match c with
  | .semDown n _ | .semUp n _ => .semaphore n
  | .send q _ _ | .recv q _ _ | .destroy q _ => .queue q
  | .blockOp _ _ _ _ | .driver _ => .disk
  | _ => .plain

def semClient (a : SemAddr) : Client :=
  match a with
  | .user n => .semaphore n
  | .sBuffer q | .sItem q | .sVaga q => .queue q
  | .semDisk => .disk

def queueClient (q : TaskQueue) : Client :=
  match q with
  | .semQueue a => semClient a
  | .diskQueue => .disk
  | _ => .plain

def callClient (c : Call N) : Client :=
  match c with
  | .taskInit _ _ => .birth
  | .semInit (some n) _ | .semDown (some n) | .semUp (some n) | .semDestroy (some n) =>
    .semaphore n
  | .mqueueInit (some q) _ _ | .mqueueSend (some q) _ | .mqueueRecv (some q) _
  | .mqueueDestroy (some q) => .queue q
  | .diskMgrInit _ _ | .diskBlockRead _ _ | .diskBlockWrite _ _ => .disk
  | _ => .plain

def client (s : System N) (l : Label N) : Client :=
  match l with
  | .tick => .plain
  | .completion => .disk
  | .call c => callClient c
  | .run _ _ => ctlClient (s.ctl s.curr)

end Roles

/-- Every live task is in exactly one queue, the dispatcher in none; the kernel tasks are in their
    own loops; a task picked by the scheduler is still ready when it is switched to. -/
structure Conserved (s : System N) : Prop where
  placed : Placed (liveTasks s) s.kernel
  dispatcherRole : ∀ t, role (s.ctl t) = .dispatcher ↔ t = .dispatcherTask
  driverRole : ∀ t, role (s.ctl t) = .driver → t = .diskDriverTask
  driverOnly : role (s.ctl .diskDriverTask) = .driver ∨ role (s.ctl .diskDriverTask) = .absent
  chosen : ∀ start next, s.ctl .dispatcherTask = .dispatcher (.dispatch start next) →
    s.curr = .dispatcherTask ∧ next ∈ tasks s.kernel .readyTasks
  dispatcherId : (s.kernel.task .dispatcherTask).id = dispatcherPid
  handler : s.disk.handler = true → live (s.ctl .diskDriverTask) = true
  dormantDriver : live (s.ctl .diskDriverTask) = false →
    (s.kernel.task .diskDriverTask).status ≠ .suspended

/-- Only a task in its own code makes a call. -/
theorem call_runs {s s' : System N} {c : Call N} (go : step s (.call c) = some (.ok s')) :
    ∃ r, s.ctl s.curr = .body r ∧ call s c = .ok s' := by
  simp only [step] at go
  split at go
  · rename_i r body
    exact ⟨r, body, Option.some.inj go⟩
  · cases go

/-- A step inside an mqueue operation is a step of one of the three. -/
theorem queue_runs {s s' : System N} {q : Nat} {malloc₁ malloc₂ : Bool}
    (mine : client s (.run malloc₁ malloc₂) = .queue q)
    (go : step s (.run malloc₁ malloc₂) = some (.ok s')) :
    (∃ a point, s.ctl s.curr = .send q a point ∧
      mqueueSendStep s q a malloc₁ malloc₂ point = .ok s') ∨
    (∃ a point, s.ctl s.curr = .recv q a point ∧ mqueueRecvStep s q a point = .ok s') ∨
    ∃ point, s.ctl s.curr = .destroy q point ∧ mqueueDestroyStep s q point = .ok s' := by
  simp only [step, advance] at go
  simp only [client] at mine
  cases here : s.ctl s.curr with
  | send p a point =>
    rw [here] at go mine
    cases mine
    exact Or.inl ⟨a, point, rfl, Option.some.inj go⟩
  | recv p a point =>
    rw [here] at go mine
    cases mine
    exact Or.inr (Or.inl ⟨a, point, rfl, Option.some.inj go⟩)
  | destroy p point =>
    rw [here] at go mine
    cases mine
    exact Or.inr (Or.inr ⟨point, rfl, Option.some.inj go⟩)
  | _ => rw [here] at mine; cases mine

/-- A step about the disk that is not its interrupt is one of disk_block_op or of the driver. -/
theorem disk_runs {s s' : System N} {malloc₁ malloc₂ : Bool}
    (mine : client s (.run malloc₁ malloc₂) = .disk)
    (go : step s (.run malloc₁ malloc₂) = some (.ok s')) :
    (∃ block buffer op point, s.ctl s.curr = .blockOp block buffer op point ∧
      diskBlockOpStep s block buffer op malloc₁ point = .ok s') ∨
    ∃ point, s.ctl s.curr = .driver point ∧ diskDriverStep s point = .ok s' := by
  simp only [step, advance] at go
  simp only [client] at mine
  cases here : s.ctl s.curr with
  | blockOp block buffer op point =>
    rw [here] at go
    exact Or.inl ⟨block, buffer, op, point, rfl, Option.some.inj go⟩
  | driver point =>
    rw [here] at go
    exact Or.inr ⟨point, rfl, Option.some.inj go⟩
  | _ => rw [here] at mine; cases mine

theorem suspended_driver_lives {s : System N} (c : Conserved s)
    (suspended : (s.kernel.task .diskDriverTask).status = .suspended) :
    live (s.ctl .diskDriverTask) = true := by
  by_contra off
  exact c.dormantDriver (by simpa using off) suspended

theorem dispatcher_point {s : System N} (c : Conserved s) :
    ∃ point, s.ctl .dispatcherTask = .dispatcher point := by
  have role := (c.dispatcherRole .dispatcherTask).mpr rfl
  revert role
  cases s.ctl .dispatcherTask <;> simp [role]

theorem user_point {s : System N} (c : Conserved s) {t : Tcb N} (user : t ≠ .dispatcherTask)
    (point : DispatcherPoint N) : s.ctl t ≠ .dispatcher point := by
  intro here
  exact user ((c.dispatcherRole t).mp (by rw [here]; rfl))

/-- A call comes from a task's own code. -/
theorem body_user {s : System N} (c : Conserved s) {t : Tcb N} {r : Int}
    (body : s.ctl t = .body r) : t ≠ .dispatcherTask := by
  intro same
  have role := (c.dispatcherRole t).mpr same
  rw [body] at role
  cases role

theorem body_not_driver {s : System N} (c : Conserved s) {t : Tcb N} {r : Int}
    (body : s.ctl t = .body r) : t ≠ .diskDriverTask := by
  rintro rfl
  have role := c.driverOnly
  rw [body] at role
  rcases role with role | role
  · cases role
  · cases role

/-- What programs must not do: initialise a live descriptor or a semaphore with waiters, or switch
    to a task that is not ready. The descriptor of the driver is initialised by disk_mgr_init
    only. -/
def Permitted (s : System N) : Label N → Prop
  | .call (.taskInit t _) => live (s.ctl t) = false ∧ t ≠ .diskDriverTask
  | .call (.taskSwitch (some t)) => t = .dispatcherTask ∨ t ∈ tasks s.kernel .readyTasks
  | .call (.semInit (some n) _) => tasks s.kernel (.semQueue (.user n)) = []
  | .call (.mqueueInit (some q) _ _) => tasks s.kernel (.semQueue (.sBuffer q)) = [] ∧
      tasks s.kernel (.semQueue (.sItem q)) = [] ∧ tasks s.kernel (.semQueue (.sVaga q)) = []
  | .call (.diskMgrInit _ _) => s.device.status = .unknown →
      live (s.ctl .diskDriverTask) = false ∧ tasks s.kernel (.semQueue .semDisk) = []
  | _ => True

instance (s : System N) (l : Label N) : Decidable (Permitted s l) := by
  unfold Permitted
  rcases l with _ | _ | c | _ <;> try infer_instance
  rcases c with _ | _ <;> try infer_instance
  case taskSwitch o | semInit o _ | mqueueInit o _ _ => rcases o with _ | _ <;> infer_instance

/-- The next state, where the guard lets the step happen. -/
def guardedStep (guard : System N → Label N → System N → Prop)
    [∀ s l s', Decidable (guard s l s')] (s : System N) (l : Label N) : Option (System N) :=
  match step s l with
  | some (.ok s') => if guard s l s' then some s' else none
  | _ => none

variable {guard : System N → Label N → System N → Prop} [∀ s l s', Decidable (guard s l s')]

theorem guardedStep_eq {s s' : System N} {l : Label N} (next : guardedStep guard s l = some s') :
    step s l = some (.ok s') ∧ guard s l s' := by
  unfold guardedStep at next
  split at next
  · rename_i found
    split at next
    · rename_i allowed
      rw [← Option.some.inj next]
      exact ⟨found, allowed⟩
    · cases next
  · cases next

theorem exec_guarded {s s' : System N} {labels : List (Label N)}
    (done : exec (guardedStep guard) s labels = some s') :
    Run (fun s l s' => step s l = some (.ok s') ∧ guard s l s') s labels s' :=
  run_mono (fun _ _ _ next => guardedStep_eq next) (exec_run done)

structure SemaphoreData (n : Nat) (s s' : System N) : Prop where
  returned : s'.history.returned n = s.history.returned n
  started : s'.history.started n = s.history.started n
  incremented : s'.history.incremented n = s.history.incremented n
  emptyTests : s'.history.emptyTests n = s.history.emptyTests n

structure QueueData (q : Nat) (s s' : System N) : Prop where
  mqueue : s'.mqueue q = s.mqueue q
  sent : s'.history.sent q = s.history.sent q
  received : s'.history.received q = s.history.received q

structure DiskData (s s' : System N) : Prop where
  disk : s'.disk = s.disk
  device : s'.device = s.device
  calls : s'.history.calls = s.history.calls
  requests : s'.history.requests = s.history.requests
  ticket : s'.history.ticket = s.history.ticket
  performed : s'.history.performed = s.history.performed
  signalsSeen : s'.history.signalsSeen = s.history.signalsSeen
  woken : s'.history.woken = s.history.woken
  refused : s'.history.refused = s.history.refused

def SameData (c : Client) (s s' : System N) : Prop :=
  match c with
  | .plain | .birth => True
  | .semaphore n => SemaphoreData n s s'
  | .queue q => QueueData q s s'
  | .disk => DiskData s s'

/-- A step that is not about c leaves everything of c as it was. -/
structure Framed (c : Client) (s s' : System N) : Prop where
  ctl : ∀ t, s'.ctl t = s.ctl t ∨ (ctlClient (s.ctl t) ≠ c ∧ ctlClient (s'.ctl t) ≠ c)
  sem : ∀ a, semClient a = c → s'.kernel.sem a = s.kernel.sem a
  lists : ∀ q, q ≠ .readyTasks → queueClient q = c → tasks s'.kernel q = tasks s.kernel q
  data : SameData c s s'

/-- Everything a step touches is plain or belongs to me. -/
structure Within (me : Client) (old new : Ctl N) (touched : List TaskQueue)
    (sems : List SemAddr) : Prop where
  queues : ∀ q ∈ touched, queueClient q = .plain ∨ queueClient q = me
  sems : ∀ a ∈ sems, semClient a = me
  old : ctlClient old = .plain ∨ ctlClient old = me
  new : ctlClient new = .plain ∨ ctlClient new = me

/-- Who is alive, with the counter of user tasks: at most one task begins or ends. -/
inductive Population (me : Client) (s s' : System N) : Prop where
  | same (live : liveTasks s' = liveTasks s)
      (num : s'.kernel.userTasksNum = s.kernel.userTasksNum)
  | begins (t : Tcb N) (kind : me = .birth ∨ t = .diskDriverTask) (idle : liveTasks s t = false)
      (live : liveTasks s' = Function.update (liveTasks s) t true)
      (num : s'.kernel.userTasksNum = initCount s.kernel t)
  | ends (t : Tcb N) (alive : liveTasks s t = true) (dispatcher : t ≠ .dispatcherTask)
      (driver : t ≠ .diskDriverTask)
      (live : liveTasks s' = Function.update (liveTasks s) t false)
      (num : s'.kernel.userTasksNum = toInt (s.kernel.userTasksNum - 1))

structure StepOk (me : Client) (s s' : System N) : Prop where
  conserved : Conserved s'
  population : Population me s s'
  framed : ∀ c, c ≠ .plain → c ≠ me → Framed c s s'

section Assembling
variable {s s' : System N}

omit [Fintype N] [DecidableEq N] in
theorem live_of_role {c d : Ctl N} (same : role c = role d) : live c = live d := by
  cases c <;> cases d <;> first | rfl | cases same

omit [Fintype N] [DecidableEq N] in
theorem live_iff_role (c : Ctl N) : live c = true ↔ role c ≠ .absent := by
  cases c <;> simp [live, role]

theorem step_ok (c : Conserved s) (t : Tcb N) {new : Ctl N} {me : Client}
    {touched : List TaskQueue} {sems : List SemAddr}
    (kept : Kept (liveTasks s) touched sems s.kernel s'.kernel)
    (ctl : s'.ctl = Function.update s.ctl t new) (roles : role new = role (s.ctl t))
    (chosen : ∀ start next, s'.ctl .dispatcherTask = .dispatcher (.dispatch start next) →
      s'.curr = .dispatcherTask ∧ next ∈ tasks s'.kernel .readyTasks)
    (handler : s'.disk.handler = s.disk.handler)
    (within : Within me (s.ctl t) new touched sems)
    (data : ∀ c, c ≠ me → SameData c s s') : StepOk me s s' := by
  have sameRole : ∀ a, role (s'.ctl a) = role (s.ctl a) := by
    intro a
    rw [ctl, Function.update_apply]
    split
    · subst a; exact roles
    · rfl
  have sameLive : liveTasks s' = liveTasks s := funext fun a => live_of_role (sameRole a)
  have driverLive := live_of_role (sameRole .diskDriverTask)
  refine ⟨⟨?_, ?_, ?_, ?_, chosen, ?_, ?_, ?_⟩, .same sameLive (kept.counters rfl).1, ?_⟩
  · rw [sameLive]; exact kept.placed
  · intro a; rw [sameRole]; exact c.dispatcherRole a
  · intro a; rw [sameRole]; exact c.driverRole a
  · rw [sameRole]; exact c.driverOnly
  · rw [kept.ids _ rfl]; exact c.dispatcherId
  · rw [handler, driverLive]; exact c.handler
  · intro off
    rw [driverLive] at off
    rw [kept.dormant _ off off]
    exact c.dormantDriver off
  · intro d notPlain other
    refine ⟨?_, ?_, ?_, data d other⟩
    · intro a
      rw [ctl, Function.update_apply]
      split
      · subst a
        refine Or.inr ⟨?_, ?_⟩
        · rcases within.old with o | o <;> rw [o]
          · exact notPlain.symm
          · exact other.symm
        · rcases within.new with o | o <;> rw [o]
          · exact notPlain.symm
          · exact other.symm
      · exact Or.inl rfl
    · intro a owner
      exact kept.sem a fun mem => other (owner ▸ within.sems a mem)
    · intro q ready owner
      refine kept.lists q ready fun mem => ?_
      rcases within.queues q mem with plain | own
      · exact notPlain (owner ▸ plain)
      · exact other (owner ▸ own)

theorem kept_refl (c : Conserved s) : Kept (liveTasks s) [] [] s.kernel s.kernel :=
  kept_fields c.placed rfl rfl (fun _ _ => rfl) ⟨rfl, rfl⟩ (fun _ => rfl) (fun _ _ => rfl)

theorem not_dispatcher (c : Conserved s) {t : Tcb N} (other : role (s.ctl t) ≠ .dispatcher) :
    t ≠ .dispatcherTask := fun same => other ((c.dispatcherRole t).mpr same)

theorem task_step_ok (c : Conserved s) {old new : Ctl N} {me : Client}
    {touched : List TaskQueue} {sems : List SemAddr} (here : s.ctl s.curr = old)
    (kept : Kept (liveTasks s) touched sems s.kernel s'.kernel)
    (ctl : s'.ctl = Function.update s.ctl s.curr new) (roles : role new = role old)
    (task : role old ≠ .dispatcher) (handler : s'.disk.handler = s.disk.handler)
    (within : Within me old new touched sems)
    (data : ∀ c, c ≠ me → SameData c s s') : StepOk me s s' := by
  subst here
  have other := not_dispatcher c task
  refine step_ok c _ kept ctl roles ?_ handler within data
  intro start next here
  rw [ctl, Function.update_of_ne other.symm] at here
  exact absurd (c.chosen start next here).1 other

theorem same_ctl_ok (c : Conserved s) {me : Client} {touched : List TaskQueue}
    {sems : List SemAddr} (kept : Kept (liveTasks s) touched sems s.kernel s'.kernel)
    (ctl : s'.ctl = s.ctl)
    (chosen : ∀ start next, s.ctl .dispatcherTask = .dispatcher (.dispatch start next) →
      s'.curr = .dispatcherTask ∧ next ∈ tasks s'.kernel .readyTasks)
    (handler : s'.disk.handler = s.disk.handler)
    (queues : ∀ q ∈ touched, queueClient q = .plain ∨ queueClient q = me)
    (sems : ∀ a ∈ sems, semClient a = me)
    (data : ∀ c, c ≠ me → SameData c s s') : StepOk me s s' := by
  have plain : ctlClient (s.ctl .dispatcherTask) = .plain := by
    have own := (c.dispatcherRole .dispatcherTask).mpr rfl
    revert own
    cases s.ctl .dispatcherTask <;> simp [role, ctlClient]
  have unchanged : s'.ctl = Function.update s.ctl .dispatcherTask (s.ctl .dispatcherTask) := by
    rw [ctl, Function.update_eq_self]
  refine step_ok c .dispatcherTask kept unchanged rfl ?_ handler
    ⟨queues, sems, Or.inl plain, Or.inl plain⟩ data
  rw [ctl]; exact chosen

omit [DecidableEq N] [Fintype N] in
theorem same_data (mqueue : s'.mqueue = s.mqueue) (disk : s'.disk = s.disk)
    (device : s'.device = s.device) (history : s'.history = s.history) (c : Client) :
    SameData c s s' := by
  cases c with
  | plain => trivial
  | birth => trivial
  | semaphore n => constructor <;> rw [history]
  | queue q => constructor <;> first | rw [mqueue] | rw [history]
  | disk => constructor <;> first | exact disk | exact device | rw [history]

theorem stay_ok (c : Conserved s) {me : Client} : StepOk me s s :=
  ⟨c, .same rfl rfl, fun d _ _ => ⟨fun _ => Or.inl rfl, fun _ _ => rfl, fun _ _ _ => rfl,
    same_data rfl rfl rfl rfl d⟩⟩

end Assembling

section Semaphores
variable {s s' : System N}

theorem answer_ok (c : Conserved s) {old : Ctl N} (here : s.ctl s.curr = old)
    (program : role old = .program) {me : Client}
    (mine : ctlClient old = .plain ∨ ctlClient old = me) (code : Int) :
    StepOk me s (s.answer code) := by
  refine task_step_ok c here (kept_refl c) rfl program.symm (by simp [program]) rfl
    ⟨by simp, by simp, mine, Or.inl rfl⟩ fun d _ => ?_
  apply same_data <;> rfl

theorem goto_ok (c : Conserved s) {old new : Ctl N} (here : s.ctl s.curr = old)
    (program : role old = .program) (program' : role new = .program) {me : Client}
    (mine : ctlClient old = .plain ∨ ctlClient old = me)
    (mine' : ctlClient new = .plain ∨ ctlClient new = me) :
    StepOk me s (s.goto s.curr new) := by
  refine task_step_ok c here (kept_refl c) rfl (program'.trans program.symm) (by simp [program])
    rfl ⟨by simp, by simp, mine, mine'⟩ fun d _ => ?_
  apply same_data <;> rfl

theorem kernel_goto_ok (c : Conserved s) {old new : Ctl N} (here : s.ctl s.curr = old)
    (roles : role new = role old) (task : role old ≠ .dispatcher) {me : Client} {k : Kernel N}
    {touched : List TaskQueue} {sems : List SemAddr}
    (kept : Kept (liveTasks s) touched sems s.kernel k)
    (within : Within me old new touched sems) :
    StepOk me s ((s.withKernel k).goto s.curr new) := by
  refine task_step_ok c here kept rfl roles task rfl within fun d _ => ?_
  apply same_data <;> rfl

theorem kernel_answer_ok (c : Conserved s) {old : Ctl N} (here : s.ctl s.curr = old)
    (program : role old = .program) {me : Client} {k : Kernel N} {touched : List TaskQueue}
    {sems : List SemAddr} (kept : Kept (liveTasks s) touched sems s.kernel k)
    (curr : k.curr = s.kernel.curr) {code : Int}
    (within : Within me old (.body code : Ctl N) touched sems) :
    StepOk me s ((s.withKernel k).answer code) := by
  have same : (s.withKernel k).answer code = (s.withKernel k).goto s.curr (.body code) := by
    simp only [System.answer, System.curr, System.withKernel, curr]
  rw [same]
  exact kernel_goto_ok c here (show role (.body code : Ctl N) = _ from program.symm)
    (by simp [program]) kept within

omit [DecidableEq N] [Fintype N] in
theorem counter_data {n : Nat} (mqueue : s'.mqueue = s.mqueue) (disk : s'.disk = s.disk)
    (device : s'.device = s.device)
    (others : ∀ m, m ≠ n → SemaphoreData m s s')
    (rest : s'.history = { s.history with
      returned := s'.history.returned, started := s'.history.started
      incremented := s'.history.incremented, emptyTests := s'.history.emptyTests })
    (c : Client) (other : c ≠ .semaphore n) : SameData c s s' := by
  cases c with
  | plain => trivial
  | birth => trivial
  | semaphore m => exact others m fun same => other (by rw [same])
  | queue q => constructor <;> first | rw [mqueue] | rw [rest]
  | disk => constructor <;> first | exact disk | exact device | rw [rest]

omit [Fintype N] in
theorem counted_other (table : Nat → Tcb N → Nat) {m n : Nat} (t : Tcb N) (ne : m ≠ n) :
    counted table n t m = table m := by simp [counted, ne]

theorem semDownCall_ok (c : Conserved s) {code : Int} (body : s.ctl s.curr = .body code)
    (n : Nat) : StepOk (.semaphore n) s (semDownCall s (some n)) := by
  simp only [semDownCall]
  split
  · exact answer_ok c body rfl (Or.inl rfl) _
  · exact goto_ok c body rfl rfl (Or.inl rfl) (Or.inr rfl)

theorem semDownReturn_ok (c : Conserved s) {n : Nat} {point : DownPoint}
    (here : s.ctl s.curr = .semDown n point) :
    StepOk (.semaphore n) s (semDownReturn s n) := by
  refine task_step_ok c here (kept_refl c) rfl rfl (by simp [role]) rfl
    ⟨by simp, by simp, Or.inr rfl, Or.inl rfl⟩ (counter_data rfl rfl rfl ?_ rfl)
  intro m ne
  exact ⟨counted_other _ _ ne, rfl, rfl, rfl⟩

theorem semDownStep_ok (c : Conserved s) {n : Nat} {point : DownPoint}
    (here : s.ctl s.curr = .semDown n point) (run : semDownStep s n point = .ok s') :
    StepOk (.semaphore n) s s' := by
  have within : ∀ p, Within (.semaphore n) (.semDown n point : Ctl N) (.semDown n p)
      [.semQueue (.user n)] [.user n] :=
    fun p => ⟨by simp [queueClient, semClient], by simp [semClient], Or.inr rfl, Or.inr rfl⟩
  have user : s.kernel.curr ≠ .dispatcherTask :=
    not_dispatcher c (t := s.curr) (by rw [here]; simp [role])
  have write : ∀ f, Kept (liveTasks s) [.semQueue (.user n)] [.user n] s.kernel
      (s.kernel.setSem (.user n) f) :=
    fun f => kept_weaken (kept_setSem c.placed _ f) (by simp) (by simp)
  cases point with
  | enter =>
    simp only [semDownStep] at run
    split at run
    · cases run; exact stay_ok c
    · cases run; exact kernel_goto_ok c here (by rfl) (by simp [role]) (write _) (within _)
  | update => cases run; exact kernel_goto_ok c here (by rfl) (by simp [role]) (write _) (within _)
  | leave v =>
    simp only [semDownStep] at run
    cases run
    split
    · exact kernel_goto_ok c here (by rfl) (by simp [role]) (write _) (within _)
    · have released : Kept (liveTasks s) [.semQueue (.user n)] [.user n] s.kernel
        (leaveCs s.kernel (.user n)) := write _
      refine task_step_ok c here released rfl (by rfl) (by simp [role]) rfl
        ⟨by simp [queueClient, semClient], by simp [semClient], Or.inr rfl, Or.inl rfl⟩
        (counter_data rfl rfl rfl ?_ rfl)
      intro m ne
      exact ⟨counted_other _ _ ne, rfl, rfl, rfl⟩
  | suspend =>
    obtain ⟨k, suspended, rfl⟩ := map_ok run
    obtain ⟨m, known, _, kept⟩ := suspend_kept c.placed user (.semQueue (.user n))
    rw [known, Except.ok.injEq] at suspended
    subst suspended
    exact kernel_goto_ok c here (by rfl) (by simp [role]) (kept_weaken kept (by simp) (by simp))
      (within _)
  | woken => cases run; exact semDownReturn_ok c here

theorem semUpCall_ok (c : Conserved s) {code : Int} (body : s.ctl s.curr = .body code)
    (n : Nat) : StepOk (.semaphore n) s (semUpCall s (some n)) := by
  simp only [semUpCall]
  split
  · exact answer_ok c body rfl (Or.inl rfl) _
  · refine task_step_ok c body (kept_refl c) rfl rfl (by simp [role]) rfl
      ⟨by simp, by simp, Or.inl rfl, Or.inr rfl⟩ (counter_data rfl rfl rfl ?_ rfl)
    intro m ne
    exact ⟨rfl, counted_other _ _ ne, rfl, rfl⟩

theorem semUpStep_ok (c : Conserved s) {n : Nat} {point : UpPoint}
    (here : s.ctl s.curr = .semUp n point) (run : semUpStep s n point = .ok s') :
    StepOk (.semaphore n) s s' := by
  have within : ∀ p, Within (.semaphore n) (.semUp n point : Ctl N) (.semUp n p)
      [.semQueue (.user n)] [.user n] :=
    fun p => ⟨by simp [queueClient, semClient], by simp [semClient], Or.inr rfl, Or.inr rfl⟩
  have write : ∀ f, Kept (liveTasks s) [.semQueue (.user n)] [.user n] s.kernel
      (s.kernel.setSem (.user n) f) :=
    fun f => kept_weaken (kept_setSem c.placed _ f) (by simp) (by simp)
  cases point with
  | enter =>
    simp only [semUpStep] at run
    split at run
    · cases run; exact stay_ok c
    · cases run; exact kernel_goto_ok c here (by rfl) (by simp [role]) (write _) (within _)
  | update =>
    cases run
    have counted := write fun x => { x with value := toInt ((s.kernel.sem (.user n)).value + 1) }
    refine task_step_ok c here counted rfl (by rfl) (by simp [role]) rfl (within _)
      (counter_data rfl rfl rfl ?_ rfl)
    intro m ne
    exact ⟨rfl, rfl, counted_other _ _ ne, rfl⟩
  | leave v => cases run; exact kernel_goto_ok c here (by rfl) (by simp [role]) (write _) (within _)
  | test v =>
    simp only [semUpStep] at run
    split at run
    · split at run
      · cases run; exact goto_ok c here rfl rfl (Or.inr rfl) (Or.inr rfl)
      · cases run
        refine task_step_ok c here (kept_refl c) rfl rfl (by simp [role]) rfl
          ⟨by simp, by simp, Or.inr rfl, Or.inl rfl⟩ (counter_data rfl rfl rfl ?_ rfl)
        intro m ne
        exact ⟨rfl, rfl, rfl, Function.update_of_ne ne _ _⟩
    · cases run; exact answer_ok c here rfl (Or.inr rfl) _
  | resume =>
    obtain ⟨k, resumed, rfl⟩ := map_ok run
    rw [c.placed.wellFormed.head] at resumed
    rcases waiting : tasks s.kernel (.semQueue (.user n)) with _ | ⟨t, rest⟩
    · rw [waiting] at resumed; cases resumed
    · rw [waiting, List.head?_cons] at resumed
      obtain ⟨m, known, _, kept⟩ := resume_kept c.placed (t := t) (q := .semQueue (.user n))
        (by rw [waiting]; simp)
      rw [known, Except.ok.injEq] at resumed
      subst resumed
      exact kernel_answer_ok c here rfl kept rfl
        ⟨by simp [queueClient, semClient], by simp, Or.inr rfl, Or.inl rfl⟩

end Semaphores

section MessageQueues
variable {s s' : System N}

/-- The semaphore calls that a blocking call of me makes between two of its points. -/
theorem down_ok (c : Conserved s) {old new : Ctl N} {me : Client} {a : SemAddr}
    (here : s.ctl s.curr = old) (roles : role new = role old) (task : role old ≠ .dispatcher)
    (mine : semClient a = me) (old' : ctlClient old = me) (new' : ctlClient new = me)
    (run : (semDown s.kernel (some a)).map (fun x => (s.withKernel x.1).goto s.curr new) =
      .ok s') : StepOk me s s' := by
  obtain ⟨⟨k, r⟩, down, rfl⟩ := map_ok run
  have user : s.kernel.curr ≠ .dispatcherTask :=
    not_dispatcher c (t := s.curr) (by rw [here]; exact task)
  have kept := semDown_any c.placed user down
  exact kernel_goto_ok c here roles task kept
    ⟨by simp [queueClient, mine], by simp [mine], Or.inr old', Or.inr new'⟩

theorem up_ok (c : Conserved s) {old new : Ctl N} {me : Client} {a : SemAddr}
    (here : s.ctl s.curr = old) (roles : role new = role old) (task : role old ≠ .dispatcher)
    (mine : semClient a = me) (old' : ctlClient old = me)
    (new' : ctlClient new = .plain ∨ ctlClient new = me)
    (run : (semUp s.kernel (some a)).map (fun x => (s.withKernel x.1).goto s.curr new) =
      .ok s') : StepOk me s s' := by
  obtain ⟨⟨k, r⟩, up, rfl⟩ := map_ok run
  have kept := (semUp_any c.placed up).2
  exact kernel_goto_ok c here roles task kept
    ⟨by simp [queueClient, mine], by simp [mine], Or.inr old', new'⟩

theorem up_answer (a : SemAddr) (c : Conserved s) (code : Int) :
    (semUp s.kernel (some a)).map (fun x => (s.withKernel x.1).answer code) =
      (semUp s.kernel (some a)).map (fun x => (s.withKernel x.1).goto s.curr (.body code)) := by
  rcases up : semUp s.kernel (some a) with e | ⟨k, r⟩
  · rfl
  · have curr := (semUp_any c.placed up).1
    simp only [Except.map, System.answer, System.curr, System.withKernel, curr]

omit [DecidableEq N] [Fintype N] in
theorem queue_data {q : Nat} (disk : s'.disk = s.disk) (device : s'.device = s.device)
    (others : ∀ p, p ≠ q → QueueData p s s')
    (rest : s'.history = { s.history with
      sent := s'.history.sent, received := s'.history.received })
    (c : Client) (other : c ≠ .queue q) : SameData c s s' := by
  cases c with
  | plain => trivial
  | birth => trivial
  | semaphore m => constructor <;> rw [rest]
  | queue p => exact others p fun same => other (by rw [same])
  | disk => constructor <;> first | exact disk | exact device | rw [rest]

theorem mqueueSendStep_ok (c : Conserved s) {q a : Nat} {point : SendPoint}
    {malloc₁ malloc₂ : Bool} (here : s.ctl s.curr = .send q a point)
    (run : mqueueSendStep s q a malloc₁ malloc₂ point = .ok s') : StepOk (.queue q) s s' := by
  cases point with
  | vaga => exact down_ok c here (by rfl) (by simp [role]) rfl rfl rfl run
  | buffer => exact down_ok c here (by rfl) (by simp [role]) rfl rfl rfl run
  | check =>
    simp only [mqueueSendStep] at run
    cases run
    split
    · exact answer_ok c here rfl (Or.inr rfl) _
    · exact goto_ok c here rfl rfl (Or.inr rfl) (Or.inr rfl)
  | store =>
    simp only [mqueueSendStep] at run
    split at run
    · cases run; exact answer_ok c here rfl (Or.inr rfl) _
    · split at run
      · cases run; exact answer_ok c here rfl (Or.inr rfl) _
      · cases run
        refine task_step_ok c here (kept_refl c) rfl (by rfl) (by simp [role]) rfl
          ⟨by simp, by simp, Or.inr rfl, Or.inr rfl⟩ (queue_data rfl rfl ?_ rfl)
        intro p ne
        exact ⟨Function.update_of_ne ne _ _, Function.update_of_ne ne _ _, rfl⟩
  | upBuffer => exact up_ok c here (by rfl) (by simp [role]) rfl rfl (Or.inr rfl) run
  | upItem =>
    simp only [mqueueSendStep, up_answer _ c] at run
    exact up_ok c here (by rfl) (by simp [role]) rfl rfl (Or.inl rfl) run

theorem mqueueRecvStep_ok (c : Conserved s) {q a : Nat} {point : RecvPoint}
    (here : s.ctl s.curr = .recv q a point) (run : mqueueRecvStep s q a point = .ok s') :
    StepOk (.queue q) s s' := by
  cases point with
  | item => exact down_ok c here (by rfl) (by simp [role]) rfl rfl rfl run
  | buffer => exact down_ok c here (by rfl) (by simp [role]) rfl rfl rfl run
  | check =>
    simp only [mqueueRecvStep] at run
    cases run
    split
    · exact answer_ok c here rfl (Or.inr rfl) _
    · exact goto_ok c here rfl rfl (Or.inr rfl) (Or.inr rfl)
  | take =>
    simp only [mqueueRecvStep] at run
    split at run
    · cases run
    · cases run
      refine task_step_ok c here (kept_refl c) rfl (by rfl) (by simp [role]) rfl
        ⟨by simp, by simp, Or.inr rfl, Or.inr rfl⟩ (queue_data rfl rfl ?_ rfl)
      intro p ne
      exact ⟨Function.update_of_ne ne _ _, rfl, Function.update_of_ne ne _ _⟩
  | upBuffer => exact up_ok c here (by rfl) (by simp [role]) rfl rfl (Or.inr rfl) run
  | upVaga =>
    simp only [mqueueRecvStep, up_answer _ c] at run
    exact up_ok c here (by rfl) (by simp [role]) rfl rfl (Or.inl rfl) run

theorem destroy_ok (c : Conserved s) {q : Nat} {point point' : DestroyPoint} {a : SemAddr}
    (here : s.ctl s.curr = .destroy q point) (mine : semClient a = .queue q)
    (run : (semDestroy s.kernel (some a)).map
      (fun x => (s.withKernel x.1).goto s.curr (.destroy q point')) = .ok s') :
    StepOk (.queue q) s s' := by
  obtain ⟨⟨k, r⟩, destroyed, rfl⟩ := map_ok run
  obtain ⟨k', r', known, _, kept⟩ := semDestroy_kept c.placed a
  rw [known, Except.ok.injEq, Prod.mk.injEq] at destroyed
  obtain ⟨rfl, rfl⟩ := destroyed
  exact kernel_goto_ok c here (by rfl) (by simp [role]) kept
    ⟨by simp [queueClient, mine], by simp [mine], Or.inr rfl, Or.inr rfl⟩

theorem mqueueDestroyStep_ok (c : Conserved s) {q : Nat} {point : DestroyPoint}
    (here : s.ctl s.curr = .destroy q point) (run : mqueueDestroyStep s q point = .ok s') :
    StepOk (.queue q) s s' := by
  cases point with
  | buffer => exact destroy_ok c here rfl run
  | item => exact destroy_ok c here rfl run
  | vaga => exact destroy_ok c here rfl run
  | drain =>
    simp only [mqueueDestroyStep] at run
    split at run
    · cases run; exact goto_ok c here rfl rfl (Or.inr rfl) (Or.inr rfl)
    · cases run
      refine same_ctl_ok c (kept_refl c) rfl c.chosen rfl (by simp) (by simp)
        (queue_data rfl rfl ?_ rfl)
      intro p ne
      exact ⟨Function.update_of_ne ne _ _, rfl, rfl⟩
  | close =>
    cases run
    refine task_step_ok c here (kept_refl c) rfl (by rfl) (by simp [role]) rfl
      ⟨by simp, by simp, Or.inr rfl, Or.inl rfl⟩ (queue_data rfl rfl ?_ rfl)
    intro p ne
    exact ⟨Function.update_of_ne ne _ _, rfl, rfl⟩

end MessageQueues

section Disk
variable {s s' : System N}

omit [DecidableEq N] [Fintype N] in
theorem disk_data (mqueue : s'.mqueue = s.mqueue)
    (rest : s'.history = { s.history with
      calls := s'.history.calls, requests := s'.history.requests, ticket := s'.history.ticket
      performed := s'.history.performed, signalsSeen := s'.history.signalsSeen
      woken := s'.history.woken, refused := s'.history.refused })
    (c : Client) (other : c ≠ .disk) : SameData c s s' := by
  cases c with
  | plain => trivial
  | birth => trivial
  | semaphore m => constructor <;> rw [rest]
  | queue p => constructor <;> first | rw [mqueue] | rw [rest]
  | disk => exact absurd rfl other

omit [DecidableEq N] [Fintype N] in
theorem driver_is_not_dispatcher : (.diskDriverTask : Tcb N) ≠ .dispatcherTask := by simp

theorem diskBlockOpCall_ok (c : Conserved s) {code : Int} (body : s.ctl s.curr = .body code)
    {block : Int} {buffer : Option Nat} {op : Operation}
    (run : diskBlockOpCall s block buffer op = .ok s') : StepOk .disk s s' := by
  obtain ⟨⟨k, r⟩, down, rfl⟩ := map_ok run
  have user : s.kernel.curr ≠ .dispatcherTask :=
    not_dispatcher c (t := s.curr) (by rw [body]; simp [role])
  refine task_step_ok c body (semDown_any c.placed user down) rfl (by rfl) (by simp [role]) rfl
    ⟨by simp [queueClient, semClient], by simp [semClient], Or.inl rfl, Or.inr rfl⟩
    (disk_data rfl rfl)

theorem diskBlockOpStep_ok (c : Conserved s) {block : Int} {buffer : Option Nat}
    {op : Operation} {point : BlockOpPoint} {malloc : Bool}
    (here : s.ctl s.curr = .blockOp block buffer op point)
    (run : diskBlockOpStep s block buffer op malloc point = .ok s') : StepOk .disk s s' := by
  cases point with
  | enqueue =>
    simp only [diskBlockOpStep] at run
    split at run
    · cases run
      exact task_step_ok c here (kept_refl c) rfl (by rfl) (by simp [role]) rfl
        ⟨by simp, by simp, Or.inr rfl, Or.inl rfl⟩ (disk_data rfl rfl)
    · cases run
      exact task_step_ok c here (kept_refl c) rfl (by rfl) (by simp [role]) rfl
        ⟨by simp, by simp, Or.inr rfl, Or.inr rfl⟩ (disk_data rfl rfl)
  | resume =>
    simp only [diskBlockOpStep] at run
    split at run
    · rename_i suspended
      obtain ⟨k, resumed, rfl⟩ := map_ok run
      obtain ⟨k', known, _, _, _, _, kept⟩ :=
        resume_any c.placed (suspended_driver_lives c suspended) driver_is_not_dispatcher .diskQueue
      cases known.symm.trans resumed
      exact kernel_goto_ok c here (by rfl) (by simp [role]) kept
        ⟨by simp [queueClient], by simp, Or.inr rfl, Or.inr rfl⟩
    · cases run; exact goto_ok c here rfl rfl (Or.inr rfl) (Or.inr rfl)
  | up => exact up_ok c here (by rfl) (by simp [role]) rfl rfl (Or.inr rfl) run
  | suspend =>
    obtain ⟨k, suspended, rfl⟩ := map_ok run
    have user : s.kernel.curr ≠ .dispatcherTask :=
      not_dispatcher c (t := s.curr) (by rw [here]; simp [role])
    obtain ⟨m, known, _, kept⟩ := suspend_kept c.placed user .diskQueue
    rw [known, Except.ok.injEq] at suspended
    subst suspended
    exact kernel_goto_ok c here (by rfl) (by simp [role]) kept
      ⟨by simp [queueClient], by simp, Or.inr rfl, Or.inr rfl⟩
  | finish => cases run; exact answer_ok c here rfl (Or.inr rfl) _

theorem diskDriverStep_ok (c : Conserved s) {point : DriverPoint}
    (here : s.ctl s.curr = .driver point) (run : diskDriverStep s point = .ok s') :
    StepOk .disk s s' := by
  have user : s.kernel.curr ≠ .dispatcherTask :=
    not_dispatcher c (t := s.curr) (by rw [here]; simp [role])
  cases point with
  | down => exact down_ok c here (by rfl) (by simp [role]) rfl rfl rfl run
  | test =>
    simp only [diskDriverStep, diskDriverTest] at run
    split at run
    · obtain ⟨k, resumed, rfl⟩ := map_ok run
      rw [c.placed.wellFormed.head] at resumed
      rcases waiting : tasks s.kernel .diskQueue with _ | ⟨t, rest⟩
      · rw [waiting] at resumed; cases resumed
      · rw [waiting, List.head?_cons] at resumed
        obtain ⟨m, known, _, kept⟩ := resume_kept c.placed (t := t) (q := .diskQueue)
          (by rw [waiting]; simp)
        rw [known, Except.ok.injEq] at resumed
        subst resumed
        exact task_step_ok c here kept rfl (by rfl) (by simp [role]) rfl
          ⟨by simp [queueClient], by simp, Or.inr rfl, Or.inr rfl⟩ (disk_data rfl rfl)
    · cases run
      exact task_step_ok c here (kept_refl c) rfl (by rfl) (by simp [role]) rfl
        ⟨by simp, by simp, Or.inr rfl, Or.inr rfl⟩ (disk_data rfl rfl)
  | issue =>
    cases run
    simp only [diskDriverIssue]
    split
    · split
      · exact task_step_ok c here (kept_refl c) rfl (by rfl) (by simp [role]) rfl
          ⟨by simp, by simp, Or.inr rfl, Or.inr rfl⟩ (disk_data rfl rfl)
      · exact task_step_ok c here (kept_refl c) rfl (by rfl) (by simp [role]) rfl
          ⟨by simp, by simp, Or.inr rfl, Or.inr rfl⟩ (disk_data rfl rfl)
    · exact task_step_ok c here (kept_refl c) rfl (by rfl) (by simp [role]) rfl
        ⟨by simp, by simp, Or.inr rfl, Or.inr rfl⟩ (disk_data rfl rfl)
  | up => exact up_ok c here (by rfl) (by simp [role]) rfl rfl (Or.inr rfl) run
  | suspend =>
    obtain ⟨k, suspended, rfl⟩ := map_ok run
    obtain ⟨m, known, _, kept⟩ := suspend_kept c.placed user .diskQueue
    rw [known, Except.ok.injEq] at suspended
    subst suspended
    exact kernel_goto_ok c here (by rfl) (by simp [role]) kept
      ⟨by simp [queueClient], by simp, Or.inr rfl, Or.inr rfl⟩

/-- Tasks only join the ready queue while the dispatcher, or an interrupt, moves them. -/
theorem ready_after_resume {k k' : Kernel N} {t a : Tcb N} {q : TaskQueue}
    (p : Placed (liveTasks s) k) (mem : a ∈ tasks k .readyTasks)
    (moved : t ∈ tasks k q → tasks k' = moveTask (tasks k) q .readyTasks t)
    (same : t ∉ tasks k q → tasks k' = tasks k) : a ∈ tasks k' .readyTasks := by
  by_cases inside : t ∈ tasks k q
  · rw [moved inside, mem_moveTask p.wellFormed]
    by_cases at' : a = t
    · exact Or.inr ⟨rfl, at'⟩
    · exact Or.inl ⟨mem, fun both => at' both.2⟩
  · rwa [same inside]

/-- disk_sighandle returns only with the handler set: it has resumed the driver, and besides that it
    has written memory, the device and the record of the disk. -/
theorem sighandle_returns {op : Operation} (run : diskSighandle s op = .ok s') :
    s.disk.handler = true ∧
      taskResume s.kernel (some .diskDriverTask) (some .diskQueue) = .ok s'.kernel ∧
      s'.ctl = s.ctl ∧ s'.disk = { s.disk with signal := 1 } ∧ s'.mqueue = s.mqueue ∧
      s'.history = { s.history with performed := s'.history.performed } := by
  cases op with
  | read | write =>
    simp only [diskSighandle] at run
    split at run
    · cases run
    · rename_i on
      obtain ⟨k, resumed, rfl⟩ := map_ok run
      exact ⟨by simpa using on, resumed, rfl, rfl, rfl, rfl⟩

/-- The interrupt of the disk comes from the operation that it works on. -/
theorem completion_runs (go : step s .completion = some (.ok s')) :
    ∃ op, diskSighandle s op = .ok s' := by
  simp only [step] at go
  split at go
  · exact ⟨.read, Option.some.inj go⟩
  · exact ⟨.write, Option.some.inj go⟩
  · cases go

theorem diskSighandle_ok (c : Conserved s) {op : Operation}
    (run : diskSighandle s op = .ok s') : StepOk .disk s s' := by
  obtain ⟨on, resumed, ctl, disk, mqueue, rest⟩ := sighandle_returns run
  obtain ⟨k, known, curr, _, moved, same, kept⟩ :=
    resume_any c.placed (c.handler on) driver_is_not_dispatcher .diskQueue
  cases known.symm.trans resumed
  have chosen : ∀ start next, s.ctl .dispatcherTask = .dispatcher (.dispatch start next) →
      s'.curr = .dispatcherTask ∧ next ∈ tasks s'.kernel .readyTasks := by
    intro start next picked
    obtain ⟨here, mem⟩ := c.chosen start next picked
    exact ⟨curr.trans here, ready_after_resume c.placed mem moved same⟩
  exact same_ctl_ok c kept ctl chosen (by rw [disk]) (by simp [queueClient]) (by simp)
    (disk_data mqueue (by rw [rest]))

end Disk

section Lifetimes
variable {s s' : System N}

theorem lifetime_ok (c : Conserved s) {t : Tcb N} {r : Role} {me : Client} {on : Bool}
    {touched : List TaskQueue} {sems : List SemAddr} (ne : t ≠ .dispatcherTask)
    (alive : on = true ↔ r ≠ .absent)
    (fits : r ≠ .dispatcher ∧ (r = .driver ↔ t = .diskDriverTask))
    (roles : ∀ a, role (s'.ctl a) = if a = t then r else role (s.ctl a))
    (moved : Moved (liveTasks s) (Function.update (liveTasks s) t on) touched sems s.kernel
      s'.kernel)
    (chosen : ∀ start next, s'.ctl .dispatcherTask = .dispatcher (.dispatch start next) →
      s'.curr = .dispatcherTask ∧ next ∈ tasks s'.kernel .readyTasks)
    (handler : s'.disk.handler = true → s.disk.handler = true ∨ r = .driver)
    (ctl : ∀ d, d ≠ .plain → d ≠ me → ∀ a, s'.ctl a = s.ctl a ∨
      (ctlClient (s.ctl a) ≠ d ∧ ctlClient (s'.ctl a) ≠ d))
    (queues : ∀ q ∈ touched, queueClient q = .plain ∨ queueClient q = me)
    (mine : ∀ a ∈ sems, semClient a = me)
    (population : liveTasks s' = Function.update (liveTasks s) t on → Population me s s')
    (data : ∀ d, d ≠ me → SameData d s s') : StepOk me s s' := by
  have other : ∀ a, a ≠ t → role (s'.ctl a) = role (s.ctl a) := fun a at' => by
    rw [roles, if_neg at']
  have here : role (s'.ctl t) = r := by rw [roles, if_pos rfl]
  have alive' : Function.update (liveTasks s) t on = liveTasks s' := by
    funext a
    rw [Function.update_apply]
    split
    · subst a
      rw [Bool.eq_iff_iff, alive, live_iff_role, here]
    · rename_i at'
      exact (live_of_role (other a at')).symm
  rw [alive'] at moved
  refine ⟨⟨moved.placed, ?_, ?_, ?_, chosen, ?_, ?_, ?_⟩, population alive'.symm, ?_⟩
  · intro a
    by_cases at' : a = t
    · subst at'; rw [here]; exact ⟨fun bad => absurd bad fits.1, fun bad => absurd bad ne⟩
    · rw [other a at']; exact c.dispatcherRole a
  · intro a driver
    by_cases at' : a = t
    · subst at'; rw [here] at driver; exact fits.2.mp driver
    · rw [other a at'] at driver; exact c.driverRole a driver
  · by_cases at' : .diskDriverTask = t
    · subst at'; rw [here]; exact Or.inl (fits.2.mpr rfl)
    · rw [other _ at']; exact c.driverOnly
  · rw [moved.ids _ (live_of_role (other _ ne.symm))]; exact c.dispatcherId
  · intro on
    by_cases at' : .diskDriverTask = t
    · rw [live_iff_role, at', here, fits.2.mpr at'.symm]; decide
    · rw [live_of_role (other _ at')]
      rcases handler on with old | new
      · exact c.handler old
      · exact absurd (fits.2.mp new).symm at'
  · intro off
    by_cases at' : .diskDriverTask = t
    · have on : live (s'.ctl .diskDriverTask) = true := by
        rw [live_iff_role, at', here, fits.2.mpr at'.symm]; decide
      rw [on] at off; cases off
    · have off' := off
      rw [live_of_role (other _ at')] at off'
      rw [moved.dormant _ off' off]
      exact c.dormantDriver off'
  · intro d notPlain notMe
    refine ⟨ctl d notPlain notMe, ?_, ?_, data d notMe⟩
    · intro a owner
      exact moved.sem a fun mem => notMe (owner ▸ mine a mem)
    · intro q ready owner
      refine moved.lists q ready fun mem => ?_
      rcases queues q mem with plain | own
      · exact notPlain (owner ▸ plain)
      · exact notMe (owner ▸ own)

omit [DecidableEq N] [Fintype N] in
theorem absent_cases {c : Ctl N} (off : live c = false) : c = .unborn ∨ c = .terminated := by
  cases c <;> simp [live] at off ⊢

theorem taskInit_ok (c : Conserved s) {code : Int} (body : s.ctl s.curr = .body code)
    {t : Tcb N} {stack : Bool} (idle : live (s.ctl t) = false) (notDriver : t ≠ .diskDriverTask)
    (run : call s (.taskInit t stack) = .ok s') : StepOk .birth s s' := by
  obtain ⟨⟨k, id⟩, born, rfl⟩ := map_ok run
  cases stack with
  | false => cases born
  | true =>
    obtain ⟨k', id', known, _, curr, lists, num, _, _, moved⟩ :=
      taskInit_moved c.placed (t := t) idle
    rw [known, Except.ok.injEq, Prod.mk.injEq] at born
    obtain ⟨rfl, rfl⟩ := born
    have user := not_dispatcher c (t := s.curr) (by rw [body]; simp [role])
    have ne : t ≠ .dispatcherTask := by
      rintro rfl
      have off : live (s.ctl (.dispatcherTask : Tcb N)) = false := idle
      rw [show live (s.ctl (.dispatcherTask : Tcb N)) = true from c.placed.dispatcher] at off
      cases off
    have parent : s.curr ≠ t := by
      rintro rfl; rw [body] at idle; cases idle
    refine lifetime_ok c (r := .program) ne (by simp) ⟨by decide, by simp [notDriver]⟩ ?_ moved ?_
      (fun on => Or.inl on) ?_ (by simp) (by simp) (fun live => .begins t (.inl rfl) idle live num)
      fun d _ => by apply same_data <;> rfl
    · intro a
      simp only [System.goto, System.withKernel, Function.update_apply]
      by_cases atCurr : a = s.curr
      · subst atCurr; rw [if_pos rfl, if_neg parent, body]; rfl
      · rw [if_neg atCurr]
        split <;> rfl
    · intro start next picked
      simp only [System.goto, System.withKernel] at picked
      rw [Function.update_of_ne user.symm, Function.update_of_ne ne.symm] at picked
      exact absurd (c.chosen start next picked).1 user
    · intro d notPlain _ a
      simp only [System.goto, System.withKernel, Function.update_apply]
      by_cases atCurr : a = s.curr
      · subst atCurr
        rw [if_pos rfl, body]
        exact Or.inr ⟨notPlain.symm, notPlain.symm⟩
      · rw [if_neg atCurr]
        split
        · subst a
          refine Or.inr ⟨?_, notPlain.symm⟩
          rcases absent_cases idle with off | off <;> rw [off] <;> exact notPlain.symm
        · exact Or.inl rfl

theorem departure_ok (c : Conserved s) {code : Int} (body : s.ctl s.curr = .body code)
    {k : Kernel N} {touched : List TaskQueue}
    (num : k.userTasksNum = toInt (s.kernel.userTasksNum - 1))
    (moved : Moved (liveTasks s) (Function.update (liveTasks s) s.curr false) touched [] s.kernel k)
    (plain : ∀ q ∈ touched, queueClient q = .plain) :
    StepOk .plain s ((s.withKernel k).goto s.curr .terminated) := by
  have user := not_dispatcher c (t := s.curr) (by rw [body]; simp [role])
  have notDriver := body_not_driver c body
  have alive : liveTasks s s.curr = true := current_live c.placed
  refine lifetime_ok c (t := s.curr) (r := .absent) user (by simp)
    ⟨by decide, by simp [notDriver]⟩ ?_ moved ?_ (fun on => Or.inl on) ?_
    (fun q mem => Or.inl (plain q mem)) (by simp)
    (fun live => .ends _ alive user notDriver live num) fun d _ => by apply same_data <;> rfl
  · intro a
    simp only [System.goto, System.withKernel, Function.update_apply]
    split <;> rfl
  · intro start next picked
    simp only [System.goto, System.withKernel] at picked
    rw [Function.update_of_ne user.symm] at picked
    exact absurd (c.chosen start next picked).1 user
  · intro d notPlain _ a
    simp only [System.goto, System.withKernel, Function.update_apply]
    split
    · subst a
      rw [body]
      exact Or.inr ⟨notPlain.symm, notPlain.symm⟩
    · exact Or.inl rfl

theorem taskExit_ok (c : Conserved s) {code : Int} (body : s.ctl s.curr = .body code)
    {exitCode : Int} (run : call s (.taskExit exitCode) = .ok s') : StepOk .plain s s' := by
  obtain ⟨k, ended, rfl⟩ := map_ok run
  have user := not_dispatcher c (t := s.curr) (by rw [body]; simp [role])
  obtain ⟨_, num, _, _, moved⟩ := taskExit_moved c.placed user ended
  exact departure_ok c body num moved (by simp [queueClient])

theorem driver_starts (c : Conserved s) {code : Int} (code' : Int)
    (body : s.ctl s.curr = .body code)
    (user : s.curr ≠ .dispatcherTask) (notDriver : s.curr ≠ .diskDriverTask)
    (idle : live (s.ctl .diskDriverTask) = false) {k : Kernel N}
    (moved : Moved (liveTasks s) (Function.update (liveTasks s) .diskDriverTask true) []
      [.semDisk] s.kernel k) (num : k.userTasksNum = initCount s.kernel .diskDriverTask)
    (kernel : s'.kernel = k)
    (ctl : s'.ctl = Function.update (Function.update s.ctl .diskDriverTask (.driver .down))
      s.curr (.body code'))
    (mqueue : s'.mqueue = s.mqueue) (history : s'.history = s.history) :
    StepOk .disk s s' := by
  subst kernel
  refine lifetime_ok c (t := .diskDriverTask) (r := .driver) driver_is_not_dispatcher (by simp)
    ⟨by decide, by simp⟩ ?_ moved ?_ (fun _ => Or.inr rfl) ?_ (by simp) (by simp [semClient])
    (fun live => .begins _ (.inr rfl) idle live num) (disk_data mqueue (by rw [history]))
  · intro a
    rw [ctl, Function.update_apply, Function.update_apply]
    by_cases atCurr : a = s.curr
    · subst atCurr; rw [if_pos rfl, if_neg notDriver, body]; rfl
    · rw [if_neg atCurr]
      split <;> rfl
  · intro start next picked
    rw [ctl, Function.update_of_ne user.symm,
      Function.update_of_ne driver_is_not_dispatcher.symm] at picked
    exact absurd (c.chosen start next picked).1 user
  · intro d notPlain notMe a
    rw [ctl, Function.update_apply, Function.update_apply]
    by_cases atCurr : a = s.curr
    · subst atCurr
      rw [if_pos rfl, body]
      exact Or.inr ⟨notPlain.symm, notPlain.symm⟩
    · rw [if_neg atCurr]
      split
      · subst a
        refine Or.inr ⟨?_, notMe.symm⟩
        rcases absent_cases idle with off | off <;> rw [off] <;> exact notPlain.symm
      · exact Or.inl rfl

theorem diskMgrInit_ok (c : Conserved s) {code : Int} (body : s.ctl s.curr = .body code)
    {host stack : Bool} (permitted : Permitted s (.call (.diskMgrInit host stack)))
    (run : diskMgrInit s host stack = .ok s') : StepOk .disk s s' := by
  have user := not_dispatcher c (t := s.curr) (by rw [body]; simp [role])
  have notDriver := body_not_driver c body
  by_cases fresh : s.device.status = .unknown
  · obtain ⟨idle, noWaiters⟩ := permitted fresh
    unfold diskMgrInit at run
    rw [if_neg (by simp [diskInit, fresh])] at run
    split at run
    · cases run
    · dsimp only at run
      split at run
      · cases run
        exact task_step_ok c body (kept_refl c) rfl (by rfl) (by simp [role]) rfl
          ⟨by simp, by simp, Or.inl rfl, Or.inl rfl⟩ (disk_data rfl rfl)
      · obtain ⟨⟨k, id⟩, born, rfl⟩ := map_ok run
        obtain ⟨first, _, curr₁, _⟩ := semInit_kept c.placed noWaiters 1
        cases stack with
        | false => cases born
        | true =>
          obtain ⟨k', id', known, _, curr, _, num, _, _, moved⟩ :=
            taskInit_moved first.placed (t := .diskDriverTask) idle
          have same := known.symm.trans born
          rw [Except.ok.injEq, Prod.mk.injEq] at same
          obtain ⟨rfl, rfl⟩ := same
          have here : k'.curr = s.kernel.curr := curr.trans curr₁
          have whole := kept_then first (kept_weaken moved (by simp) (by simp))
          dsimp only
          split
          · exact driver_starts c (-1) body user notDriver idle whole num rfl
              (by simp only [System.answer, System.goto, System.withKernel, System.curr, here])
              rfl rfl
          · exact driver_starts c 0 body user notDriver idle whole num rfl
              (by simp only [System.answer, System.goto, System.withKernel, System.curr, here])
              rfl rfl
  · unfold diskMgrInit at run
    rw [if_pos (by simp [diskInit, fresh])] at run
    cases run
    exact answer_ok c body rfl (Or.inl rfl) _

end Lifetimes

section Steps
variable {s s' : System N}

theorem tick_ok (c : Conserved s) (run : step s .tick = some (.ok s')) : StepOk .plain s s' := by
  obtain ⟨k, known, lists, _, curr, kept⟩ := tick_kept c.placed
  simp only [step, known, Except.map, Option.some.injEq, Except.ok.injEq] at run
  subst run
  refine same_ctl_ok c kept rfl ?_ rfl (by simp) (by simp) fun d _ => by
    apply same_data <;> rfl
  intro start next picked
  obtain ⟨here, mem⟩ := c.chosen start next picked
  refine ⟨?_, by change next ∈ tasks k _; rw [lists]; exact mem⟩
  rcases curr with same | ⟨_, dispatcher⟩
  · exact same.trans here
  · exact dispatcher

theorem dispatch_kept (c : Conserved s) {start : UInt32} {next : Tcb N}
    (here : s.ctl .dispatcherTask = .dispatcher (.dispatch start next)) :
    ∃ k, dispatcherStep s (.dispatch start next) = .ok ((s.withKernel k).goto .dispatcherTask
        (.dispatcher (.back next (systime s.kernel)))) ∧
      k.curr = next ∧ tasks k = tasks s.kernel ∧ Kept (liveTasks s) [] [] s.kernel k := by
  obtain ⟨_, mem⟩ := c.chosen start next here
  have first := kept_setTask c.placed .dispatcherTask
    (f := fun d => { d with activations := d.activations + 1 }) (fun _ => rfl) fun _ => rfl
  have second := kept_trans first (kept_setTask first.placed next
    (f := fun d => { d with activations := d.activations + 1 }) (fun _ => rfl) fun _ => rfl)
  have third := kept_trans second (kept_setTask second.placed .dispatcherTask
    (f := fun d => { d with processorTime := d.processorTime + (systime s.kernel - start) })
    (fun _ => rfl) fun _ => rfl)
  have fourth := kept_trans third (kept_setTask third.placed next
    (f := fun d => { d with quantum := 0 }) (fun _ => rfl) fun _ => rfl)
  obtain ⟨k, known, curr, lists, _, kept⟩ := switch_kept fourth.placed (t := next) (Or.inr mem)
  refine ⟨k, ?_, curr, lists, kept_trans fourth kept⟩
  simp only [dispatcherStep]
  exact congrArg _ known

theorem dispatcherStep_ok (c : Conserved s) {point : DispatcherPoint N}
    (here : s.ctl s.curr = .dispatcher point) (run : dispatcherStep s point = .ok s') :
    StepOk .plain s s' := by
  have curr : s.curr = .dispatcherTask := (c.dispatcherRole _).mp (by rw [here]; rfl)
  have here' := here
  rw [curr] at here'
  -- a step of the loop that runs on the dispatcher and picks nobody
  have plain : ∀ {k : Kernel N} {touched} {p}, Kept (liveTasks s) touched [] s.kernel k →
      (∀ q ∈ touched, queueClient q = .plain) →
      (∀ start next, p = .dispatch start next →
        k.curr = .dispatcherTask ∧ next ∈ tasks k .readyTasks) →
      StepOk .plain s ((s.withKernel k).goto .dispatcherTask (.dispatcher p)) := by
    intro k touched p kept queues chosen
    refine step_ok c .dispatcherTask kept rfl (by rw [here']; rfl) ?_ rfl
      ⟨fun q mem => Or.inl (queues q mem), by simp, by rw [here']; exact Or.inl rfl, Or.inl rfl⟩
      fun d _ => by apply same_data <;> rfl
    intro start next picked
    simp only [System.goto, Function.update_self, Ctl.dispatcher.injEq] at picked
    exact chosen start next picked
  cases point with
  | top =>
    simp only [dispatcherStep] at run
    split at run
    · cases run
      exact plain (kept_refl c) (by simp) (by simp)
    · obtain ⟨k, ended, _⟩ := map_ok run
      rw [taskExit_dispatcher c.placed curr c.dispatcherId] at ended
      cases ended
  | wake start =>
    obtain ⟨k, woken, rfl⟩ := map_ok run
    obtain ⟨k', known, _, _, _, kept⟩ := wake_kept c.placed
    rw [known, Except.ok.injEq] at woken
    subst woken
    exact plain kept (by simp [queueClient]) (by simp)
  | schedule start =>
    obtain ⟨⟨next, k⟩, picked, rfl⟩ := map_ok run
    rcases scheduler_kept c.placed with ⟨_, known⟩ | ⟨t, mem, known, kept⟩
    · rw [known, Except.ok.injEq, Prod.mk.injEq] at picked
      obtain ⟨rfl, rfl⟩ := picked
      exact plain (kept_setTask c.placed _ (fun _ => rfl) fun _ => rfl) (by simp) (by simp)
    · rw [known, Except.ok.injEq, Prod.mk.injEq] at picked
      obtain ⟨rfl, rfl⟩ := picked
      refine plain kept (by simp) ?_
      intro start' next' same
      simp only [DispatcherPoint.dispatch.injEq] at same
      rw [← same.2]
      exact ⟨curr, mem⟩
  | dispatch start next =>
    obtain ⟨k, known, _, _, kept⟩ := dispatch_kept c here'
    have same := known.symm.trans run
    rw [Except.ok.injEq] at same
    rw [← same]
    exact plain kept (by simp) (by simp)
  | back next start =>
    cases run
    have first := kept_setTask c.placed next
      (f := fun d => { d with processorTime := d.processorTime + (systime s.kernel - start) })
      (fun _ => rfl) fun _ => rfl
    exact plain (kept_trans first (kept_setTask first.placed _ (fun _ => rfl) fun _ => rfl))
      (by simp) (by simp)

theorem kernel_call_ok (c : Conserved s) {code : Int} (body : s.ctl s.curr = .body code)
    {new : Ctl N} (program : role new = .program) {me : Client} {k : Kernel N}
    {touched : List TaskQueue} {sems : List SemAddr}
    (kept : Kept (liveTasks s) touched sems s.kernel k)
    (queues : ∀ q ∈ touched, queueClient q = .plain ∨ queueClient q = me)
    (mine : ∀ a ∈ sems, semClient a = me)
    (new' : ctlClient new = .plain ∨ ctlClient new = me) :
    StepOk me s ((s.withKernel k).goto s.curr new) :=
  kernel_goto_ok c body program (by simp [role]) kept ⟨queues, mine, Or.inl rfl, new'⟩

theorem mqueueInit_ok (c : Conserved s) {code : Int} (body : s.ctl s.curr = .body code)
    {q : Nat} {max size : Int}
    (permitted : Permitted s (.call (.mqueueInit (some q) max size))) :
    StepOk (.queue q) s (mqueueInit s (some q) max size) := by
  obtain ⟨noBuffer, noItem, noVaga⟩ := permitted
  obtain ⟨first, lists₁, curr₁, _⟩ := semInit_kept c.placed noBuffer 1
  obtain ⟨second, lists₂, curr₂, _⟩ := semInit_kept first.placed (s := .sItem q)
    (by rw [lists₁]; exact noItem) 0
  obtain ⟨third, _, curr₃, _⟩ := semInit_kept second.placed (s := .sVaga q)
    (by rw [lists₂, lists₁]; exact noVaga) max
  have sems : ∀ a ∈ [SemAddr.sBuffer q, .sItem q, .sVaga q], semClient a = .queue q := by
    simp [semClient]
  have whole : Kept (liveTasks s) [] [.sBuffer q, .sItem q, .sVaga q] s.kernel
      (mqueueInit s (some q) max size).kernel :=
    kept_trans (kept_trans (kept_weaken first (by simp) (by simp))
      (kept_weaken second (by simp) (by simp))) (kept_weaken third (by simp) (by simp))
  have ctl : (mqueueInit s (some q) max size).ctl =
      Function.update s.ctl s.curr (.body 0) := by
    simp only [mqueueInit, System.answer, System.goto, System.curr, System.withKernel,
      System.setMqueue, curr₁, curr₂, curr₃]
  refine task_step_ok c body whole ctl (by rfl) (by simp [role]) rfl
    ⟨by simp, sems, Or.inl rfl, Or.inl rfl⟩ (queue_data rfl rfl ?_ rfl)
  intro p ne
  refine ⟨?_, rfl, rfl⟩
  simp only [mqueueInit, System.answer, System.goto, System.withKernel, System.setMqueue,
    Function.update_of_ne ne]

theorem call_ok (c : Conserved s) {code : Int} (body : s.ctl s.curr = .body code) {call' : Call N}
    (permitted : Permitted s (.call call')) (run : call s call' = .ok s') :
    StepOk (callClient call') s s' := by
  have user : s.kernel.curr ≠ .dispatcherTask :=
    not_dispatcher c (t := s.curr) (by rw [body]; simp [role])
  have answered : ∀ {me} code', StepOk me s (s.answer code') := fun code' =>
    answer_ok c body rfl (Or.inl rfl) code'
  cases call' with
  | taskInit t stack => exact taskInit_ok c body permitted.1 permitted.2 run
  | taskYield =>
    simp only [call, taskYield] at run
    obtain ⟨k, switched, rfl⟩ := map_ok run
    obtain ⟨k', known, _, _, _, kept⟩ := switch_kept c.placed (Or.inl rfl)
    cases known.symm.trans switched
    exact kernel_call_ok c body rfl kept (by simp) (by simp) (Or.inl rfl)
  | taskSwitch t =>
    cases t with
    | none => cases run
    | some t =>
      simp only [call] at run
      obtain ⟨k, switched, rfl⟩ := map_ok run
      obtain ⟨k', known, _, _, _, kept⟩ := switch_kept c.placed permitted
      cases known.symm.trans switched
      exact kernel_call_ok c body rfl kept (by simp) (by simp) (Or.inl rfl)
  | taskSleep t =>
    obtain ⟨k, slept, rfl⟩ := map_ok run
    obtain ⟨k', known, _, kept⟩ := sleep_kept c.placed user t
    cases known.symm.trans slept
    exact kernel_call_ok c body rfl kept (by simp [queueClient]) (by simp) (Or.inl rfl)
  | taskWait t =>
    obtain ⟨⟨k, r⟩, waited, rfl⟩ := map_ok run
    obtain ⟨k', r', known, _, kept⟩ := wait_kept c.placed user t
    cases known.symm.trans waited
    dsimp only
    split
    · exact kernel_call_ok c body rfl kept (by simp [queueClient]) (by simp) (Or.inl rfl)
    · exact kernel_call_ok c body rfl kept (by simp [queueClient]) (by simp) (Or.inl rfl)
  | taskExit exitCode => exact taskExit_ok c body run
  | taskSetprio t prio =>
    cases run
    have kept : Kept (liveTasks s) [] [] s.kernel (taskSetprio s.kernel t prio) :=
      kept_setTask c.placed _ (fun _ => rfl) fun _ => rfl
    exact kernel_answer_ok c body rfl kept rfl ⟨by simp, by simp, Or.inl rfl, Or.inl rfl⟩
  | semInit n value =>
    cases n with
    | none => cases run; exact answered _
    | some n =>
      cases run
      obtain ⟨kept, _, curr, _⟩ := semInit_kept c.placed (s := .user n) permitted value
      exact kernel_answer_ok c body rfl kept curr
        ⟨by simp, by simp [semClient, callClient], Or.inl rfl, Or.inl rfl⟩
  | semDown n =>
    cases n with
    | none => cases run; exact answered _
    | some n => cases run; exact semDownCall_ok c body n
  | semUp n =>
    cases n with
    | none => cases run; exact answered _
    | some n => cases run; exact semUpCall_ok c body n
  | semDestroy n =>
    cases n with
    | none => cases run; exact answered _
    | some n =>
      obtain ⟨⟨k, r⟩, destroyed, rfl⟩ := map_ok run
      obtain ⟨k', r', known, curr, kept⟩ := semDestroy_kept c.placed (.user n)
      cases known.symm.trans destroyed
      exact kernel_answer_ok c body rfl kept curr
        ⟨by simp [queueClient, semClient, callClient], by simp [semClient, callClient],
          Or.inl rfl, Or.inl rfl⟩
  | mqueueInit q max size =>
    cases q with
    | none => cases run; exact answered _
    | some q => cases run; exact mqueueInit_ok c body permitted
  | mqueueSend q msg =>
    cases run
    cases q with
    | none => exact answered _
    | some q =>
      cases msg with
      | none => exact answered _
      | some a =>
        simp only [mqueueSendCall]
        split
        · exact answered _
        · exact goto_ok c body rfl rfl (Or.inl rfl) (Or.inr rfl)
  | mqueueRecv q msg =>
    cases run
    cases q with
    | none => exact answered _
    | some q =>
      cases msg with
      | none => exact answered _
      | some a =>
        simp only [mqueueRecvCall]
        split
        · exact answered _
        · exact goto_ok c body rfl rfl (Or.inl rfl) (Or.inr rfl)
  | mqueueDestroy q =>
    cases run
    cases q with
    | none => exact answered _
    | some q => exact goto_ok c body rfl rfl (Or.inl rfl) (Or.inr rfl)
  | taskGetprio task =>
    cases run
    exact answered _
  | mqueueMsgs q =>
    cases q with
    | none => cases run
    | some q => cases run; exact answered _
  | diskMgrInit host stack => exact diskMgrInit_ok c body permitted run
  | diskBlockRead block buffer => exact diskBlockOpCall_ok c body run
  | diskBlockWrite block buffer => exact diskBlockOpCall_ok c body run
  | store address byte =>
    cases run
    refine task_step_ok c body (kept_refl c) rfl (by rfl) (by simp [role]) rfl
      ⟨by simp, by simp, Or.inl rfl, Or.inl rfl⟩ fun d _ => ?_
    apply same_data <;> rfl

theorem advance_ok (c : Conserved s) {malloc₁ malloc₂ : Bool}
    (run : advance s malloc₁ malloc₂ = some (.ok s')) :
    StepOk (ctlClient (s.ctl s.curr)) s s' := by
  simp only [advance] at run
  cases here : s.ctl s.curr with
  | unborn => rw [here] at run; cases run
  | terminated => rw [here] at run; cases run
  | body code => rw [here] at run; cases run
  | waitReturn task => rw [here] at run; cases run; exact answer_ok c here rfl (Or.inl rfl) _
  | semDown n point => rw [here] at run; exact semDownStep_ok c here (Option.some.inj run)
  | semUp n point => rw [here] at run; exact semUpStep_ok c here (Option.some.inj run)
  | send q a point => rw [here] at run; exact mqueueSendStep_ok c here (Option.some.inj run)
  | recv q a point => rw [here] at run; exact mqueueRecvStep_ok c here (Option.some.inj run)
  | destroy q point => rw [here] at run; exact mqueueDestroyStep_ok c here (Option.some.inj run)
  | blockOp block buffer op point =>
    rw [here] at run; exact diskBlockOpStep_ok c here (Option.some.inj run)
  | driver point => rw [here] at run; exact diskDriverStep_ok c here (Option.some.inj run)
  | dispatcher point => rw [here] at run; exact dispatcherStep_ok c here (Option.some.inj run)

theorem step_kept (c : Conserved s) {l : Label N} (permitted : Permitted s l)
    (run : step s l = some (.ok s')) : StepOk (client s l) s s' := by
  cases l with
  | tick => exact tick_ok c run
  | completion =>
    obtain ⟨op, handled⟩ := completion_runs run
    exact diskSighandle_ok c handled
  | call call' =>
    obtain ⟨code, body, run⟩ := call_runs run
    exact call_ok c body permitted run
  | run malloc₁ malloc₂ => exact advance_ok c run

end Steps

section Accounts

/-- The sum over all tasks of a share that depends on where the task is. -/
def total (w : Ctl N → Int) (s : System N) : Int := tally (fun _ => w) s.ctl

theorem total_update {s s' : System N} {t : Tcb N} {new : Ctl N} (w : Ctl N → Int)
    (ctl : s'.ctl = Function.update s.ctl t new) :
    total w s' = total w s - w (s.ctl t) + w new := by
  rw [total, ctl, tally_update]
  rfl

theorem total_framed {s s' : System N} {me : Client} {w : Ctl N → Int}
    (off : ∀ c, ctlClient c ≠ me → w c = 0) (framed : Framed me s s') :
    total w s' = total w s := by
  refine tally_congr fun t => ?_
  rcases framed.ctl t with same | ⟨before, after⟩
  · rw [same]
  · rw [off _ before, off _ after]

end Accounts

end SystemFrames
