import PingPong.KernelActs
import PingPong.StepViews

/-!
What the kernel records about a task besides its place: id, exit code, priorities, times and
activations, with the counter the ids come from, the clock, and the lines of task_exit. Queues,
semaphores and messages have no part in them, so a step of the system enters one of a few things.
-/
namespace TaskRecords
open MachineModel CircularList QueueModel KernelModel KernelEffects TaskPlacement SystemModel
open SystemFrames TaskConservation KernelActs KernelViews StepViews
variable {N : Type} [DecidableEq N]

section Records

structure Record where
  id : Int
  exitCode : Int
  dynamicPriority : Int
  staticPriority : Int
  executionTime : UInt32
  activations : UInt32
  deriving DecidableEq

def recordOf (d : Task) : Record :=
  ⟨d.id, d.exitCode, d.dynamicPriority, d.staticPriority, d.executionTime, d.activations⟩

structure Registry (N : Type) where
  record : Tcb N → Record
  lastTaskId : UInt64
  sysclock : UInt32
  stdout : List ExitReport

def registry (k : Kernel N) : Registry N :=
  ⟨fun t => recordOf (k.task t), k.lastTaskId, k.sysclock, k.stdout⟩

namespace Registry

def set (r : Registry N) (t : Tcb N) (f : Record → Record) : Registry N :=
  { r with record := Function.update r.record t (f (r.record t)) }

def tick (r : Registry N) : Registry N := { r with sysclock := r.sysclock + 1 }

def begins (r : Registry N) (t : Tcb N) : Registry N :=
  { r.set t fun _ => recordOf (initialTask (idOf (r.lastTaskId + 1)) r.sysclock) with
    lastTaskId := r.lastTaskId + 1 }

def reprioritised (r : Registry N) (t : Tcb N) (prio : Int) : Registry N :=
  r.set t fun d => { d with staticPriority := toShort prio, dynamicPriority := toShort prio }

/-- The life of the task ends now; time is what the line says of its processor time. -/
def ends (r : Registry N) (t : Tcb N) (exitCode : Int) (time : UInt32) : Registry N :=
  { r.set t fun d =>
      { d with executionTime := r.sysclock - d.executionTime, exitCode := exitCode } with
    stdout := r.stdout ++ [⟨(r.record t).id, r.sysclock - (r.record t).executionTime, time,
      (r.record t).activations⟩] }

def scheduled (r : Registry N) (ready : List (Tcb N)) (next : Tcb N) : Registry N :=
  { r with record := fun t =>
      if t = next then { r.record t with dynamicPriority := (r.record t).staticPriority }
      else if t ∈ ready then
        { r.record t with dynamicPriority := toShort ((r.record t).dynamicPriority + alpha) }
      else r.record t }

def turn (r : Registry N) (next : Tcb N) : Registry N :=
  (r.set .dispatcherTask fun d => { d with activations := d.activations + 1 }).set next
    fun d => { d with activations := d.activations + 1 }

end Registry

variable {k j k' : Kernel N}

theorem registry_setTask (k : Kernel N) (t : Tcb N) {f : Task → Task} {g : Record → Record}
    (entry : recordOf (f (k.task t)) = g (recordOf (k.task t))) :
    registry (k.setTask t f) = (registry k).set t g := by
  simp only [registry, Registry.set, Kernel.setTask, Registry.mk.injEq, and_true]
  funext a
  by_cases same : a = t
  · subst same
    simp [entry]
  · simp [same]

/-- An assignment to a field that is not recorded. -/
theorem registry_kept (k : Kernel N) (t : Tcb N) {f : Task → Task}
    (keeps : ∀ d, recordOf (f d) = recordOf d) : registry (k.setTask t f) = registry k :=
  congrArg (fun record : Tcb N → Record => Registry.mk record k.lastTaskId k.sysclock k.stdout)
    (setTask_field k t keeps)

theorem registry_apart : Apart (registry : Kernel N → Registry N) :=
  ⟨⟨fun _ _ => rfl, fun k t _ schedules => registry_kept k t fun d => by rw [schedules d]; rfl⟩,
   fun _ _ => rfl, fun _ _ => rfl⟩

theorem tick_entry (run : interruptionHandler k = .ok k') :
    registry k' = (registry k).tick := by
  simp only [interruptionHandler] at run
  have counted := registry_kept { k with sysclock := k.sysclock + 1 } k.curr
    (f := fun d => { d with quantum := toInt (d.quantum + 1) }) fun _ => rfl
  split at run
  · refine (switch_apart registry_apart run).trans (Eq.trans ?_ counted)
    exact registry_kept _ k.curr (f := fun d => { d with quantum := 0 }) fun _ => rfl
  · cases run
    exact counted

theorem init_entry {t : Tcb N} {stack : Bool} {id : Int}
    (run : taskInit k t stack = .ok (k', id)) : registry k' = (registry k).begins t := by
  simp only [taskInit] at run
  split at run
  · cases run
  · obtain ⟨⟨m, code⟩, -, run⟩ := bind_ok run
    cases run
    have task : ∀ a, recordOf (Function.update k.task t
        (initialTask (idOf (k.lastTaskId + 1)) (systime k)) a) =
        (Function.update (fun u => recordOf (k.task u)) t
          (recordOf (initialTask (idOf (k.lastTaskId + 1)) (systime k)))) a := by
      intro a
      by_cases same : a = t
      · subst same
        simp
      · simp [same]
    split
    · exact congrArg (fun table : Tcb N → Record =>
        Registry.mk table (k.lastTaskId + 1) k.sysclock k.stdout) (funext task)
    · exact congrArg (fun table : Tcb N → Record =>
        Registry.mk table (k.lastTaskId + 1) k.sysclock k.stdout) (funext task)

variable [Fintype N]

theorem scheduler_entry {live : Tcb N → Bool} (p : Placed live k) {next : Tcb N}
    (run : scheduler k = .ok (some next, k')) :
    FirstLeast (fun t => (k.task t).dynamicPriority) (tasks k .readyTasks) next ∧
      registry k' = (registry k).scheduled (tasks k .readyTasks) next ∧
      k'.queues = k.queues := by
  by_cases empty : tasks k .readyTasks = []
  · rw [scheduler_empty p.wellFormed empty] at run
    cases run
  · obtain ⟨c, least, picked⟩ := scheduler_spec p.wellFormed empty
    rw [picked] at run
    cases run
    refine ⟨least, ?_, rfl⟩
    simp only [registry, Registry.scheduled, Registry.mk.injEq, and_true]
    funext t
    simp only [agedTasks]
    split
    · rfl
    · split
      · rfl
      · rfl

theorem scheduler_idle {live : Tcb N → Bool} (p : Placed live k)
    (run : scheduler k = .ok (none, k')) : tasks k .readyTasks = [] ∧ k' = k := by
  by_cases empty : tasks k .readyTasks = []
  · rw [scheduler_empty p.wellFormed empty] at run
    cases run
    exact ⟨empty, rfl⟩
  · obtain ⟨c, -, picked⟩ := scheduler_spec p.wellFormed empty
    rw [picked] at run
    cases run

theorem exit_entry {code : Int} (run : taskExit k code = .ok k') :
    ∃ time, registry k' = (registry k).ends k.curr code time := by
  obtain ⟨j, resumed, run⟩ := bind_ok run
  have woken := resumeWhere_blind registry_apart.toBlind (fun _ => rfl) resumed
  split at run
  · cases run
  · obtain ⟨⟨m, code'⟩, -, run⟩ := bind_ok run
    cases run
    refine ⟨(k.task k.curr).processorTime, Eq.trans woken ?_⟩
    simp only [registry, Registry.ends, Registry.set, Kernel.setStatus, Kernel.setTask,
      Registry.mk.injEq, true_and]
    refine ⟨?_, ?_⟩
    · funext t
      by_cases own : t = k.curr
      · subst own
        simp [recordOf, systime]
      · simp [own]
    · simp [recordOf, systime]

end Records

section Steps

/-- What a step means for the records of the tasks. -/
inductive Event (N : Type) where
  | none
  | tick
  | priority (t : Tcb N) (prio : Int)
  | begins (t : Tcb N)
  | ends (t : Tcb N) (exitCode : Int)
  | schedule (next : Tcb N)
  | turn (next : Tcb N)

/-- disk_mgr_init has started the driver if that is at another point afterwards; what the
    scheduler has returned, if it was not NULL, is a local variable of the dispatcher. -/
def event (s s' : System N) : Label N → Event N
  | .tick => .tick
  | .call (.taskSetprio task prio) => .priority (task.getD s.curr) prio
  | .call (.taskInit t _) => .begins t
  | .call (.diskMgrInit _ _) =>
    if s'.ctl .diskDriverTask = s.ctl .diskDriverTask then .none else .begins .diskDriverTask
  | .call (.taskExit code) => .ends s.curr code
  | .run _ _ => match s.ctl s.curr, s'.ctl .dispatcherTask with
      | .dispatcher (.schedule _), .dispatcher (.dispatch _ next) => .schedule next
      | .dispatcher (.dispatch _ next), _ => .turn next
      | _, _ => .none
  | _ => .none

variable [Fintype N] {s s' : System N}

/-- All that a step of the system writes into the records. -/
inductive Entry (s s' : System N) : Event N → Prop where
  | none (same : registry s'.kernel = registry s.kernel) : Entry s s' .none
  | priority (t : Tcb N) (prio : Int)
      (set : registry s'.kernel = (registry s.kernel).reprioritised t prio) :
      Entry s s' (.priority t prio)
  | schedule (next : Tcb N)
      (least : FirstLeast (fun t => (s.kernel.task t).dynamicPriority)
        (tasks s.kernel .readyTasks) next)
      (aged : registry s'.kernel =
        (registry s.kernel).scheduled (tasks s.kernel .readyTasks) next) :
      Entry s s' (.schedule next)
  | tick (passed : registry s'.kernel = (registry s.kernel).tick) : Entry s s' .tick
  | begins (t : Tcb N) (dead : live (s.ctl t) = false)
      (fresh : registry s'.kernel = (registry s.kernel).begins t) : Entry s s' (.begins t)
  | ends (code : Int) (time : UInt32) (user : s.curr ≠ .dispatcherTask)
      (program : s.curr ≠ .diskDriverTask)
      (printed : registry s'.kernel = (registry s.kernel).ends s.curr code time) :
      Entry s s' (.ends s.curr code)
  | turn (next : Tcb N) (user : next ≠ .dispatcherTask)
      (counted : registry s'.kernel = (registry s.kernel).turn next) :
      Entry s s' (.turn next)

/-- The dispatcher enters what the scheduler does to the priorities and each turn it gives. -/
theorem dispatcher_entry (c : Conserved s) {point : DispatcherPoint N}
    (here : s.ctl s.curr = .dispatcher point) (run : dispatcherStep s point = .ok s')
    {m₁ m₂ : Bool} : Entry s s' (event s s' (.run m₁ m₂)) := by
  have idle : s.curr = .dispatcherTask := (c.dispatcherRole _).mp (by rw [here]; rfl)
  simp only [event, here]
  cases point with
  | top =>
    simp only [dispatcherStep] at run
    split at run
    · cases run
      exact .none rfl
    · obtain ⟨k, ended, -⟩ := map_ok run
      rw [taskExit_dispatcher c.placed idle c.dispatcherId] at ended
      cases ended
  | wake start =>
    obtain ⟨k, woken, rfl⟩ := map_ok run
    exact .none (wake_blind registry_apart.toBlind woken)
  | schedule start =>
    obtain ⟨⟨next, k⟩, picked, same⟩ := map_ok run
    dsimp only at same
    cases next with
    | none =>
      subst same
      obtain ⟨-, rfl⟩ := scheduler_idle c.placed picked
      exact .none (registry_kept _ .dispatcherTask
        (f := fun d => { d with processorTime := d.processorTime + _ }) fun _ => rfl)
    | some next =>
      subst same
      obtain ⟨least, aged, -⟩ := scheduler_entry c.placed picked
      exact .schedule next least aged
  | dispatch start next =>
    simp only [dispatcherStep] at run
    obtain ⟨k, switched, rfl⟩ := map_ok run
    have ready := (c.chosen start next (idle ▸ here)).2
    have user := ((c.placed.queued next).mp ⟨_, ready⟩).2
    refine .turn next user ((switch_apart registry_apart switched).trans ?_)
    have own := registry_setTask s.kernel .dispatcherTask
      (f := fun d => { d with activations := d.activations + 1 })
      (g := fun d => { d with activations := d.activations + 1 }) rfl
    have other := registry_setTask (s.kernel.setTask .dispatcherTask fun d =>
        { d with activations := d.activations + 1 }) next
      (f := fun d => { d with activations := d.activations + 1 })
      (g := fun d => { d with activations := d.activations + 1 }) rfl
    rw [own] at other
    refine Eq.trans ?_ other
    refine Eq.trans (registry_kept _ next (f := fun d => { d with quantum := 0 })
      fun _ => rfl) ?_
    exact registry_kept _ .dispatcherTask
      (f := fun d => { d with processorTime := d.processorTime + _ }) fun _ => rfl
  | back next start =>
    cases run
    refine .none (Eq.trans (registry_kept _ .dispatcherTask
      (f := fun d => { d with processorTime := d.processorTime + _ }) fun _ => rfl) ?_)
    exact registry_kept s.kernel next
      (f := fun d => { d with processorTime := d.processorTime + _ }) fun _ => rfl

theorem advance_entry (c : Conserved s) {m₁ m₂ : Bool} (run : advance s m₁ m₂ = some (.ok s')) :
    Entry s s' (event s s' (.run m₁ m₂)) := by
  by_cases loop : ∃ point, s.ctl s.curr = .dispatcher point
  · obtain ⟨point, here⟩ := loop
    simp only [advance, here, Option.some.injEq] at run
    exact dispatcher_entry c here run
  · have same := advance_apart registry_apart (fun point here => loop ⟨point, here⟩) run
    have silent : event s s' (.run m₁ m₂) = .none := by
      simp only [event]
      split
      · rename_i here _
        exact absurd ⟨_, here⟩ loop
      · rename_i here
        exact absurd ⟨_, here⟩ loop
      · rfl
    rw [silent]
    exact .none same

/-- disk_mgr_init begins the driver, or enters nothing. -/
theorem manager_entry {host stack : Bool} (c : Conserved s)
    (permitted : Permitted s (.call (.diskMgrInit host stack))) {r : Int}
    (body : s.ctl s.curr = .body r) (run : diskMgrInit s host stack = .ok s') :
    Entry s s' (event s s' (.call (.diskMgrInit host stack))) := by
  have other := body_not_driver c body
  simp only [diskMgrInit] at run
  split at run
  · have after := Except.ok.inj run
    have same : s'.ctl .diskDriverTask = s.ctl .diskDriverTask := by
      rw [← after]
      exact Function.update_of_ne other.symm _ _
    simp only [event, same, if_true]
    refine .none ?_
    rw [← after]
    rfl
  · rename_i fresh
    split at run
    · cases run
    · split at run
      · have after := Except.ok.inj run
        have same : s'.ctl .diskDriverTask = s.ctl .diskDriverTask := by
          rw [← after]
          exact Function.update_of_ne other.symm _ _
        simp only [event, same, if_true]
        refine .none ?_
        rw [← after]
        rfl
      · obtain ⟨⟨k, id⟩, started, after⟩ := map_ok run
        have unknown : s.device.status = .unknown := by
          by_contra known
          exact fresh (by simp [diskInit, known])
        have dead := (permitted unknown).1
        have curr := init_curr started
        obtain ⟨kernel, code, ctl⟩ : s'.kernel = k ∧ ∃ code, s'.ctl = Function.update
            (Function.update s.ctl .diskDriverTask (.driver .down)) k.curr (.body code) := by
          dsimp only at after
          split at after
          · rw [← after]
            exact ⟨rfl, _, rfl⟩
          · rw [← after]
            exact ⟨rfl, _, rfl⟩
        have driver : s'.ctl .diskDriverTask = .driver .down := by
          rw [ctl, curr]
          exact (Function.update_of_ne other.symm _ _).trans (Function.update_self ..)
        have moved : s'.ctl .diskDriverTask ≠ s.ctl .diskDriverTask := by
          intro same
          rw [← same, driver] at dead
          cases dead
        simp only [event, moved, if_false]
        refine .begins _ dead ?_
        rw [kernel, init_entry started]
        rfl

theorem call_entry (c : Conserved s) {call' : Call N} {r : Int} (body : s.ctl s.curr = .body r)
    (permitted : Permitted s (.call call')) (run : call s call' = .ok s') :
    Entry s s' (event s s' (.call call')) := by
  cases call' with
  | taskInit t stack =>
    obtain ⟨⟨k, id⟩, started, rfl⟩ := map_ok run
    exact .begins t permitted.1 (init_entry started)
  | diskMgrInit host stack => exact manager_entry c permitted body run
  | taskExit code =>
    obtain ⟨k, ended, rfl⟩ := map_ok run
    obtain ⟨time, printed⟩ := exit_entry ended
    exact .ends code time (body_user c body) (body_not_driver c body) printed
  | taskSetprio t prio =>
    cases run
    exact .priority (t.getD s.kernel.curr) prio (registry_setTask s.kernel (t.getD s.kernel.curr)
      (f := fun d => { d with staticPriority := toShort prio, dynamicPriority := toShort prio })
      (g := fun d => { d with staticPriority := toShort prio, dynamicPriority := toShort prio })
      rfl)
  | _ => exact .none (call_apart registry_apart (by simp) (by simp) (by simp) (by simp) run)

theorem step_entry (c : Conserved s) {l : Label N} (go : Operates s l s') :
    Entry s s' (event s s' l) := by
  obtain ⟨next, permitted⟩ := go
  cases l with
  | tick =>
    obtain ⟨k, handled, rfl⟩ := map_ok (Option.some.inj next)
    exact .tick (tick_entry handled)
  | completion => exact .none (completion_apart registry_apart next)
  | call c' =>
    obtain ⟨r, body, run⟩ := call_runs next
    exact call_entry c body permitted run
  | run m₁ m₂ => exact advance_entry c next

/-- Who is alive after the event. -/
def Event.living (alive : Tcb N → Bool) : Event N → Tcb N → Bool
  | .begins t => Function.update alive t true
  | .ends t _ => Function.update alive t false
  | _ => alive

omit [Fintype N] in
theorem goto_living {t : Tcb N} {new : Ctl N} (alive : live (s.ctl t) = true)
    (still : live new = true) (ctl : s'.ctl = Function.update s.ctl t new) :
    liveTasks s' = liveTasks s := by
  funext a
  simp only [liveTasks, ctl]
  by_cases own : a = t
  · subst own
    rw [Function.update_self, alive, still]
  · rw [Function.update_of_ne own]

omit [Fintype N] in
/-- The running task brings another one to life. -/
theorem begun_living {t : Tcb N} {new own : Ctl N} (alive : live (s.ctl s.curr) = true)
    (still : live own = true) (begun : live new = true) (apart : s.curr ≠ t)
    (ctl : s'.ctl = Function.update (Function.update s.ctl t new) s.curr own) :
    liveTasks s' = Function.update (liveTasks s) t true := by
  funext a
  simp only [liveTasks, ctl]
  by_cases mine : a = s.curr
  · subst mine
    rw [Function.update_self, Function.update_of_ne apart, still]
    exact alive.symm
  · rw [Function.update_of_ne mine]
    by_cases same : a = t
    · subst same
      rw [Function.update_self, Function.update_self, begun]
    · rw [Function.update_of_ne same, Function.update_of_ne same]

theorem dispatcher_living (c : Conserved s) {point : DispatcherPoint N}
    (here : s.ctl s.curr = .dispatcher point) (run : dispatcherStep s point = .ok s') :
    liveTasks s' = liveTasks s := by
  have idle : s.curr = .dispatcherTask := (c.dispatcherRole _).mp (by rw [here]; rfl)
  have alive : live (s.ctl .dispatcherTask) = true := c.placed.dispatcher
  suffices moved : ∃ new, live new = true ∧ s'.ctl = Function.update s.ctl .dispatcherTask new by
    obtain ⟨new, still, ctl⟩ := moved
    exact goto_living alive still ctl
  cases point with
  | top =>
    simp only [dispatcherStep] at run
    split at run
    · cases run
      exact ⟨_, rfl, rfl⟩
    · obtain ⟨k, ended, -⟩ := map_ok run
      rw [taskExit_dispatcher c.placed idle c.dispatcherId] at ended
      cases ended
  | wake start =>
    obtain ⟨k, woken, rfl⟩ := map_ok run
    exact ⟨_, rfl, rfl⟩
  | schedule start =>
    obtain ⟨⟨next, k⟩, picked, same⟩ := map_ok run
    cases next with
    | none =>
      subst same
      exact ⟨_, rfl, rfl⟩
    | some next =>
      subst same
      exact ⟨_, rfl, rfl⟩
  | dispatch start next =>
    simp only [dispatcherStep] at run
    obtain ⟨k, switched, rfl⟩ := map_ok run
    exact ⟨_, rfl, rfl⟩
  | back next start =>
    cases run
    exact ⟨_, rfl, rfl⟩

theorem run_living (c : Conserved s) {m₁ m₂ : Bool} (next : advance s m₁ m₂ = some (.ok s')) :
    liveTasks s' = liveTasks s := by
  have alive : live (s.ctl s.curr) = true := current_live c.placed
  by_cases loop : ∃ point, s.ctl s.curr = .dispatcher point
  · obtain ⟨point, here⟩ := loop
    simp only [advance, here] at next
    exact dispatcher_living c here (Option.some.inj next)
  · by_cases wakes : ∃ block buffer op, s.ctl s.curr = .blockOp block buffer op .resume
    · obtain ⟨block, buffer, op, here⟩ := wakes
      simp only [advance, here, Option.some.injEq] at next
      exact goto_living alive rfl (wake_driver next).2
    · obtain ⟨-, new, still, ctl⟩ := advance_acts alive (fun point here => loop ⟨point, here⟩)
        (fun block buffer op here => wakes ⟨block, buffer, op, here⟩) next
      exact goto_living alive still ctl

omit [Fintype N] in
theorem event_run (m₁ m₂ : Bool) (alive : Tcb N → Bool) :
    (event s s' (.run m₁ m₂)).living alive = alive := by
  simp only [event]
  split
  · rfl
  · rfl
  · rfl

theorem call_living (c : Conserved s) {call' : Call N} {r : Int} (body : s.ctl s.curr = .body r)
    (permitted : Permitted s (.call call')) (run : call s call' = .ok s') :
    liveTasks s' = (event s s' (.call call')).living (liveTasks s) := by
  have alive : live (s.ctl s.curr) = true := current_live c.placed
  cases call' with
  | taskInit t stack =>
    obtain ⟨⟨k, id⟩, started, rfl⟩ := map_ok run
    refine begun_living alive rfl rfl ?_ rfl
    intro same
    have dead := permitted.1
    rw [← same, alive] at dead
    cases dead
  | diskMgrInit host stack =>
    rcases manager_acts c.placed permitted run with ⟨-, new, still, ctl⟩ |
      ⟨unknown, j, id, quiet, started, code, ctl⟩
    · have same : s'.ctl .diskDriverTask = s.ctl .diskDriverTask := by
        rw [ctl]
        exact Function.update_of_ne (body_not_driver c body).symm _ _
      simp only [event, same, if_true]
      exact goto_living alive still ctl
    · have dead := (permitted unknown).1
      have moved : s'.ctl .diskDriverTask ≠ s.ctl .diskDriverTask := by
        intro same
        rw [ctl, Function.update_of_ne (body_not_driver c body).symm, Function.update_self] at same
        rw [← same] at dead
        cases dead
      simp only [event, moved, if_false]
      exact begun_living alive rfl rfl (body_not_driver c body) ctl
  | taskExit code =>
    obtain ⟨k, ended, rfl⟩ := map_ok run
    funext a
    simp only [event, Event.living, liveTasks]
    by_cases own : a = s.curr
    · subst own
      rw [Function.update_self]
      simp [live]
    · rw [Function.update_of_ne own]
      simp [own]
  | taskYield =>
    simp only [call, taskYield] at run
    obtain ⟨k, switched, rfl⟩ := map_ok run
    exact goto_living alive rfl rfl
  | taskSwitch t =>
    obtain ⟨k, switched, rfl⟩ := map_ok run
    exact goto_living alive rfl rfl
  | taskSleep | taskWait | taskSetprio | taskGetprio | semInit | semDown | semUp | semDestroy
  | mqueueInit | mqueueSend | mqueueRecv | mqueueDestroy | mqueueMsgs | diskBlockRead
  | diskBlockWrite | store =>
    obtain ⟨-, new, still, ctl⟩ := call_acts c.placed permitted (by simp) (by simp) (by simp)
      (by simp) (by simp) run
    exact goto_living alive still ctl

theorem step_living (c : Conserved s) {l : Label N} (go : Operates s l s') :
    liveTasks s' = (event s s' l).living (liveTasks s) := by
  obtain ⟨next, permitted⟩ := go
  cases l with
  | tick =>
    obtain ⟨k, handled, rfl⟩ := map_ok (Option.some.inj next)
    rfl
  | completion =>
    obtain ⟨op, run⟩ := completion_runs next
    obtain ⟨-, -, ctl, -⟩ := sighandle_returns run
    funext a
    exact congrArg live (congrFun ctl a)
  | call c' =>
    obtain ⟨r, body, run⟩ := call_runs next
    exact call_living c body permitted run
  | run m₁ m₂ => exact (run_living c next).trans (event_run m₁ m₂ _).symm

end Steps
end TaskRecords
