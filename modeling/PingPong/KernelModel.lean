import PingPong.QueueModel
import Mathlib.Data.Fintype.Sum
import Mathlib.Tactic.DeriveFintype

/-! core/ppos_data.h and the operations of core/ppos_core.c on task descriptors,
   task queues and semaphores. Each operation is written as it runs when nothing
   interrupts it; the saved context of a task is not part of this state. -/
namespace KernelModel
open MachineModel CircularList QueueModel

def mainPid : Int := 0
def dispatcherPid : Int := -1
def defaultPriority : Int := 0
def maxPriority : Int := -20
def alpha : Int := -1
def quantumLimit : Int := 10

def stackCreationError : Int := 2
def nullPtrError : Int := 3

inductive TaskState where
  | ready
  | running
  | suspended
  | terminated
  deriving DecidableEq, Repr

structure Task where
  id : Int
  status : TaskState
  quantum : Int
  exitCode : Int
  dynamicPriority : Int
  staticPriority : Int
  executionTime : UInt32
  processorTime : UInt32
  activations : UInt32
  waitingTask : Int
  wakeUpTime : UInt32
  deriving DecidableEq, Repr

/-- The three descriptors of the kernel and those of the program. -/
inductive Tcb (N : Type) where
  | mainTask
  | dispatcherTask
  | diskDriverTask
  | user (n : N)
  deriving DecidableEq, Fintype, Repr

instance {N : Type} [DecidableEq N] : LawfulBEq (Tcb N) := inferInstance

/-- A semaphore of the program, one of the three inside a message queue, or that of the disk
    manager. -/
inductive SemAddr where
  | user (n : Nat)
  | sBuffer (queue : Nat)
  | sItem (queue : Nat)
  | sVaga (queue : Nat)
  | semDisk
  deriving DecidableEq, Repr

inductive TaskQueue where
  | readyTasks
  | sleepingTasks
  | suspendedTasks
  | semQueue (s : SemAddr)
  | diskQueue
  deriving DecidableEq, Repr

structure Semaphore where
  value : Int
  lock : Int
  active : Int
  deriving DecidableEq, Repr

/-- One line printed by task_exit. -/
structure ExitReport where
  id : Int
  executionTime : UInt32
  processorTime : UInt32
  activations : UInt32
  deriving DecidableEq, Repr

structure Kernel (N : Type) where
  queues : Queues TaskQueue (Tcb N)
  task : Tcb N → Task
  sem : SemAddr → Semaphore
  curr : Tcb N
  lastTaskId : UInt64
  userTasksNum : Int
  sysclock : UInt32
  stdout : List ExitReport

variable {N : Type} [DecidableEq N]

namespace Kernel

def setTask (k : Kernel N) (t : Tcb N) (f : Task → Task) : Kernel N :=
  { k with task := Function.update k.task t (f (k.task t)) }

def setSem (k : Kernel N) (s : SemAddr) (f : Semaphore → Semaphore) : Kernel N :=
  { k with sem := Function.update k.sem s (f (k.sem s)) }

def setStatus (k : Kernel N) (t : Tcb N) (status : TaskState) : Kernel N :=
  k.setTask t fun d => { d with status := status }

section Fields
omit [DecidableEq N]

@[simp] theorem setSem_same (k : Kernel N) (s : SemAddr) (f : Semaphore → Semaphore) :
    (k.setSem s f).sem s = f (k.sem s) := by simp [setSem]

@[simp] theorem setSem_queues (k : Kernel N) (s : SemAddr) (f : Semaphore → Semaphore) :
    (k.setSem s f).queues = k.queues := rfl

@[simp] theorem setSem_curr (k : Kernel N) (s : SemAddr) (f : Semaphore → Semaphore) :
    (k.setSem s f).curr = k.curr := rfl

end Fields

end Kernel

def systime (k : Kernel N) : UInt32 := k.sysclock

def taskId (k : Kernel N) : Int := (k.task k.curr).id

/-- The switch ends where swapcontext starts the other context. -/
def taskSwitch (k : Kernel N) (task : Option (Tcb N)) : Except Halt (Kernel N) :=
  match task with
  | none => .error (.exit nullPtrError)
  | some t => .ok { (k.setStatus k.curr .suspended).setStatus t .running with curr := t }

def taskYield (k : Kernel N) : Except Halt (Kernel N) := taskSwitch k (some .dispatcherTask)

def interruptionHandler (k : Kernel N) : Except Halt (Kernel N) :=
  let k := { k with sysclock := k.sysclock + 1 }
  let k := k.setTask k.curr fun d => { d with quantum := toInt (d.quantum + 1) }
  if (k.task k.curr).quantum = quantumLimit then
    taskYield (k.setTask k.curr fun d => { d with quantum := 0 })
  else .ok k

def taskSetprio (k : Kernel N) (task : Option (Tcb N)) (prio : Int) : Kernel N :=
  k.setTask (task.getD k.curr) fun d =>
    { d with staticPriority := toShort prio, dynamicPriority := toShort prio }

def taskGetprio (k : Kernel N) (task : Option (Tcb N)) : Int :=
  (k.task (task.getD k.curr)).staticPriority

/-- The value of last_task_id as the int id of a task. -/
def idOf (lastTaskId : UInt64) : Int := toInt lastTaskId.toNat

def initialTask (id : Int) (now : UInt32) : Task :=
  { id := id, status := .ready, quantum := 0, exitCode := 0,
    dynamicPriority := defaultPriority, staticPriority := defaultPriority,
    executionTime := now, processorTime := 0, activations := 0, waitingTask := -1,
    wakeUpTime := 0 }

/-- user_tasks_num is decremented again for the disk driver, recognised by its id. -/
def taskInit (k : Kernel N) (t : Tcb N) (stack : Bool) : Except Halt (Kernel N × Int) :=
  if stack = false then .error (.exit stackCreationError)
  else do
    let lastTaskId := k.lastTaskId + 1
    let k := { k with lastTaskId := lastTaskId }
    let k := k.setTask t fun _ => initialTask (idOf lastTaskId) (systime k)
    let cleared : Queues TaskQueue (Tcb N) :=
      ⟨k.queues.head, Function.update k.queues.link t Links.free⟩
    let (queues, _) ← queueAppend cleared (some .readyTasks) (some t)
    let k := { k with queues := queues, userTasksNum := toInt (k.userTasksNum + 1) }
    let k := if (k.task t).id = (k.task .diskDriverTask).id
      then { k with userTasksNum := toInt (k.userTasksNum - 1) } else k
    .ok (k, (k.task t).id)

/-- Static storage before ppos_init; curr is not read before main_init sets it. -/
def zeroedTask : Task :=
  { id := 0, status := .ready, quantum := 0, exitCode := 0, dynamicPriority := 0,
    staticPriority := 0, executionTime := 0, processorTime := 0, activations := 0,
    waitingTask := 0, wakeUpTime := 0 }

def zeroedKernel : Kernel N :=
  { queues := ⟨fun _ => none, fun _ => Links.free⟩, task := fun _ => zeroedTask,
    sem := fun _ => ⟨0, 0, 0⟩, curr := .mainTask, lastTaskId := 0, userTasksNum := 0,
    sysclock := 0, stdout := [] }

def dispatcherInit (k : Kernel N) (stack : Bool) : Except Halt (Kernel N) :=
  if stack = false then .error (.exit stackCreationError)
  else .ok (k.setTask .dispatcherTask fun d =>
    { d with id := dispatcherPid, status := .running, staticPriority := maxPriority,
             activations := 0, executionTime := systime k, processorTime := 0, exitCode := 0,
             waitingTask := -1, quantum := -intMax })

def mainInit (k : Kernel N) : Except Halt (Kernel N) := do
  let k := k.setTask .mainTask fun d =>
    { d with id := mainPid, status := .ready, staticPriority := defaultPriority,
             dynamicPriority := defaultPriority, activations := 1, executionTime := systime k,
             processorTime := 0, exitCode := 0, waitingTask := -1, quantum := 0 }
  let (queues, _) ← queueAppend k.queues (some .readyTasks) (some .mainTask)
  .ok { k with queues := queues, userTasksNum := toInt (k.userTasksNum + 1), curr := .mainTask }

def pposInit (k : Kernel N) (stack : Bool) : Except Halt (Kernel N) := do
  let k ← dispatcherInit k stack
  let k ← mainInit k
  .ok (k.setTask .diskDriverTask fun d => { d with id := -2 })

/-- enter_cs spins on the lock; alone on the processor it never sees it released. -/
def enterCs (k : Kernel N) (s : SemAddr) : Except Halt (Kernel N) :=
  if (k.sem s).lock ≠ 0 then .error .hang
  else .ok (k.setSem s fun x => { x with lock := 1 })

def leaveCs (k : Kernel N) (s : SemAddr) : Kernel N :=
  k.setSem s fun x => { x with lock := 0 }

def semInit (k : Kernel N) (s : Option SemAddr) (value : Int) : Kernel N × Int :=
  match s with
  | none => (k, -1)
  | some s =>
    let k := k.setSem s fun x => { x with value := value }
    let k := { k with queues := ⟨Function.update k.queues.head (.semQueue s) none, k.queues.link⟩ }
    (k.setSem s fun x => { x with active := 1 }, 0)

section Walking
variable [Fintype N]

def taskSuspend (k : Kernel N) (queue : Option TaskQueue) : Except Halt (Kernel N) :=
  match queue with
  | none => .error (.exit nullPtrError)
  | some q => do
      let (queues, _) ← queueRemove k.queues (some .readyTasks) (some k.curr)
      let k := { k with queues := queues }.setStatus k.curr .suspended
      let (queues, _) ← queueAppend k.queues (some q) (some k.curr)
      taskSwitch { k with queues := queues } (some .dispatcherTask)

def taskResume (k : Kernel N) (task : Option (Tcb N)) (queue : Option TaskQueue) :
    Except Halt (Kernel N) :=
  match task, queue with
  | some t, some q => do
      let (queues, _) ← queueRemove k.queues (some q) (some t)
      let k := { k with queues := queues }.setStatus t .ready
      let (queues, _) ← queueAppend k.queues (some .readyTasks) (some t)
      .ok { k with queues := queues }
  | _, _ => .error (.exit nullPtrError)

/-- The traversal shared by scheduler, wake_tasks and task_exit: while (aux && (aux != queue->prev))
    { next = aux->next; body; aux = next; } if (aux) body; The head of the queue is read again at
    every test. The bodies of the scheduler write no link, so there it does not matter that next is
    read after the body. -/
def sweep {σ : Type} (kernel : σ → Kernel N) (q : TaskQueue)
    (body : Tcb N → σ → Except Halt σ) : Nat → Option (Tcb N) → σ → Except Halt σ
  | _, none, s => .ok s
  | fuel, some aux, s =>
    match (kernel s).queues.head q with
    | none => .error .fault
    | some first =>
      if some aux = ((kernel s).queues.link first).prev then body aux s
      else match fuel with
        | 0 => .error .hang
        | fuel + 1 =>
          match body aux s with
          | .error halt => .error halt
          | .ok s' => sweep kernel q body fuel ((kernel s).queues.link aux).next s'

def betterTask (k : Kernel N) (aux next : Tcb N) : Tcb N :=
  if (k.task aux).dynamicPriority < (k.task next).dynamicPriority then aux else next

def ageTask (k : Kernel N) (aux : Tcb N) : Kernel N :=
  k.setTask aux fun d => { d with dynamicPriority := toShort (d.dynamicPriority + alpha) }

def scheduler (k : Kernel N) : Except Halt (Option (Tcb N) × Kernel N) :=
  match k.queues.head .readyTasks with
  | none => .ok (none, k)
  | some first => do
      let next ← sweep (fun _ => k) .readyTasks
        (fun aux next => .ok (betterTask k aux next)) (Fintype.card (Tcb N)) (some first) first
      let k ← sweep id .readyTasks (fun aux k => .ok (ageTask k aux))
        (Fintype.card (Tcb N)) (some first) k
      .ok (some next, k.setTask next fun d => { d with dynamicPriority := d.staticPriority })

/-- Resume every task of the queue that meets the condition, with an assignment after each
    task_resume. -/
def resumeWhere (k : Kernel N) (q : TaskQueue) (condition : Task → Bool) (after : Task → Task) :
    Except Halt (Kernel N) :=
  sweep id q
    (fun aux k =>
      if condition (k.task aux) then
        match taskResume k (some aux) (some q) with
        | .error halt => .error halt
        | .ok k => .ok (k.setTask aux after)
      else .ok k)
    (Fintype.card (Tcb N)) (k.queues.head q) k

def wakeTasks (k : Kernel N) : Except Halt (Kernel N) :=
  let now := systime k
  resumeWhere k .sleepingTasks (fun d => d.wakeUpTime ≤ now) id

def taskExit (k : Kernel N) (exitCode : Int) : Except Halt (Kernel N) := do
  let prev := k.curr
  let k := k.setStatus prev .terminated
  let k := k.setTask prev fun d => { d with executionTime := systime k - d.executionTime }
  let k := k.setTask prev fun d => { d with exitCode := exitCode }
  let report := k.task prev
  let k := { k with stdout := k.stdout ++
    [⟨report.id, report.executionTime, report.processorTime, report.activations⟩] }
  let k ← resumeWhere k .suspendedTasks (fun d => d.waitingTask = report.id)
    (fun d => { d with waitingTask := -1 })
  if (k.task prev).id = dispatcherPid then .error (.exit 0)
  else
    let (queues, _) ← queueRemove k.queues (some .readyTasks) (some prev)
    .ok { k with queues := queues, userTasksNum := toInt (k.userTasksNum - 1),
                 curr := .dispatcherTask }

/-- A blocking call returns none when it has given up the processor. -/
def taskWait (k : Kernel N) (task : Option (Tcb N)) : Except Halt (Kernel N × Option Int) :=
  match task with
  | none => .ok (k, some (-1))
  | some t =>
    if (k.task t).status = .terminated then .ok (k, some (-1))
    else
      let k := k.setTask k.curr fun d => { d with waitingTask := (k.task t).id }
      (taskSuspend k (some .suspendedTasks)).map fun k => (k, none)

def taskSleep (k : Kernel N) (t : Int) : Except Halt (Kernel N) :=
  let ticks := UInt32.ofNat (t % 4294967296).toNat
  taskSuspend (k.setTask k.curr fun d => { d with wakeUpTime := systime k + ticks })
    (some .sleepingTasks)

def semDown (k : Kernel N) (s : Option SemAddr) : Except Halt (Kernel N × Option Int) :=
  match s with
  | none => .ok (k, some (-1))
  | some s =>
    if (k.sem s).active = 0 then .ok (k, some (-1))
    else do
      let k ← enterCs k s
      let v := toInt ((k.sem s).value - 1)
      let k := leaveCs (k.setSem s fun x => { x with value := v }) s
      if v < 0 then (taskSuspend k (some (.semQueue s))).map fun k => (k, none)
      else .ok (k, some 0)

def semUp (k : Kernel N) (s : Option SemAddr) : Except Halt (Kernel N × Int) :=
  match s with
  | none => .ok (k, -1)
  | some s =>
    if (k.sem s).active = 0 then .ok (k, -1)
    else do
      let k ← enterCs k s
      let v := toInt ((k.sem s).value + 1)
      let k := leaveCs (k.setSem s fun x => { x with value := v }) s
      if v ≤ 0 ∧ k.queues.head (.semQueue s) ≠ none then
        (taskResume k (k.queues.head (.semQueue s)) (some (.semQueue s))).map fun k => (k, 0)
      else .ok (k, 0)

/-- while (s->queue) task_resume(s->queue, &(s->queue)) -/
def drainQueue (q : TaskQueue) : Nat → Kernel N → Except Halt (Kernel N)
  | fuel, k =>
    match k.queues.head q with
    | none => .ok k
    | some t =>
      match fuel with
      | 0 => .error .hang
      | fuel + 1 =>
        match taskResume k (some t) (some q) with
        | .error halt => .error halt
        | .ok k => drainQueue q fuel k

def semDestroy (k : Kernel N) (s : Option SemAddr) : Except Halt (Kernel N × Int) :=
  match s with
  | none => .ok (k, -1)
  | some s =>
    if (k.sem s).active = 0 then .ok (k, -1)
    else
      (drainQueue (.semQueue s) (Fintype.card (Tcb N))
        (k.setSem s fun x => { x with active := 0 })).map fun k => (k, 0)

end Walking

end KernelModel
