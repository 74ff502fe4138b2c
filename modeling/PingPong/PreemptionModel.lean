import PingPong.SystemModel

/-!
The kernel calls as sequences of queue calls and field assignments, each of them
indivisible. The timer may strike between any two, and its handler knows no kernel mode:
when the quantum of curr is used up it saves what was running and gives the processor to
the dispatcher. A context is what is left to execute. Return values are left out, except
where the caller is part of the kernel and tests them.
-/
namespace PreemptionModel
open MachineModel CircularList QueueModel KernelModel SystemModel
variable {N : Type}

structure Memory (N : Type) where
  kernel : Kernel N
  mqueue : Nat → Mqueue
  disk : DiskManager
  device : Device
  ram : Nat → UInt8

/-- An assignment to a field. No queue and no link is written that way, nor is curr. -/
structure Assignment (N : Type) where
  write : Memory N → Memory N
  queues : ∀ m, (write m).kernel.queues = m.kernel.queues
  curr : ∀ m, (write m).kernel.curr = m.kernel.curr

/-- What is left of moving a task from one queue to another: of task_suspend, where the task is curr
    (none), of task_resume, and of the disk's signal handler. -/
inductive Move (N : Type) where
  | assign (a : Assignment N)
  | remove (task : Option (Tcb N)) (source : TaskQueue) (status : TaskState) (target : TaskQueue)
  | mark (task : Option (Tcb N)) (status : TaskState) (target : TaskQueue)
  | append (task : Option (Tcb N)) (target : TaskQueue)

/-- What is left of task_exit after its queue_remove. -/
inductive ExitPoint where
  | uncount
  | handOver
  | swap
  deriving DecidableEq, Repr

structure Exit (N : Type) where
  prev : Tcb N
  point : ExitPoint

/-- The loops, with the local variables they carry from one round to the next. -/
inductive Loop (N : Type) where
  | enterCs (s : SemAddr)
  | semDestroy (s : SemAddr)
  | mqueueDestroy (queue : Nat)
  | wakeTasks (aux : Option (Tcb N)) (now : UInt32)
  | exitTasks (aux : Option (Tcb N))
  | chooseTask (aux next : Option (Tcb N)) (dispatcherStart : UInt32)
  | ageTasks (aux next : Option (Tcb N)) (dispatcherStart : UInt32)
  | dispatcher
  | diskDriver

inductive Instr (N : Type) where
  | assign (a : Assignment N)
  /-- An assignment whose new value, or old one, is also kept in a local variable. -/
  | update (a : Assignment N) (next : Memory N → List (Instr N))
  | read (next : Memory N → List (Instr N))
  /-- An outcome of the host system, such as that of malloc. -/
  | host (next : Bool → List (Instr N))
  | loop (l : Loop N)
  | move (m : Move N)
  | makecontext (task : Tcb N) (start : List (Instr N))
  | clearLinks (task : Tcb N)
  | appendReady (task : Tcb N)
  | clearQueue (s : SemAddr)
  | setCurr (task : Tcb N)
  | swapcontext (prev task : Tcb N)
  | removeReady (prev : Tcb N)
  | halt (h : Halt)

abbrev Code (N : Type) := List (Instr N)

/-- The moves in progress come first, those of a signal handler on top; then what is left of
    task_exit; then the code. -/
structure Context (N : Type) where
  moves : List (Move N)
  exit : Option (Exit N)
  code : Code N

namespace Assignment

def sem (s : SemAddr) (f : Semaphore → Semaphore) : Assignment N :=
  ⟨fun m => { m with kernel := m.kernel.setSem s f }, fun _ => rfl, fun _ => rfl⟩

def lastTaskId (f : UInt64 → UInt64) : Assignment N :=
  ⟨fun m => { m with kernel := { m.kernel with lastTaskId := f m.kernel.lastTaskId } },
    fun _ => rfl, fun _ => rfl⟩

def userTasksNum (f : Int → Int) : Assignment N :=
  ⟨fun m => { m with kernel := { m.kernel with userTasksNum := f m.kernel.userTasksNum } },
    fun _ => rfl, fun _ => rfl⟩

/-- The line that task_exit prints about curr. -/
def printReport : Assignment N :=
  ⟨fun m =>
    let report := m.kernel.task m.kernel.curr
    { m with kernel := { m.kernel with stdout := m.kernel.stdout ++
        [⟨report.id, report.executionTime, report.processorTime, report.activations⟩] } },
    fun _ => rfl, fun _ => rfl⟩

def mqueue (q : Nat) (f : Memory N → Mqueue → Mqueue) : Assignment N :=
  ⟨fun m => { m with mqueue := Function.update m.mqueue q (f m (m.mqueue q)) },
    fun _ => rfl, fun _ => rfl⟩

def disk (f : Memory N → DiskManager → DiskManager) : Assignment N :=
  ⟨fun m => { m with disk := f m m.disk }, fun _ => rfl, fun _ => rfl⟩

def device (f : Device → Device) : Assignment N :=
  ⟨fun m => { m with device := f m.device }, fun _ => rfl, fun _ => rfl⟩

def ram (f : (Nat → UInt8) → Nat → UInt8) : Assignment N :=
  ⟨fun m => { m with ram := f m.ram }, fun _ => rfl, fun _ => rfl⟩

variable [DecidableEq N]

def task (t : Tcb N) (f : Memory N → Task → Task) : Assignment N :=
  ⟨fun m => { m with kernel := m.kernel.setTask t (f m) }, fun _ => rfl, fun _ => rfl⟩

def currTask (f : Memory N → Task → Task) : Assignment N :=
  ⟨fun m => { m with kernel := m.kernel.setTask m.kernel.curr (f m) }, fun _ => rfl, fun _ => rfl⟩

end Assignment

section Calls
variable [DecidableEq N]

def taskSwitch (task : Option (Tcb N)) : Code N :=
  match task with
  | none => [.halt (.exit nullPtrError)]
  | some t =>
    [.assign (.currTask fun _ d => { d with status := .suspended }),
     .assign (.task t fun _ d => { d with status := .running }),
     .read fun m => [.setCurr t, .swapcontext m.kernel.curr t]]

def taskYield : Code N := taskSwitch (some .dispatcherTask)

def taskSuspend (queue : Option TaskQueue) : Code N :=
  match queue with
  | none => [.halt (.exit nullPtrError)]
  | some q =>
    .move (.remove none .readyTasks .suspended q) :: taskSwitch (some .dispatcherTask)

def taskResume (task : Option (Tcb N)) (queue : Option TaskQueue) : Code N :=
  match task, queue with
  | some t, some q => [.move (.remove (some t) q .ready .readyTasks)]
  | _, _ => [.halt (.exit nullPtrError)]

/-- The statements of task_init; those that follow queue_append come last. -/
def taskInit (t : Tcb N) (start : Code N) : Code N :=
  [.host fun stack =>
    if stack = false then [.halt (.exit stackCreationError)]
    else
      [.makecontext t start,
       .assign (.lastTaskId fun n => n + 1),
       .assign (.task t fun m d => { d with id := idOf m.kernel.lastTaskId }),
       .assign (.task t fun _ d => { d with status := .ready }),
       .clearLinks t,
       .assign (.task t fun _ d => { d with staticPriority := defaultPriority }),
       .assign (.task t fun _ d => { d with dynamicPriority := defaultPriority }),
       .assign (.task t fun _ d => { d with activations := 0 }),
       .assign (.task t fun m d => { d with executionTime := systime m.kernel }),
       .assign (.task t fun _ d => { d with processorTime := 0 }),
       .assign (.task t fun _ d => { d with exitCode := 0 }),
       .assign (.task t fun _ d => { d with waitingTask := -1 }),
       .assign (.task t fun _ d => { d with wakeUpTime := 0 }),
       .assign (.task t fun _ d => { d with quantum := 0 }),
       .appendReady t,
       .assign (.userTasksNum fun n => toInt (n + 1)),
       .read fun m =>
        if (m.kernel.task t).id = (m.kernel.task .diskDriverTask).id
        then [.assign (.userTasksNum fun n => toInt (n - 1))] else []]]

def taskSetprio (task : Option (Tcb N)) (prio : Int) : Code N :=
  [.read fun m =>
    [.assign (.task (task.getD m.kernel.curr) fun _ d => { d with staticPriority := toShort prio }),
     .assign (.task (task.getD m.kernel.curr) fun _ d =>
       { d with dynamicPriority := toShort prio })]]

/-- The test of `while (aux && (aux != queue->prev))`: no element, the last, or another. -/
def loopTest (q : TaskQueue) (aux : Option (Tcb N)) (empty : Code N) (last more : Tcb N → Code N) :
    Code N :=
  match aux with
  | none => empty
  | some t => [.read fun m => match m.kernel.queues.head q with
      | none => [.halt .fault]
      | some first => if some t = (m.kernel.queues.link first).prev then last t else more t]

def wakeTask (now : UInt32) (aux : Tcb N) : Code N :=
  [.read fun m =>
    if (m.kernel.task aux).wakeUpTime ≤ now then taskResume (some aux) (some .sleepingTasks)
    else []]

def wakeTasksLoop (aux : Option (Tcb N)) (now : UInt32) : Code N :=
  loopTest .sleepingTasks aux [] (wakeTask now) fun t =>
    [.read fun m => wakeTask now t ++ [.loop (.wakeTasks (m.kernel.queues.link t).next now)]]

def wakeTasks : Code N :=
  [.read fun m => [.read fun m' =>
    [.loop (.wakeTasks (m.kernel.queues.head .sleepingTasks) (systime m'.kernel))]]]

def resumeWaiting (aux : Tcb N) : Code N :=
  [.read fun m =>
    if (m.kernel.task aux).waitingTask = (m.kernel.task m.kernel.curr).id then
      taskResume (some aux) (some .suspendedTasks) ++
        [.assign (.task aux fun _ d => { d with waitingTask := -1 })]
    else []]

def exitTasksLoop (aux : Option (Tcb N)) : Code N :=
  loopTest .suspendedTasks aux [] resumeWaiting fun t =>
    [.read fun m => resumeWaiting t ++ [.loop (.exitTasks (m.kernel.queues.link t).next)]]

def taskExit (exitCode : Int) : Code N :=
  [.assign (.currTask fun _ d => { d with status := .terminated }),
   .read fun m =>
    let prev := m.kernel.curr
    [.assign (.currTask fun m d => { d with executionTime := systime m.kernel - d.executionTime }),
     .assign (.currTask fun _ d => { d with exitCode := exitCode }),
     .assign .printReport,
     .read fun m => [.loop (.exitTasks (m.kernel.queues.head .suspendedTasks))],
     .read fun m =>
      if (m.kernel.task prev).id = dispatcherPid then [.halt (.exit 0)]
      else [.removeReady prev]]]

def taskWait (task : Option (Tcb N)) : Code N :=
  match task with
  | none => []
  | some t => [.read fun m =>
      if (m.kernel.task t).status = .terminated then []
      else
        .assign (.currTask fun m d => { d with waitingTask := (m.kernel.task t).id }) ::
          taskSuspend (some .suspendedTasks)]

def taskSleep (t : Int) : Code N :=
  .assign (.currTask fun m d =>
      { d with wakeUpTime := systime m.kernel + UInt32.ofNat (t % 4294967296).toNat }) ::
    taskSuspend (some .sleepingTasks)

section Scheduling

/-- The rest of the round once the scheduler has run both its loops. -/
def dispatch (next : Option (Tcb N)) (dispatcherStart : UInt32) : Code N :=
  let charge (start : UInt32) : Instr N := .assign (.task .dispatcherTask fun m d =>
    { d with processorTime := d.processorTime + (systime m.kernel - start) })
  match next with
  | none => [charge dispatcherStart]
  | some t =>
    [.assign (.task t fun _ d => { d with dynamicPriority := d.staticPriority }),
     .assign (.task .dispatcherTask fun _ d => { d with activations := d.activations + 1 }),
     .assign (.task t fun _ d => { d with activations := d.activations + 1 }),
     charge dispatcherStart,
     .read fun m =>
      let taskStart := systime m.kernel
      [.assign (.task t fun _ d => { d with quantum := 0 })] ++ taskSwitch (some t) ++
        [.assign (.task t fun m d =>
          { d with processorTime := d.processorTime + (systime m.kernel - taskStart) }),
         .read fun m => [charge (systime m.kernel)]]]

def ageTask (aux : Tcb N) : Instr N :=
  .assign (.task aux fun _ d => { d with dynamicPriority := toShort (d.dynamicPriority + alpha) })

def ageTasksLoop (aux next : Option (Tcb N)) (start : UInt32) : Code N :=
  loopTest .readyTasks aux (dispatch next start) (fun t => ageTask t :: dispatch next start)
    fun t => [ageTask t,
      .read fun m => [.loop (.ageTasks (m.kernel.queues.link t).next next start)]]

/-- if (aux->dynamic_priority < next->dynamic_priority) next = aux; -/
def better (aux : Tcb N) (next : Option (Tcb N)) (rest : Tcb N → Code N) : Code N :=
  match next with
  | none => [.halt .fault]
  | some n => [.read fun m => rest (betterTask m.kernel aux n)]

def ageTasks (next : Option (Tcb N)) (start : UInt32) : Code N :=
  [.read fun m => [.loop (.ageTasks (m.kernel.queues.head .readyTasks) next start)]]

def chooseTaskLoop (aux next : Option (Tcb N)) (start : UInt32) : Code N :=
  loopTest .readyTasks aux (ageTasks next start)
    (fun t => better t next fun n => ageTasks (some n) start)
    fun t => better t next fun n =>
      [.read fun m => [.loop (.chooseTask (m.kernel.queues.link t).next (some n) start)]]

def scheduler (dispatcherStart : UInt32) : Code N :=
  [.read fun m => [.read fun m' =>
    [.loop (.chooseTask (m.kernel.queues.head .readyTasks) (m'.kernel.queues.head .readyTasks)
      dispatcherStart)]]]

def dispatcherLoop : Code N :=
  [.read fun m =>
    if 0 < m.kernel.userTasksNum then
      [.read fun m => wakeTasks ++ scheduler (systime m.kernel) ++ [.loop .dispatcher]]
    else taskExit 0]

end Scheduling

section Semaphores

/-- while (__sync_fetch_and_or(lock, 1)); -/
def enterCsLoop (s : SemAddr) : Code N :=
  [.update (.sem s fun x => { x with lock := if x.lock = 0 then 1 else x.lock }) fun m =>
    if (m.kernel.sem s).lock = 0 then [] else [.loop (.enterCs s)]]

def leaveCs (s : SemAddr) : Instr N := .assign (.sem s fun x => { x with lock := 0 })

def semInit (s : Option SemAddr) (value : Int) : Code N :=
  match s with
  | none => []
  | some s =>
    [.assign (.sem s fun x => { x with value := value }), .clearQueue s,
     .assign (.sem s fun x => { x with active := 1 })]

def semDown (s : Option SemAddr) : Code N :=
  match s with
  | none => []
  | some s => [.read fun m =>
      if (m.kernel.sem s).active = 0 then []
      else
        [.loop (.enterCs s),
         .update (.sem s fun x => { x with value := toInt (x.value - 1) }) fun m =>
          leaveCs s ::
            if toInt ((m.kernel.sem s).value - 1) < 0 then taskSuspend (some (.semQueue s))
            else []]]

def resumeFirst (q : TaskQueue) : Code N :=
  [.read fun m => taskResume (m.kernel.queues.head q) (some q)]

def semUp (s : Option SemAddr) : Code N :=
  match s with
  | none => []
  | some s => [.read fun m =>
      if (m.kernel.sem s).active = 0 then []
      else
        [.loop (.enterCs s),
         .update (.sem s fun x => { x with value := toInt (x.value + 1) }) fun m =>
          let v := toInt ((m.kernel.sem s).value + 1)
          [leaveCs s, .read fun m =>
            if v ≤ 0 ∧ m.kernel.queues.head (.semQueue s) ≠ none then resumeFirst (.semQueue s)
            else []]]]

def semDestroyLoop (s : SemAddr) : Code N :=
  [.read fun m =>
    if m.kernel.queues.head (.semQueue s) = none then []
    else resumeFirst (.semQueue s) ++ [.loop (.semDestroy s)]]

def semDestroy (s : Option SemAddr) : Code N :=
  match s with
  | none => []
  | some s => [.read fun m =>
      if (m.kernel.sem s).active = 0 then []
      else [.assign (.sem s fun x => { x with active := 0 }), .loop (.semDestroy s)]]

end Semaphores

section MessageQueues

def mqueueInit (queue : Option Nat) (max size : Int) : Code N :=
  match queue with
  | none => []
  | some q =>
    [.assign (.mqueue q fun _ x => { x with maxMsgs := max }),
     .assign (.mqueue q fun _ x => { x with msgSize := size }),
     .assign (.mqueue q fun _ x => { x with buffer := [] })] ++
    semInit (some (.sBuffer q)) 1 ++ semInit (some (.sItem q)) 0 ++
    semInit (some (.sVaga q)) max ++
    [.assign (.mqueue q fun _ x => { x with active := 1 })]

/-- Both calls of malloc succeed, or the message is not sent. -/
def mqueueSend (queue msg : Option Nat) : Code N :=
  match queue, msg with
  | some q, some a => [.read fun m =>
      if (m.mqueue q).active = 0 then []
      else
        semDown (some (.sVaga q)) ++ semDown (some (.sBuffer q)) ++ [.read fun m =>
          if (m.mqueue q).active = 0 then []
          else [.host fun malloc₁ => if malloc₁ = false then [] else
            [.host fun malloc₂ => if malloc₂ = false then [] else
              [.assign (.mqueue q fun m x => { x with
                buffer := x.buffer ++ [loadBytes m.ram a (sizeOfInt x.msgSize)] })] ++
              semUp (some (.sBuffer q)) ++ semUp (some (.sItem q))]]]]
  | _, _ => []

def mqueueRecv (queue msg : Option Nat) : Code N :=
  match queue, msg with
  | some q, some a => [.read fun m =>
      if (m.mqueue q).active = 0 then []
      else
        semDown (some (.sItem q)) ++ semDown (some (.sBuffer q)) ++ [.read fun m =>
          if (m.mqueue q).active = 0 then []
          else match (m.mqueue q).buffer with
            | [] => [.halt .fault]
            | first :: _ =>
              [.assign (.ram fun ram =>
                storeBytes ram a (first.take (sizeOfInt (m.mqueue q).msgSize))),
               .assign (.mqueue q fun _ x => { x with buffer := x.buffer.tail })] ++
              semUp (some (.sBuffer q)) ++ semUp (some (.sVaga q))]]
  | _, _ => []

def mqueueDestroyLoop (q : Nat) : Code N :=
  [.read fun m => match (m.mqueue q).buffer with
    | [] => [.assign (.mqueue q fun _ x => { x with active := 0 })]
    | _ :: _ =>
      [.assign (.mqueue q fun _ x => { x with buffer := x.buffer.tail }), .loop (.mqueueDestroy q)]]

def mqueueDestroy (queue : Option Nat) : Code N :=
  match queue with
  | none => []
  | some q =>
    semDestroy (some (.sBuffer q)) ++ semDestroy (some (.sItem q)) ++
      semDestroy (some (.sVaga q)) ++ [.loop (.mqueueDestroy q)]

end MessageQueues

section Disk

def diskDriverLoop : Code N :=
  semDown (some .semDisk) ++
    [.read fun m =>
      if m.disk.signal ≠ 0 then
        resumeFirst .diskQueue ++ [.assign (.disk fun _ d => { d with signal := 0 })]
      else [],
     .read fun m => if m.device.status = .idle then
        [.read fun m => if 0 < toInt m.disk.requestQueue.length then
          [.read fun m => match m.disk.requestQueue with
            | [] => [.halt .fault]
            | request :: _ =>
              [.assign (.disk fun _ d => { d with requestQueue := d.requestQueue.tail }),
               .assign (.device fun d => (diskCmd d request.op request.block request.buffer).1)]]
          else []]
      else []] ++
    semUp (some .semDisk) ++ taskSuspend (some .diskQueue) ++ [.loop .diskDriver]

/-- The host opens the file behind the disk, and allocates the stack of the driver. -/
def diskMgrInit : Code N :=
  [.host fun opened => [.read fun m =>
    if (diskInit m.device).2 < 0 then []
    else if opened = false then [.halt (.exit 1)]
    else
      [.assign (.device fun d => (diskInit d).1), .read fun m =>
        if m.device.numblocks < 0 ∨ m.device.blocksize < 0 then []
        else
          [.assign (.disk fun m d => { d with numBlocks := m.device.numblocks }),
           .assign (.disk fun m d => { d with blockSize := m.device.blocksize })] ++
          semInit (some .semDisk) 1 ++ taskInit .diskDriverTask [.loop .diskDriver] ++
          [.read fun m =>
            if (m.kernel.task .diskDriverTask).id < 0 then []
            else [.assign (.disk fun _ d => { d with handler := true })]]]]]

def diskBlockOp (block : Int) (buffer : Option Nat) (op : Operation) : Code N :=
  semDown (some .semDisk) ++ [.host fun malloc => if malloc = false then [] else
    [.assign (.disk fun m d => { d with
      requestQueue := d.requestQueue ++ [⟨taskId m.kernel, block, buffer, op⟩] }),
     .read fun m =>
      if (m.kernel.task .diskDriverTask).status = .suspended then
        taskResume (some .diskDriverTask) (some .diskQueue)
      else []] ++
    semUp (some .semDisk) ++ taskSuspend (some .diskQueue)]

/-- What the signal of the disk runs before it returns to the interrupted code. -/
def diskSignalHandler : List (Move N) :=
  [.assign (.disk fun _ d => { d with signal := 1 }),
   .remove (some .diskDriverTask) .diskQueue .ready .readyTasks]

end Disk

/-- One round of a loop. -/
def loopBody : Loop N → Code N
  | .enterCs s => enterCsLoop s
  | .semDestroy s => semDestroyLoop s
  | .mqueueDestroy q => mqueueDestroyLoop q
  | .wakeTasks aux now => wakeTasksLoop aux now
  | .exitTasks aux => exitTasksLoop aux
  | .chooseTask aux next start => chooseTaskLoop aux next start
  | .ageTasks aux next start => ageTasksLoop aux next start
  | .dispatcher => dispatcherLoop
  | .diskDriver => diskDriverLoop

/-- The code of a call. A task begins in its own code and makes one call after another; what the
    host answers is found out during the call. -/
def callCode : Call N → Code N
  | .taskInit task _ => taskInit task []
  | .taskYield => taskYield
  | .taskSwitch task => taskSwitch task
  | .taskSleep t => taskSleep t
  | .taskWait task => taskWait task
  | .taskExit exitCode => taskExit exitCode
  | .taskSetprio task prio => taskSetprio task prio
  | .taskGetprio _ => []
  | .semInit n value => semInit (n.map .user) value
  | .semDown n => semDown (n.map .user)
  | .semUp n => semUp (n.map .user)
  | .semDestroy n => semDestroy (n.map .user)
  | .mqueueInit queue max size => mqueueInit queue max size
  | .mqueueSend queue msg => mqueueSend queue msg
  | .mqueueRecv queue msg => mqueueRecv queue msg
  | .mqueueDestroy queue => mqueueDestroy queue
  | .mqueueMsgs queue => match queue with
      | none => [.halt .fault]
      | some _ => []
  | .diskMgrInit _ _ => diskMgrInit
  | .diskBlockRead block buffer => diskBlockOp block buffer .read
  | .diskBlockWrite block buffer => diskBlockOp block buffer .write
  | .store address byte => [.assign (.ram fun ram => Function.update ram address byte)]

end Calls

/-- A task is initialised once task_init has appended it, and gone once task_exit has switched away
    from it. -/
inductive Phase where
  | unborn
  | alive
  | ended
  deriving DecidableEq, Repr

/-- holder is the task whose context was loaded last. Neither holder nor phase is read by a step. -/
structure Machine (N : Type) where
  memory : Memory N
  running : Context N
  saved : Tcb N → Context N
  holder : Tcb N
  phase : Tcb N → Phase

inductive Label (N : Type) where
  | tick
  | completion
  | call (c : Call N)
  | suspend (queue : Option TaskQueue)
  | resume (task : Option (Tcb N)) (queue : Option TaskQueue)
  | run (host : Bool)

namespace Machine

abbrev kernel (s : Machine N) : Kernel N := s.memory.kernel

abbrev queues (s : Machine N) : Queues TaskQueue (Tcb N) := s.memory.kernel.queues

abbrev curr (s : Machine N) : Tcb N := s.memory.kernel.curr

def withKernel (s : Machine N) (k : Kernel N) : Machine N :=
  { s with memory := { s.memory with kernel := k } }

def withQueues (s : Machine N) (queues : Queues TaskQueue (Tcb N)) : Machine N :=
  s.withKernel { s.kernel with queues := queues }

def goto (s : Machine N) (context : Context N) : Machine N := { s with running := context }

/-- The context is saved first: a task that switches to itself goes on where it was. -/
def swapcontext [DecidableEq N] (s : Machine N) (prev next : Tcb N) : Machine N :=
  { s with
    saved := Function.update s.saved prev s.running
    running := Function.update s.saved prev s.running next
    holder := next }

end Machine

section Steps
variable [DecidableEq N] [Fintype N]

/-- The running context holds what follows the move. -/
def moveStep (s : Machine N) : Move N → Except Halt (Machine N)
  | .assign a => .ok { s with memory := a.write s.memory }
  | .remove task source status target => do
      let (queues, _) ← queueRemove s.queues (some source) (some (task.getD s.curr))
      .ok ((s.withQueues queues).goto
        { s.running with moves := .mark task status target :: s.running.moves })
  | .mark task status target =>
    .ok ((s.withKernel (s.kernel.setStatus (task.getD s.curr) status)).goto
      { s.running with moves := .append task target :: s.running.moves })
  | .append task target => do
      let (queues, _) ← queueAppend s.queues (some target) (some (task.getD s.curr))
      .ok (s.withQueues queues)

def exitStep (s : Machine N) (prev : Tcb N) : ExitPoint → Machine N
  | .uncount =>
    (s.withKernel { s.kernel with userTasksNum := toInt (s.kernel.userTasksNum - 1) }).goto
      { s.running with exit := some ⟨prev, .handOver⟩ }
  | .handOver =>
    (s.withKernel { s.kernel with curr := .dispatcherTask }).goto
      { s.running with exit := some ⟨prev, .swap⟩ }
  | .swap => { s.swapcontext prev s.curr with phase := Function.update s.phase prev .ended }

/-- The running context holds the code that follows the instruction. -/
def instrStep (s : Machine N) (host : Bool) : Instr N → Except Halt (Machine N)
  | .assign a => .ok { s with memory := a.write s.memory }
  | .update a next =>
    .ok { s with memory := a.write s.memory,
                 running := { s.running with code := next s.memory ++ s.running.code } }
  | .read next => .ok (s.goto { s.running with code := next s.memory ++ s.running.code })
  | .host next => .ok (s.goto { s.running with code := next host ++ s.running.code })
  | .loop l => .ok (s.goto { s.running with code := loopBody l ++ s.running.code })
  | .move m => moveStep s m
  | .makecontext t start => .ok { s with saved := Function.update s.saved t ⟨[], none, start⟩ }
  | .clearLinks t =>
    .ok (s.withQueues ⟨s.queues.head, Function.update s.queues.link t Links.free⟩)
  | .appendReady t => do
      let (queues, _) ← queueAppend s.queues (some .readyTasks) (some t)
      .ok { s.withQueues queues with phase := Function.update s.phase t .alive }
  | .clearQueue a =>
    .ok (s.withQueues ⟨Function.update s.queues.head (.semQueue a) none, s.queues.link⟩)
  | .setCurr t => .ok (s.withKernel { s.kernel with curr := t })
  | .swapcontext prev t => .ok (s.swapcontext prev t)
  | .removeReady prev => do
      let (queues, _) ← queueRemove s.queues (some .readyTasks) (some prev)
      .ok ((s.withQueues queues).goto { s.running with exit := some ⟨prev, .uncount⟩ })
  | .halt h => .error h

/-- The next statement of what is running; none in a task's own code. -/
def advance (s : Machine N) (host : Bool) : Option (Except Halt (Machine N)) :=
  match s.running with
  | ⟨m :: moves, exit, code⟩ => some (moveStep (s.goto ⟨moves, exit, code⟩) m)
  | ⟨[], some ⟨prev, point⟩, code⟩ => some (.ok (exitStep (s.goto ⟨[], none, code⟩) prev point))
  | ⟨[], none, i :: code⟩ => some (instrStep (s.goto ⟨[], none, code⟩) host i)
  | ⟨[], none, []⟩ => none

/-- The tick uses up the quantum of curr. -/
def quantumEnds (k : Kernel N) : Prop :=
  toInt ((k.task k.curr).quantum + 1) = quantumLimit

omit [DecidableEq N] [Fintype N] in
instance (k : Kernel N) : Decidable (quantumEnds k) := by
  unfold quantumEnds
  infer_instance

/-- interruption_handler, with the swapcontext of its task_yield. -/
def tick (s : Machine N) : Except Halt (Machine N) :=
  (interruptionHandler s.kernel).map fun k =>
    if quantumEnds s.kernel then (s.withKernel k).swapcontext s.curr .dispatcherTask
    else s.withKernel k

/-- disk_sighandle performs the operation; SIGUSR1 then runs disk_signal_handler on top of the code
    it interrupts. -/
def diskSighandle (s : Machine N) (op : Operation) : Except Halt (Machine N) :=
  let d := s.memory.device
  let m := match op with
    | .read => { s.memory with
        ram := storeBlock s.memory.ram d.buffer (d.file d.nextBlock)
        device := { d with prevBlock := d.nextBlock, status := .idle } }
    | .write => { s.memory with
        device := { d with
          file := Function.update d.file d.nextBlock (loadBlock s.memory.ram d.buffer)
          prevBlock := d.nextBlock, status := .idle } }
  if s.memory.disk.handler = false then .error .fault
  else .ok { s with memory := m, running :=
    { s.running with moves := diskSignalHandler ++ s.running.moves } }

/-- Only a task in its own code makes a call. -/
def enter (s : Machine N) (code : Code N) : Option (Except Halt (Machine N)) :=
  match s.running with
  | ⟨[], none, []⟩ => some (.ok (s.goto ⟨[], none, code⟩))
  | _ => none

/-- None where the label is no step of this state. -/
def step (s : Machine N) : Label N → Option (Except Halt (Machine N))
  | .tick => some (tick s)
  | .completion => match s.memory.device.status with
      | .read => some (diskSighandle s .read)
      | .write => some (diskSighandle s .write)
      | _ => none
  | .call c => enter s (callCode c)
  | .suspend queue => enter s (taskSuspend queue)
  | .resume task queue => enter s (taskResume task queue)
  | .run host => advance s host

end Steps

end PreemptionModel
