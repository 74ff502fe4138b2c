import PingPong.KernelModel
import PingPong.TransitionRuns

/-! The running system: the kernel, message queues, the disk manager of
   core/ppos_disk.c, the simulated disk of core/disk/disk.c, and for every task the
   point its code has reached. A step is one call of a kernel primitive, one buffer
   operation, or one access to a shared field; the timer and the disk may interrupt
   between any two steps. sem_down and sem_up on the program's own semaphores are
   split further, down to the locked update of the counter. -/
namespace SystemModel
open MachineModel QueueModel KernelModel

/-- Bytes of memory and blocks of the disk, DISK_BLOCK_SIZE bytes each. -/
abbrev Block := Fin 64 → UInt8

def diskBlockSize : Int := 64

def loadBytes (ram : Nat → UInt8) (address size : Nat) : List UInt8 :=
  (List.range size).map fun i => ram (address + i)

def storeBytes (ram : Nat → UInt8) (address : Nat) (bytes : List UInt8) : Nat → UInt8 :=
  fun a => if a < address then ram a else bytes.getD (a - address) (ram a)

def loadBlock (ram : Nat → UInt8) (address : Nat) : Block := fun i => ram (address + i)

def storeBlock (ram : Nat → UInt8) (address : Nat) (block : Block) : Nat → UInt8 :=
  fun a => if h : address ≤ a ∧ a - address < 64 then block ⟨a - address, h.2⟩ else ram a

/-- An int used as a size_t. -/
def sizeOfInt (n : Int) : Nat := (n % 18446744073709551616).toNat

inductive Operation where
  | read
  | write
  deriving DecidableEq, Repr

structure Request where
  tid : Int
  block : Int
  buffer : Option Nat
  op : Operation
  deriving DecidableEq, Repr

/-- The disk_t of core/ppos_disk.h; its semaphore and its task queue belong to the kernel state.
    handler tells whether SIGUSR1 has its handler. -/
structure DiskManager where
  numBlocks : Int
  blockSize : Int
  requestQueue : List Request
  signal : Int
  handler : Bool

inductive DiskStatus where
  | unknown
  | idle
  | read
  | write
  deriving DecidableEq, Repr

/-- The disk_t of core/disk/disk.c and the file behind it, which has fileBlocks blocks. A read or
    write in progress is an armed timer. -/
structure Device where
  status : DiskStatus
  buffer : Nat
  prevBlock : Int
  nextBlock : Int
  numblocks : Int
  blocksize : Int
  file : Int → Block
  fileBlocks : Int

/-- The three semaphores of a message queue belong to the kernel state. -/
structure Mqueue where
  buffer : List (List UInt8)
  maxMsgs : Int
  msgSize : Int
  active : Int

/-- Where a task stands inside a blocking call. -/
inductive DownPoint where
  | enter
  | update
  | leave (v : Int)
  | suspend
  | woken
  deriving DecidableEq, Repr

inductive UpPoint where
  | enter
  | update
  | leave (v : Int)
  | test (v : Int)
  | resume
  deriving DecidableEq, Repr

inductive SendPoint where
  | vaga
  | buffer
  | check
  | store
  | upBuffer
  | upItem
  deriving DecidableEq, Repr

inductive RecvPoint where
  | item
  | buffer
  | check
  | take
  | upBuffer
  | upVaga
  deriving DecidableEq, Repr

inductive DestroyPoint where
  | buffer
  | item
  | vaga
  | drain
  | close
  deriving DecidableEq, Repr

inductive BlockOpPoint where
  | enqueue
  | resume
  | up
  | suspend
  | finish
  deriving DecidableEq, Repr

inductive DriverPoint where
  | down
  | test
  | issue
  | up
  | suspend
  deriving DecidableEq, Repr

inductive DispatcherPoint (N : Type) where
  | top
  | wake (dispatcherStart : UInt32)
  | schedule (dispatcherStart : UInt32)
  | dispatch (dispatcherStart : UInt32) (next : Tcb N)
  | back (next : Tcb N) (taskStart : UInt32)
  deriving DecidableEq

/-- The saved context of a task: its own code, after a call that returned a value, or a point of a
    call with the local variables of that call. -/
inductive Ctl (N : Type) where
  | unborn
  | terminated
  | body (returned : Int)
  | waitReturn (task : Tcb N)
  | semDown (s : Nat) (point : DownPoint)
  | semUp (s : Nat) (point : UpPoint)
  | send (queue msg : Nat) (point : SendPoint)
  | recv (queue msg : Nat) (point : RecvPoint)
  | destroy (queue : Nat) (point : DestroyPoint)
  | blockOp (block : Int) (buffer : Option Nat) (op : Operation) (point : BlockOpPoint)
  | driver (point : DriverPoint)
  | dispatcher (point : DispatcherPoint N)
  deriving DecidableEq

/-- A disk call with the bytes its buffer held. -/
structure Ticket (N : Type) where
  task : Tcb N
  block : Int
  buffer : Option Nat
  op : Operation
  data : Block

/-- What has happened so far. No step of the system reads it. -/
structure History (N : Type) where
  returned : Nat → Tcb N → Nat
  started : Nat → Tcb N → Nat
  incremented : Nat → Tcb N → Nat
  emptyTests : Nat → Nat
  sent : Nat → List (List UInt8)
  received : Nat → List (List UInt8)
  calls : List (Ticket N)
  requests : List (Ticket N)
  ticket : Tcb N → Nat
  performed : List (Operation × Int × Block)
  signalsSeen : Nat
  woken : List (Tcb N)
  refused : Nat

structure System (N : Type) where
  kernel : Kernel N
  ctl : Tcb N → Ctl N
  mqueue : Nat → Mqueue
  disk : DiskManager
  device : Device
  ram : Nat → UInt8
  history : History N

inductive Call (N : Type) where
  | taskInit (task : Tcb N) (stack : Bool)
  | taskYield
  | taskSwitch (task : Option (Tcb N))
  | taskSleep (t : Int)
  | taskWait (task : Option (Tcb N))
  | taskExit (exitCode : Int)
  | taskSetprio (task : Option (Tcb N)) (prio : Int)
  | taskGetprio (task : Option (Tcb N))
  | semInit (s : Option Nat) (value : Int)
  | semDown (s : Option Nat)
  | semUp (s : Option Nat)
  | semDestroy (s : Option Nat)
  | mqueueInit (queue : Option Nat) (max size : Int)
  | mqueueSend (queue msg : Option Nat)
  | mqueueRecv (queue msg : Option Nat)
  | mqueueDestroy (queue : Option Nat)
  | mqueueMsgs (queue : Option Nat)
  | diskMgrInit (host stack : Bool)
  | diskBlockRead (block : Int) (buffer : Option Nat)
  | diskBlockWrite (block : Int) (buffer : Option Nat)
  | store (address : Nat) (byte : UInt8)

/-- A timer tick, the end of the disk operation in progress, a call by the running task, or the next
    step of the running task inside its call; the two flags of that step are the outcomes of its
    allocations. -/
inductive Label (N : Type) where
  | tick
  | completion
  | call (c : Call N)
  | run (malloc₁ malloc₂ : Bool)

variable {N : Type} [DecidableEq N]

namespace System

def curr (s : System N) : Tcb N := s.kernel.curr

def goto (s : System N) (t : Tcb N) (c : Ctl N) : System N :=
  { s with ctl := Function.update s.ctl t c }

def withKernel (s : System N) (k : Kernel N) : System N := { s with kernel := k }

def setMqueue (s : System N) (q : Nat) (f : Mqueue → Mqueue) : System N :=
  { s with mqueue := Function.update s.mqueue q (f (s.mqueue q)) }

/-- The running task is back in its own code. -/
def answer (s : System N) (code : Int) : System N := s.goto s.curr (.body code)

section Fields
variable (s : System N) (t : Tcb N) (c : Ctl N) (k : Kernel N)

@[simp] theorem goto_ctl : (s.goto t c).ctl = Function.update s.ctl t c := rfl
@[simp] theorem goto_kernel : (s.goto t c).kernel = s.kernel := rfl
@[simp] theorem goto_mqueue : (s.goto t c).mqueue = s.mqueue := rfl
@[simp] theorem goto_disk : (s.goto t c).disk = s.disk := rfl
@[simp] theorem goto_device : (s.goto t c).device = s.device := rfl
@[simp] theorem goto_ram : (s.goto t c).ram = s.ram := rfl
@[simp] theorem goto_history : (s.goto t c).history = s.history := rfl
@[simp] theorem goto_curr : (s.goto t c).curr = s.curr := rfl

omit [DecidableEq N]

@[simp] theorem withKernel_ctl : (s.withKernel k).ctl = s.ctl := rfl
@[simp] theorem withKernel_kernel : (s.withKernel k).kernel = k := rfl
@[simp] theorem withKernel_mqueue : (s.withKernel k).mqueue = s.mqueue := rfl
@[simp] theorem withKernel_disk : (s.withKernel k).disk = s.disk := rfl
@[simp] theorem withKernel_device : (s.withKernel k).device = s.device := rfl
@[simp] theorem withKernel_ram : (s.withKernel k).ram = s.ram := rfl
@[simp] theorem withKernel_history : (s.withKernel k).history = s.history := rfl

end Fields

end System

def counted (table : Nat → Tcb N → Nat) (s : Nat) (t : Tcb N) : Nat → Tcb N → Nat :=
  Function.update table s (Function.update (table s) t (table s t + 1))

section Steps
variable [Fintype N]

section Semaphores

def semDownCall (s : System N) (n : Option Nat) : System N :=
  match n with
  | none => s.answer (-1)
  | some n =>
    if (s.kernel.sem (.user n)).active = 0 then s.answer (-1)
    else s.goto s.curr (.semDown n .enter)

def semDownReturn (s : System N) (n : Nat) : System N :=
  { s.answer 0 with
    history := { s.history with returned := counted s.history.returned n s.curr } }

def semDownStep (s : System N) (n : Nat) : DownPoint → Except Halt (System N)
  | .enter =>
    -- the spin lock: the task keeps the processor until it finds the lock free
    if (s.kernel.sem (.user n)).lock ≠ 0 then .ok s
    else .ok ((s.withKernel (s.kernel.setSem (.user n) fun x => { x with lock := 1 })).goto
      s.curr (.semDown n .update))
  | .update =>
    let v := toInt ((s.kernel.sem (.user n)).value - 1)
    .ok ((s.withKernel (s.kernel.setSem (.user n) fun x => { x with value := v })).goto
      s.curr (.semDown n (.leave v)))
  | .leave v =>
    let s := s.withKernel (leaveCs s.kernel (.user n))
    .ok (if v < 0 then s.goto s.curr (.semDown n .suspend) else semDownReturn s n)
  | .suspend =>
    (taskSuspend s.kernel (some (.semQueue (.user n)))).map fun k =>
      (s.withKernel k).goto s.curr (.semDown n .woken)
  | .woken => .ok (semDownReturn s n)

def semUpCall (s : System N) (n : Option Nat) : System N :=
  match n with
  | none => s.answer (-1)
  | some n =>
    if (s.kernel.sem (.user n)).active = 0 then s.answer (-1)
    else { s.goto s.curr (.semUp n .enter) with
      history := { s.history with started := counted s.history.started n s.curr } }

def semUpStep (s : System N) (n : Nat) : UpPoint → Except Halt (System N)
  | .enter =>
    if (s.kernel.sem (.user n)).lock ≠ 0 then .ok s
    else .ok ((s.withKernel (s.kernel.setSem (.user n) fun x => { x with lock := 1 })).goto
      s.curr (.semUp n .update))
  | .update =>
    let v := toInt ((s.kernel.sem (.user n)).value + 1)
    .ok { (s.withKernel (s.kernel.setSem (.user n) fun x => { x with value := v })).goto
        s.curr (.semUp n (.leave v)) with
      history := { s.history with incremented := counted s.history.incremented n s.curr } }
  | .leave v =>
    .ok ((s.withKernel (leaveCs s.kernel (.user n))).goto s.curr (.semUp n (.test v)))
  | .test v =>
    if v ≤ 0 then
      if s.kernel.queues.head (.semQueue (.user n)) ≠ none then
        .ok (s.goto s.curr (.semUp n .resume))
      else
        .ok { s.answer 0 with history := { s.history with
          emptyTests := Function.update s.history.emptyTests n (s.history.emptyTests n + 1) } }
    else .ok (s.answer 0)
  | .resume =>
    let q := TaskQueue.semQueue (.user n)
    (taskResume s.kernel (s.kernel.queues.head q) (some q)).map fun k =>
      (s.withKernel k).answer 0

end Semaphores

section MessageQueues

def mqueueInit (s : System N) (queue : Option Nat) (max size : Int) : System N :=
  match queue with
  | none => s.answer (-1)
  | some q =>
    let s := s.setMqueue q fun x => { x with maxMsgs := max, msgSize := size, buffer := [] }
    let s := s.withKernel (semInit s.kernel (some (.sBuffer q)) 1).1
    let s := s.withKernel (semInit s.kernel (some (.sItem q)) 0).1
    let s := s.withKernel (semInit s.kernel (some (.sVaga q)) max).1
    (s.setMqueue q fun x => { x with active := 1 }).answer 0

def mqueueSendCall (s : System N) (queue msg : Option Nat) : System N :=
  match queue, msg with
  | some q, some a =>
    if (s.mqueue q).active = 0 then s.answer (-1) else s.goto s.curr (.send q a .vaga)
  | _, _ => s.answer (-1)

def mqueueSendStep (s : System N) (q a : Nat) (malloc₁ malloc₂ : Bool) :
    SendPoint → Except Halt (System N)
  | .vaga => (semDown s.kernel (some (.sVaga q))).map fun (k, _) =>
      (s.withKernel k).goto s.curr (.send q a .buffer)
  | .buffer => (semDown s.kernel (some (.sBuffer q))).map fun (k, _) =>
      (s.withKernel k).goto s.curr (.send q a .check)
  | .check =>
    .ok (if (s.mqueue q).active = 0 then s.answer (-1) else s.goto s.curr (.send q a .store))
  | .store =>
    if malloc₁ = false then .ok (s.answer (-1))
    else if malloc₂ = false then .ok (s.answer (-1))
    else
      let msg := loadBytes s.ram a (sizeOfInt (s.mqueue q).msgSize)
      let s := s.setMqueue q fun x => { x with buffer := x.buffer ++ [msg] }
      .ok { s.goto s.curr (.send q a .upBuffer) with history := { s.history with
        sent := Function.update s.history.sent q (s.history.sent q ++ [msg]) } }
  | .upBuffer => (semUp s.kernel (some (.sBuffer q))).map fun (k, _) =>
      (s.withKernel k).goto s.curr (.send q a .upItem)
  | .upItem => (semUp s.kernel (some (.sItem q))).map fun (k, _) => (s.withKernel k).answer 0

def mqueueRecvCall (s : System N) (queue msg : Option Nat) : System N :=
  match queue, msg with
  | some q, some a =>
    if (s.mqueue q).active = 0 then s.answer (-1) else s.goto s.curr (.recv q a .item)
  | _, _ => s.answer (-1)

def mqueueRecvStep (s : System N) (q a : Nat) : RecvPoint → Except Halt (System N)
  | .item => (semDown s.kernel (some (.sItem q))).map fun (k, _) =>
      (s.withKernel k).goto s.curr (.recv q a .buffer)
  | .buffer => (semDown s.kernel (some (.sBuffer q))).map fun (k, _) =>
      (s.withKernel k).goto s.curr (.recv q a .check)
  | .check =>
    .ok (if (s.mqueue q).active = 0 then s.answer (-1) else s.goto s.curr (.recv q a .take))
  | .take =>
    match (s.mqueue q).buffer with
    | [] => .error .fault
    | first :: rest =>
      let msg := first.take (sizeOfInt (s.mqueue q).msgSize)
      let s := { s with ram := storeBytes s.ram a msg }
      let s := s.setMqueue q fun x => { x with buffer := rest }
      .ok { s.goto s.curr (.recv q a .upBuffer) with history := { s.history with
        received := Function.update s.history.received q (s.history.received q ++ [msg]) } }
  | .upBuffer => (semUp s.kernel (some (.sBuffer q))).map fun (k, _) =>
      (s.withKernel k).goto s.curr (.recv q a .upVaga)
  | .upVaga => (semUp s.kernel (some (.sVaga q))).map fun (k, _) => (s.withKernel k).answer 0

def mqueueDestroyStep (s : System N) (q : Nat) : DestroyPoint → Except Halt (System N)
  | .buffer => (semDestroy s.kernel (some (.sBuffer q))).map fun (k, _) =>
      (s.withKernel k).goto s.curr (.destroy q .item)
  | .item => (semDestroy s.kernel (some (.sItem q))).map fun (k, _) =>
      (s.withKernel k).goto s.curr (.destroy q .vaga)
  | .vaga => (semDestroy s.kernel (some (.sVaga q))).map fun (k, _) =>
      (s.withKernel k).goto s.curr (.destroy q .drain)
  | .drain =>
    match (s.mqueue q).buffer with
    | [] => .ok (s.goto s.curr (.destroy q .close))
    | _ :: rest => .ok (s.setMqueue q fun x => { x with buffer := rest })
  | .close => .ok ((s.setMqueue q fun x => { x with active := 0 }).answer 0)

end MessageQueues

section Disk

/-- disk_cmd(DISK_CMD_READ, ..) and disk_cmd(DISK_CMD_WRITE, ..) -/
def diskCmd (d : Device) (op : Operation) (block : Int) (buffer : Option Nat) : Device × Int :=
  if d.status ≠ .idle then (d, -1)
  else match buffer with
    | none => (d, -1)
    | some a =>
      if block < 0 ∨ d.numblocks ≤ block then (d, -1)
      else
        let status := match op with | .read => DiskStatus.read | .write => DiskStatus.write
        ({ d with buffer := a, nextBlock := block, status := status }, 0)

def diskInit (d : Device) : Device × Int :=
  if d.status ≠ .unknown then (d, -1)
  else ({ d with status := .idle, prevBlock := 0, nextBlock := 0, blocksize := diskBlockSize,
                 numblocks := d.fileBlocks }, 0)

/-- The host flag tells whether the file could be opened and the timer created. -/
def diskMgrInit (s : System N) (host stack : Bool) : Except Halt (System N) :=
  if (diskInit s.device).2 < 0 then .ok (s.answer (-1))
  else if host = false then .error (.exit 1)
  else
    let device := (diskInit s.device).1
    let s := { s with device := device }
    if device.numblocks < 0 ∨ device.blocksize < 0 then .ok (s.answer (-1))
    else
      let s := { s with disk := { s.disk with numBlocks := device.numblocks,
                                              blockSize := device.blocksize } }
      let s := s.withKernel (semInit s.kernel (some .semDisk) 1).1
      (taskInit s.kernel .diskDriverTask stack).map fun (k, id) =>
        let s := (s.withKernel k).goto .diskDriverTask (.driver .down)
        if id < 0 then s.answer (-1)
        else { s.answer 0 with disk := { s.disk with handler := true } }

def diskBlockOpCall (s : System N) (block : Int) (buffer : Option Nat) (op : Operation) :
    Except Halt (System N) :=
  let ticket := Ticket.mk s.curr block buffer op (loadBlock s.ram (buffer.getD 0))
  (semDown s.kernel (some .semDisk)).map fun (k, _) =>
    { (s.withKernel k).goto s.curr (.blockOp block buffer op .enqueue) with
      history := { s.history with calls := s.history.calls ++ [ticket] } }

def diskBlockOpStep (s : System N) (block : Int) (buffer : Option Nat) (op : Operation)
    (malloc : Bool) : BlockOpPoint → Except Halt (System N)
  | .enqueue =>
    if malloc = false then
      .ok { s.answer (-1) with history := { s.history with refused := s.history.refused + 1 } }
    else
      let request := Request.mk (taskId s.kernel) block buffer op
      let ticket := Ticket.mk s.curr block buffer op (loadBlock s.ram (buffer.getD 0))
      .ok { s.goto s.curr (.blockOp block buffer op .resume) with
        disk := { s.disk with requestQueue := s.disk.requestQueue ++ [request] }
        history := { s.history with
          requests := s.history.requests ++ [ticket]
          ticket := Function.update s.history.ticket s.curr s.history.requests.length } }
  | .resume =>
    if (s.kernel.task .diskDriverTask).status = .suspended then
      (taskResume s.kernel (some .diskDriverTask) (some .diskQueue)).map fun k =>
        (s.withKernel k).goto s.curr (.blockOp block buffer op .up)
    else .ok (s.goto s.curr (.blockOp block buffer op .up))
  | .up => (semUp s.kernel (some .semDisk)).map fun (k, _) =>
      (s.withKernel k).goto s.curr (.blockOp block buffer op .suspend)
  | .suspend => (taskSuspend s.kernel (some .diskQueue)).map fun k =>
      (s.withKernel k).goto s.curr (.blockOp block buffer op .finish)
  | .finish => .ok (s.answer 0)

/-- The driver's look at disk.signal, with the wake-up of the head of disk_queue. -/
def diskDriverTest (s : System N) : Except Halt (System N) :=
  let seen := { s with history := { s.history with signalsSeen := s.history.performed.length } }
  if s.disk.signal ≠ 0 then
    (taskResume s.kernel (s.kernel.queues.head .diskQueue) (some .diskQueue)).map fun k =>
      { (seen.withKernel k).goto s.curr (.driver .issue) with
        disk := { s.disk with signal := 0 }
        history := { seen.history with
          woken := s.history.woken ++ (s.kernel.queues.head .diskQueue).toList } }
  else .ok (seen.goto s.curr (.driver .issue))

def diskDriverIssue (s : System N) : System N :=
  let idle := { s with ctl := Function.update s.ctl s.curr (.driver .up) }
  if s.device.status = .idle ∧ 0 < toInt s.disk.requestQueue.length then
    match s.disk.requestQueue with
    | [] => idle
    | request :: rest =>
      { idle with
        disk := { s.disk with requestQueue := rest }
        device := (diskCmd s.device request.op request.block request.buffer).1 }
  else idle

def diskDriverStep (s : System N) : DriverPoint → Except Halt (System N)
  | .down => (semDown s.kernel (some .semDisk)).map fun (k, _) =>
      (s.withKernel k).goto s.curr (.driver .test)
  | .test => diskDriverTest s
  | .issue => .ok (diskDriverIssue s)
  | .up => (semUp s.kernel (some .semDisk)).map fun (k, _) =>
      (s.withKernel k).goto s.curr (.driver .suspend)
  | .suspend => (taskSuspend s.kernel (some .diskQueue)).map fun k =>
      (s.withKernel k).goto s.curr (.driver .down)

/-- disk_sighandle performs the operation and raises SIGUSR1, which runs disk_signal_handler at
    once; without that handler the signal ends the process. -/
def diskSighandle (s : System N) (op : Operation) : Except Halt (System N) :=
  let d := s.device
  let data := match op with | .read => d.file d.nextBlock | .write => loadBlock s.ram d.buffer
  let s := match op with
    | .read => { s with ram := storeBlock s.ram d.buffer data }
    | .write => { s with device := { d with file := Function.update d.file d.nextBlock data } }
  let s := { s with
    device := { s.device with prevBlock := d.nextBlock, status := .idle }
    history := { s.history with
      performed := s.history.performed ++ [(op, d.nextBlock, data)] } }
  if s.disk.handler = false then .error .fault
  else
    (taskResume s.kernel (some .diskDriverTask) (some .diskQueue)).map fun k =>
      { s.withKernel k with disk := { s.disk with signal := 1 } }

end Disk

/-- The loop of the dispatcher, with the processor time it charges. -/
def dispatcherStep (s : System N) : DispatcherPoint N → Except Halt (System N)
  | .top =>
    if 0 < s.kernel.userTasksNum then
      .ok (s.goto .dispatcherTask (.dispatcher (.wake (systime s.kernel))))
    else (taskExit s.kernel 0).map fun k =>
      (s.withKernel k).goto .dispatcherTask .terminated
  | .wake dispatcherStart => (wakeTasks s.kernel).map fun k =>
      (s.withKernel k).goto .dispatcherTask (.dispatcher (.schedule dispatcherStart))
  | .schedule dispatcherStart => (scheduler s.kernel).map fun (next, k) =>
      match next with
      | some next =>
        (s.withKernel k).goto .dispatcherTask (.dispatcher (.dispatch dispatcherStart next))
      | none =>
        (s.withKernel (k.setTask .dispatcherTask fun d =>
          { d with processorTime := d.processorTime + (systime k - dispatcherStart) })).goto
          .dispatcherTask (.dispatcher .top)
  | .dispatch dispatcherStart next =>
    let k := s.kernel.setTask .dispatcherTask fun d => { d with activations := d.activations + 1 }
    let k := k.setTask next fun d => { d with activations := d.activations + 1 }
    let k := k.setTask .dispatcherTask fun d =>
      { d with processorTime := d.processorTime + (systime k - dispatcherStart) }
    let k := k.setTask next fun d => { d with quantum := 0 }
    (taskSwitch k (some next)).map fun k' =>
      (s.withKernel k').goto .dispatcherTask (.dispatcher (.back next (systime k)))
  | .back next taskStart =>
    let k := s.kernel.setTask next fun d =>
      { d with processorTime := d.processorTime + (systime s.kernel - taskStart) }
    let k := k.setTask .dispatcherTask fun d =>
      { d with processorTime := d.processorTime + (systime k - systime k) }
    .ok ((s.withKernel k).goto .dispatcherTask (.dispatcher .top))

def call (s : System N) : Call N → Except Halt (System N)
  | .taskInit task stack => (taskInit s.kernel task stack).map fun (k, id) =>
      ((s.withKernel k).goto task (.body 0)).goto s.curr (.body id)
  | .taskYield => (taskYield s.kernel).map fun k => (s.withKernel k).goto s.curr (.body 0)
  | .taskSwitch task => (taskSwitch s.kernel task).map fun k =>
      (s.withKernel k).goto s.curr (.body 0)
  | .taskSleep t => (taskSleep s.kernel t).map fun k => (s.withKernel k).goto s.curr (.body 0)
  | .taskWait task => (taskWait s.kernel task).map fun (k, result) =>
      match task, result with
      | some awaited, none => (s.withKernel k).goto s.curr (.waitReturn awaited)
      | _, code => (s.withKernel k).goto s.curr (.body (code.getD 0))
  | .taskExit exitCode => (taskExit s.kernel exitCode).map fun k =>
      (s.withKernel k).goto s.curr .terminated
  | .taskSetprio task prio => .ok ((s.withKernel (taskSetprio s.kernel task prio)).answer 0)
  | .taskGetprio task => .ok (s.answer (taskGetprio s.kernel task))
  | .semInit n value =>
    let (k, code) := semInit s.kernel (n.map .user) value
    .ok ((s.withKernel k).answer code)
  | .semDown n => .ok (semDownCall s n)
  | .semUp n => .ok (semUpCall s n)
  | .semDestroy n => (semDestroy s.kernel (n.map .user)).map fun (k, code) =>
      (s.withKernel k).answer code
  | .mqueueInit queue max size => .ok (mqueueInit s queue max size)
  | .mqueueSend queue msg => .ok (mqueueSendCall s queue msg)
  | .mqueueRecv queue msg => .ok (mqueueRecvCall s queue msg)
  | .mqueueDestroy queue => .ok (match queue with
      | none => s.answer (-1)
      | some q => s.goto s.curr (.destroy q .buffer))
  | .mqueueMsgs queue => match queue with
      | none => .error .fault
      | some q => .ok (s.answer (toInt (s.mqueue q).buffer.length))
  | .diskMgrInit host stack => diskMgrInit s host stack
  | .diskBlockRead block buffer => diskBlockOpCall s block buffer .read
  | .diskBlockWrite block buffer => diskBlockOpCall s block buffer .write
  | .store address byte => .ok ({ s with ram := Function.update s.ram address byte }.answer 0)

/-- The running task continues the call it is in. -/
def advance (s : System N) (malloc₁ malloc₂ : Bool) : Option (Except Halt (System N)) :=
  match s.ctl s.curr with
  | .unborn | .terminated | .body _ => none
  | .waitReturn task => some (.ok (s.answer (s.kernel.task task).exitCode))
  | .semDown n point => some (semDownStep s n point)
  | .semUp n point => some (semUpStep s n point)
  | .send q a point => some (mqueueSendStep s q a malloc₁ malloc₂ point)
  | .recv q a point => some (mqueueRecvStep s q a point)
  | .destroy q point => some (mqueueDestroyStep s q point)
  | .blockOp block buffer op point => some (diskBlockOpStep s block buffer op malloc₁ point)
  | .driver point => some (diskDriverStep s point)
  | .dispatcher point => some (dispatcherStep s point)

/-- None where the label is no step of this state. -/
def step (s : System N) : Label N → Option (Except Halt (System N))
  | .tick => some ((interruptionHandler s.kernel).map s.withKernel)
  | .completion => match s.device.status with
      | .read => some (diskSighandle s .read)
      | .write => some (diskSighandle s .write)
      | _ => none
  | .call c => match s.ctl s.curr with
      | .body _ => some (call s c)
      | _ => none
  | .run malloc₁ malloc₂ => advance s malloc₁ malloc₂

end Steps

end SystemModel
