import PingPong.DiskHardware
import PingPong.LockStep
import PingPong.TaskConservation

/-!
The system with core/disk/disk.c in the place of the device: the disk manager issues disk_cmd, and
the interrupt is the timer that disk_settimer has armed. It goes, step by step, as the system over
blocks.
-/
namespace DiskImage
open MachineModel KernelModel SystemModel ByteFiles DiskHardware LockStep TaskConservation
variable {N : Type} [DecidableEq N]

/-- The device of the system is not looked at. -/
structure Imaged (N : Type) where
  system : System N
  disk : Disk

def withDevice (s : System N) (v : Device) : System N := { s with device := v }

section Steps
variable [Fintype N]

/-- What the disk has done when its timer fires, for the record of the system. -/
def performedBy (d : Disk) (ram : Nat → UInt8) : List (Operation × Int × Block) :=
  match d.status with
  | .read => [(.read, d.nextBlock, asBlock (transferred d .read ram))]
  | .write => [(.write, d.nextBlock, asBlock (transferred d .write ram))]
  | .unknown | .idle => []

/-- SIGUSR1 runs disk_signal_handler at once, or ends the process. -/
def raiseSigusr1 (s : System N) : Except Halt (System N) :=
  if s.disk.handler = false then .error .fault
  else
    (taskResume s.kernel (some .diskDriverTask) (some .diskQueue)).map fun k =>
      { s.withKernel k with disk := { s.disk with signal := 1 } }

def operated (s : System N) (ram : Nat → UInt8) (done : List (Operation × Int × Block)) :
    System N :=
  { s with ram := ram, history := { s.history with performed := s.history.performed ++ done } }

/-- The timer fires once, and SIGIO runs its handler. -/
def timerFires (b : Imaged N) : Except Halt (Imaged N) :=
  (DiskHardware.diskSighandle { b.disk with timer := none } b.system.ram).bind fun (disk, ram) =>
    (raiseSigusr1 (operated b.system ram (performedBy b.disk b.system.ram))).map fun s =>
      ⟨s, disk⟩

def diskMgrInit (b : Imaged N) (host stack : Bool) (rand : Nat) : Except Halt (Imaged N) :=
  (DiskHardware.diskCmd b.disk diskCmdInit 0 none host rand).bind fun (disk, initStatus) =>
    if initStatus < 0 then .ok ⟨b.system.answer (-1), disk⟩
    else
      (DiskHardware.diskCmd disk diskCmdDisksize 0 none host rand).bind fun (disk, blockNum) =>
        (DiskHardware.diskCmd disk diskCmdBlocksize 0 none host rand).bind fun (disk, blockSize) =>
          if blockNum < 0 ∨ blockSize < 0 then .ok ⟨b.system.answer (-1), disk⟩
          else
            let s := { b.system with disk := { b.system.disk with
              numBlocks := blockNum, blockSize := blockSize } }
            let s := s.withKernel (semInit s.kernel (some .semDisk) 1).1
            (taskInit s.kernel .diskDriverTask stack).map fun (k, id) =>
              let s := (s.withKernel k).goto .diskDriverTask (.driver .down)
              if id < 0 then ⟨s.answer (-1), disk⟩
              else ⟨{ s.answer 0 with disk := { s.disk with handler := true } }, disk⟩

def diskDriverIssue (b : Imaged N) (rand : Nat) : Except Halt (Imaged N) :=
  let s := b.system
  let idle := { s with ctl := Function.update s.ctl s.curr (.driver .up) }
  (DiskHardware.diskCmd b.disk diskCmdStatus 0 none true rand).bind fun (disk, status) =>
    if status = statusCode .idle ∧ 0 < toInt s.disk.requestQueue.length then
      match s.disk.requestQueue with
      | [] => .ok ⟨idle, disk⟩
      | request :: rest =>
        (DiskHardware.diskCmd disk (opCmd request.op) request.block request.buffer true rand).map
          fun (disk, _) => ⟨{ idle with disk := { s.disk with requestQueue := rest } }, disk⟩
    else .ok ⟨idle, disk⟩

/-- The label says also what the next rand() would return. -/
def byteStep (b : Imaged N) (l : Label N × Nat) : Option (Except Halt (Imaged N)) :=
  let elsewhere := (step b.system l.1).map fun r => r.map fun s => ⟨s, b.disk⟩
  match l.1 with
  | .completion => b.disk.timer.map fun _ => timerFires b
  | .call (.diskMgrInit host stack) => match b.system.ctl b.system.curr with
      | .body _ => some (diskMgrInit b host stack l.2)
      | _ => none
  | .run _ _ => match b.system.ctl b.system.curr with
      | .driver .issue => some (diskDriverIssue b l.2)
      | _ => elsewhere
  | _ => elsewhere

def SameRest (start bytes : List UInt8) : Prop :=
  bytes.length = start.length ∧
    ∀ i, start.length / 64 ≤ i → block 64 bytes i = block 64 start i

/-- The same state, but for what the disk is made of. -/
structure Images (start : List UInt8) (b : Imaged N) (s : System N) : Prop where
  system : b.system = withDevice s b.system.device
  working : Working b.disk
  disk : Matches b.disk s.device
  rest : SameRest start b.disk.file.bytes

end Steps

section Blind
variable [Fintype N] {s : System N} (v : Device)

omit [DecidableEq N] [Fintype N] in
theorem map_map {α β γ : Type} (x : Except Halt α) (f : α → β) (g : β → γ) :
    (x.map f).map g = x.map fun a => g (f a) := by
  cases x with
  | error h => rfl
  | ok a => rfl

omit [DecidableEq N] [Fintype N] in
theorem map_ite {α β : Type} (p : Prop) [Decidable p] (x y : Except Halt α) (f : α → β) :
    (if p then x else y).map f = if p then x.map f else y.map f :=
  apply_ite (Except.map f) p x y

omit [DecidableEq N] [Fintype N] in
theorem device_ite (p : Prop) [Decidable p] (s₁ s₂ : System N) :
    withDevice (if p then s₁ else s₂) v = if p then withDevice s₁ v else withDevice s₂ v :=
  apply_ite (fun r => withDevice r v) p s₁ s₂

omit [DecidableEq N] [Fintype N] in
theorem ok_map {α β : Type} (a : α) (f : α → β) :
    (.ok a : Except Halt α).map f = .ok (f a) := rfl

theorem semDownStep_blind (n : Nat) (point : DownPoint) :
    semDownStep (withDevice s v) n point =
      (semDownStep s n point).map fun r => withDevice r v := by
  cases point with
  | enter =>
    simp only [semDownStep, map_ite]
    rfl
  | update | woken => rfl
  | leave x =>
    simp only [semDownStep, ok_map, device_ite]
    rfl
  | suspend =>
    simp only [semDownStep, map_map]
    rfl

theorem semUpStep_blind (n : Nat) (point : UpPoint) :
    semUpStep (withDevice s v) n point = (semUpStep s n point).map fun r => withDevice r v := by
  cases point with
  | enter | test x =>
    simp only [semUpStep, map_ite]
    rfl
  | update | leave x => rfl
  | resume =>
    simp only [semUpStep, map_map]
    rfl

theorem send_blind (q a : Nat) (m₁ m₂ : Bool) (point : SendPoint) :
    mqueueSendStep (withDevice s v) q a m₁ m₂ point =
      (mqueueSendStep s q a m₁ m₂ point).map fun r => withDevice r v := by
  cases point with
  | vaga | buffer | upBuffer | upItem =>
    simp only [mqueueSendStep, map_map]
    rfl
  | check =>
    simp only [mqueueSendStep, ok_map, device_ite]
    rfl
  | store =>
    simp only [mqueueSendStep, map_ite]
    rfl

theorem recv_blind (q a : Nat) (point : RecvPoint) :
    mqueueRecvStep (withDevice s v) q a point =
      (mqueueRecvStep s q a point).map fun r => withDevice r v := by
  cases point with
  | item | buffer | upBuffer | upVaga =>
    simp only [mqueueRecvStep, map_map]
    rfl
  | check =>
    simp only [mqueueRecvStep, ok_map, device_ite]
    rfl
  | take =>
    simp only [mqueueRecvStep, withDevice]
    cases (s.mqueue q).buffer with
    | nil => rfl
    | cons first rest => rfl

theorem destroy_blind (q : Nat) (point : DestroyPoint) :
    mqueueDestroyStep (withDevice s v) q point =
      (mqueueDestroyStep s q point).map fun r => withDevice r v := by
  cases point with
  | buffer | item | vaga =>
    simp only [mqueueDestroyStep, map_map]
    rfl
  | drain =>
    simp only [mqueueDestroyStep, withDevice]
    cases (s.mqueue q).buffer with
    | nil => rfl
    | cons first rest => rfl
  | close => rfl

theorem blockOp_blind (block : Int) (buffer : Option Nat) (op : Operation) (malloc : Bool)
    (point : BlockOpPoint) :
    diskBlockOpStep (withDevice s v) block buffer op malloc point =
      (diskBlockOpStep s block buffer op malloc point).map fun r => withDevice r v := by
  cases point with
  | enqueue | resume =>
    simp only [diskBlockOpStep, map_ite, map_map]
    rfl
  | up | suspend =>
    simp only [diskBlockOpStep, map_map]
    rfl
  | finish => rfl

theorem driver_blind {point : DriverPoint} (other : point ≠ .issue) :
    diskDriverStep (withDevice s v) point =
      (diskDriverStep s point).map fun r => withDevice r v := by
  cases point with
  | down | up | suspend =>
    simp only [diskDriverStep, map_map]
    rfl
  | test =>
    simp only [diskDriverStep, diskDriverTest, map_ite, map_map]
    rfl
  | issue => exact absurd rfl other

theorem dispatcher_blind (point : DispatcherPoint N) :
    dispatcherStep (withDevice s v) point =
      (dispatcherStep s point).map fun r => withDevice r v := by
  cases point with
  | top =>
    simp only [dispatcherStep, map_ite, map_map]
    rfl
  | wake start | dispatch start next =>
    simp only [dispatcherStep, map_map]
    rfl
  | schedule start =>
    simp only [dispatcherStep, map_map]
    refine congrArg (Except.map · _) (funext fun picked => ?_)
    obtain ⟨next, k⟩ := picked
    cases next with
    | none => rfl
    | some next => rfl
  | back next start => rfl

theorem raise_blind : raiseSigusr1 (withDevice s v) =
    (raiseSigusr1 s).map fun r => withDevice r v := by
  simp only [raiseSigusr1, map_ite, map_map]
  rfl

def Elsewhere (s : System N) : Label N → Prop
  | .completion | .call (.diskMgrInit _ _) => False
  | .run _ _ => s.ctl s.curr ≠ .driver .issue
  | _ => True

theorem call_blind {c : Call N} (other : ∀ host stack, c ≠ .diskMgrInit host stack) :
    call (withDevice s v) c = (call s c).map fun r => withDevice r v := by
  cases c with
  | taskInit t stack | semDestroy n | taskYield | taskSwitch t | taskSleep t | taskExit code
  | diskBlockRead block buffer | diskBlockWrite block buffer =>
    simp only [call, diskBlockOpCall, map_map]
    rfl
  | taskWait t =>
    simp only [call, map_map]
    refine congrArg (Except.map · _) (funext fun result => ?_)
    obtain ⟨k, code⟩ := result
    cases t with
    | none => rfl
    | some t =>
      cases code with
      | none => rfl
      | some code => rfl
  | taskSetprio | taskGetprio | semInit | store => rfl
  | semDown n =>
    cases n with
    | none => rfl
    | some n =>
      simp only [call, semDownCall, ok_map, device_ite]
      rfl
  | semUp n =>
    cases n with
    | none => rfl
    | some n =>
      simp only [call, semUpCall, ok_map, device_ite]
      rfl
  | mqueueInit q max size | mqueueDestroy q | mqueueMsgs q =>
    cases q with
    | none => rfl
    | some q => rfl
  | mqueueSend q msg =>
    cases q with
    | none => rfl
    | some q =>
      cases msg with
      | none => rfl
      | some a =>
        simp only [call, mqueueSendCall, ok_map, device_ite]
        rfl
  | mqueueRecv q msg =>
    cases q with
    | none => rfl
    | some q =>
      cases msg with
      | none => rfl
      | some a =>
        simp only [call, mqueueRecvCall, ok_map, device_ite]
        rfl
  | diskMgrInit host stack => exact absurd rfl (other host stack)

theorem advance_blind {m₁ m₂ : Bool} (other : s.ctl s.curr ≠ .driver .issue) :
    advance (withDevice s v) m₁ m₂ =
      (advance s m₁ m₂).map fun r => r.map fun r => withDevice r v := by
  have same : (withDevice s v).ctl (withDevice s v).curr = s.ctl s.curr := rfl
  simp only [advance, same]
  cases here : s.ctl s.curr with
  | unborn | terminated | body | waitReturn => rfl
  | semDown n point => exact congrArg some (semDownStep_blind v n point)
  | semUp n point => exact congrArg some (semUpStep_blind v n point)
  | send q a point => exact congrArg some (send_blind v q a m₁ m₂ point)
  | recv q a point => exact congrArg some (recv_blind v q a point)
  | destroy q point => exact congrArg some (destroy_blind v q point)
  | blockOp block buffer op point =>
    exact congrArg some (blockOp_blind v block buffer op m₁ point)
  | driver point =>
    refine congrArg some (driver_blind v fun issue => other ?_)
    rw [here, issue]
  | dispatcher point => exact congrArg some (dispatcher_blind v point)

theorem step_blind {l : Label N} (elsewhere : Elsewhere s l) :
    step (withDevice s v) l = (step s l).map fun r => r.map fun r => withDevice r v := by
  cases l with
  | tick =>
    simp only [step, Option.map_some, map_map]
    rfl
  | completion => cases elsewhere
  | call c =>
    have here : (withDevice s v).ctl (withDevice s v).curr = s.ctl s.curr := rfl
    simp only [step, here]
    cases s.ctl s.curr with
    | body r =>
      refine congrArg some (call_blind v ?_)
      rintro host stack rfl
      exact elsewhere
    | unborn | terminated | waitReturn | semDown | semUp | send | recv | destroy | blockOp | driver
    | dispatcher => rfl
  | run m₁ m₂ => exact advance_blind v elsewhere

end Blind

section Refinement
variable [Fintype N] {b : Imaged N} {s : System N} {start : List UInt8}

omit [DecidableEq N] [Fintype N] in
theorem bind_ok_left {α β : Type} {x : Except Halt α} {a : α} (run : x = .ok a)
    (f : α → Except Halt β) : x.bind f = f a := by
  rw [run]
  rfl

theorem elsewhere_alike {v : Device} (working : Working b.disk) (disk : Matches b.disk v)
    (rest : SameRest start b.disk.file.bytes)
    {l : Label N} (elsewhere : Elsewhere b.system l) :
    Alike (Images start) ((step b.system l).map fun r => r.map fun s => Imaged.mk s b.disk)
      (step (withDevice b.system v) l) := by
  rw [step_blind v elsewhere]
  cases step b.system l with
  | none => exact .none
  | some r => exact alike_map fun s _ => ⟨rfl, working, disk, rest⟩

omit [DecidableEq N] [Fintype N] in
theorem rest_kept {d : Disk} {bytes : List UInt8} (rest : SameRest start d.file.bytes)
    (size : bytes.length = d.file.bytes.length)
    (tail : ∀ i, blocks d ≤ i → block 64 bytes i = block 64 d.file.bytes i) :
    SameRest start bytes := by
  refine ⟨size.trans rest.1, fun i beyond => ?_⟩
  have outside : blocks d ≤ i := by
    rw [blocks, rest.1]
    exact beyond
  exact (tail i outside).trans (rest.2 i beyond)

theorem fires_alike {v' : Device} {d' : Disk} {ram : Nat → UInt8} {op : Operation}
    (working : Working d') (disk : Matches d' v')
    (rest : SameRest start d'.file.bytes)
    (handled : DiskHardware.diskSighandle { b.disk with timer := none } b.system.ram =
      .ok (d', ram))
    (blocks : SystemModel.diskSighandle s op = raiseSigusr1 (withDevice
      (operated b.system ram (performedBy b.disk b.system.ram)) v')) :
    Alike (Images start) (some (timerFires b)) (some (SystemModel.diskSighandle s op)) := by
  rw [timerFires, bind_ok_left handled, blocks, raise_blind]
  exact alike_map fun s' _ => ⟨rfl, working, disk, rest⟩

theorem completion_alike {v : Device} (working : Working b.disk) (disk : Matches b.disk v)
    (rest : SameRest start b.disk.file.bytes)
    (rand : Nat) :
    Alike (Images start) (byteStep b (.completion, rand))
      (step (withDevice b.system v) .completion) := by
  have status : (withDevice b.system v).device.status = b.disk.status := disk.status
  simp only [byteStep, step, status]
  cases operation : b.disk.status with
  | unknown =>
    rw [working.rest (Or.inl operation)]
    exact .none
  | idle =>
    rw [working.rest (Or.inr operation)]
    exact .none
  | read =>
    obtain ⟨-, -, t, armed, -⟩ := working.busy (Or.inl operation)
    obtain ⟨data, d', handled, working', disk', same⟩ :=
      read_done working disk operation b.system.ram
    have record : performedBy b.disk b.system.ram =
        [(.read, v.nextBlock, v.file v.nextBlock)] := by
      simp only [performedBy, operation, ← data, disk.nextBlock]
    rw [armed]
    refine fires_alike working' disk' (same ▸ rest) handled ?_
    rw [record]
    rfl
  | write =>
    obtain ⟨-, -, t, armed, -⟩ := working.busy (Or.inr operation)
    obtain ⟨data, d', handled, working', disk', size, tail⟩ :=
      write_done working disk operation b.system.ram
    have record : performedBy b.disk b.system.ram =
        [(.write, v.nextBlock, loadBlock b.system.ram v.buffer)] := by
      simp only [performedBy, operation, data, disk.nextBlock]
    rw [armed]
    refine fires_alike working' disk' (rest_kept rest size tail) handled ?_
    rw [record]
    rfl

omit [Fintype N] in
theorem issue_alike {v : Device} (working : Working b.disk) (disk : Matches b.disk v)
    (rest : SameRest start b.disk.file.bytes)
    (rand : Nat) :
    Alike (Images start) (some (diskDriverIssue b rand))
      (some (.ok (SystemModel.diskDriverIssue (withDevice b.system v)))) := by
  have status : DiskHardware.diskCmd b.disk diskCmdStatus 0 none true rand =
      .ok (b.disk, statusCode b.disk.status) := rfl
  have code : statusCode b.disk.status = statusCode .idle ↔ v.status = .idle := by
    rw [disk.status]
    cases b.disk.status <;> simp [statusCode]
  simp only [diskDriverIssue, SystemModel.diskDriverIssue, bind_ok_left status, code]
  by_cases ready : v.status = .idle ∧ 0 < toInt b.system.disk.requestQueue.length
  · have ready' : (withDevice b.system v).device.status = .idle ∧
        0 < toInt (withDevice b.system v).disk.requestQueue.length := ready
    rw [if_pos ready, if_pos ready']
    have queue : (withDevice b.system v).disk.requestQueue = b.system.disk.requestQueue := rfl
    rw [queue]
    cases b.system.disk.requestQueue with
    | nil => exact .next _ _ ⟨rfl, working, disk, rest⟩
    | cons request others =>
      obtain ⟨d', issued, working', disk', same⟩ :=
        cmd_spec working disk request.op request.block request.buffer true rand
      simp only [issued, Except.map]
      exact .next _ _ ⟨rfl, working', disk', same ▸ rest⟩
  · have ready' : ¬ ((withDevice b.system v).device.status = .idle ∧
        0 < toInt (withDevice b.system v).disk.requestQueue.length) := ready
    rw [if_neg ready, if_neg ready']
    exact .next _ _ ⟨rfl, working, disk, rest⟩

omit [Fintype N] in
theorem manager_alike {v : Device} (working : Working b.disk) (disk : Matches b.disk v)
    (rest : SameRest start b.disk.file.bytes)
    (host stack : Bool) (rand : Nat) :
    Alike (Images start) (some (diskMgrInit b host stack rand))
      (some (SystemModel.diskMgrInit (withDevice b.system v) host stack)) := by
  have asked : ∀ d : Disk, DiskHardware.diskCmd d diskCmdInit 0 none host rand =
      DiskHardware.diskInit d host := fun _ => rfl
  have device : (withDevice b.system v).device = v := rfl
  simp only [diskMgrInit, SystemModel.diskMgrInit, asked, device]
  by_cases unknown : b.disk.status = .unknown
  · have fresh : v.status = .unknown := disk.status.trans unknown
    have code : (SystemModel.diskInit v).2 = 0 := by simp [SystemModel.diskInit, fresh]
    cases host with
    | false =>
      have failed : DiskHardware.diskInit b.disk false = .error (.exit 1) := by
        simp [DiskHardware.diskInit, unknown]
      rw [failed, code]
      exact .ended (Halt.exit 1)
    | true =>
      obtain ⟨d', opened, working', disk', same⟩ := init_spec working disk
      rw [code] at opened
      have idle : (SystemModel.diskInit v).1.status = .idle := by
        simp [SystemModel.diskInit, fresh]
      have known : d'.status ≠ .unknown := by
        rw [← disk'.status, idle]
        simp
      have size : DiskHardware.diskCmd d' diskCmdDisksize 0 none true rand =
          .ok (d', (SystemModel.diskInit v).1.numblocks) := by
        rw [disk'.numblocks]
        exact congrArg (fun n => Except.ok (d', n)) (if_neg known)
      have bytes : DiskHardware.diskCmd d' diskCmdBlocksize 0 none true rand =
          .ok (d', (SystemModel.diskInit v).1.blocksize) := by
        rw [disk'.blocksize]
        exact congrArg (fun n => Except.ok (d', n)) (if_neg known)
      rw [bind_ok_left opened]
      dsimp only
      rw [bind_ok_left size]
      dsimp only
      rw [bind_ok_left bytes, code]
      simp only [Bool.true_eq_false, if_false, Int.lt_irrefl]
      by_cases negative : (SystemModel.diskInit v).1.numblocks < 0 ∨
          (SystemModel.diskInit v).1.blocksize < 0
      · rw [if_pos negative, if_pos negative]
        exact .next _ _ ⟨rfl, working', disk', same ▸ rest⟩
      · rw [if_neg negative, if_neg negative]
        refine alike_map fun result _ => ?_
        obtain ⟨k, id⟩ := result
        dsimp only
        by_cases failed : id < 0
        · rw [if_pos failed, if_pos failed]
          exact ⟨rfl, working', disk', same ▸ rest⟩
        · rw [if_neg failed, if_neg failed]
          exact ⟨rfl, working', disk', same ▸ rest⟩
  · have again : ¬ v.status = .unknown := fun same => unknown (disk.status.symm.trans same)
    have refused : DiskHardware.diskInit b.disk host = .ok (b.disk, -1) := by
      simp [DiskHardware.diskInit, unknown]
    have code : (SystemModel.diskInit v).2 = -1 := by simp [SystemModel.diskInit, again]
    rw [bind_ok_left refused, code]
    exact .next _ _ ⟨rfl, working, disk, rest⟩

theorem step_alike {s : System N} (images : Images start b s) (l : Label N × Nat) :
    Alike (Images start) (byteStep b l) (step s l.1) := by
  obtain ⟨l, rand⟩ := l
  have same : s = withDevice b.system s.device := by
    rw [images.system]
    rfl
  have working := images.working
  have disk := images.disk
  have rest := images.rest
  generalize s.device = v at same disk
  subst same
  cases l with
  | tick =>
    have elsewhere : Elsewhere b.system .tick := trivial
    exact elsewhere_alike working disk rest elsewhere
  | completion => exact completion_alike working disk rest rand
  | call c =>
    by_cases manager : ∃ host stack, c = .diskMgrInit host stack
    · obtain ⟨host, stack, rfl⟩ := manager
      have here : (withDevice b.system v).ctl (withDevice b.system v).curr =
          b.system.ctl b.system.curr := rfl
      simp only [byteStep, step, here, call]
      cases b.system.ctl b.system.curr with
      | body r => exact manager_alike working disk rest host stack rand
      | unborn | terminated | waitReturn | semDown | semUp | send | recv | destroy | blockOp
      | driver | dispatcher => exact .none
    · have elsewhere : Elsewhere b.system (.call c) := by
        cases c <;> first | trivial | exact absurd ⟨_, _, rfl⟩ manager
      have plain : byteStep b (.call c, rand) =
          (step b.system (.call c)).map fun r => r.map fun s => ⟨s, b.disk⟩ := by
        cases c <;> first | rfl | exact absurd ⟨_, _, rfl⟩ manager
      rw [plain]
      exact elsewhere_alike working disk rest elsewhere
  | run m₁ m₂ =>
    by_cases issue : b.system.ctl b.system.curr = .driver .issue
    · have here : (withDevice b.system v).ctl (withDevice b.system v).curr = .driver .issue := issue
      simp only [byteStep, step, advance, here, issue]
      exact issue_alike working disk rest rand
    · have plain : byteStep b (.run m₁ m₂, rand) =
          (step b.system (.run m₁ m₂)).map fun r => r.map fun s => ⟨s, b.disk⟩ := by
        simp only [byteStep]
      rw [plain]
      exact elsewhere_alike working disk rest issue

/-- Whatever the tasks, the timer and rand() do, the system over the bytes of the file and the
    system over blocks go together, to the same state, to the same end, or not at all. -/
theorem bytes_refine_blocks (images : Images start b s) (labels : List (Label N × Nat)) :
    Alike (Images start) (outcome byteStep b labels) (outcome step s (labels.map Prod.fst)) :=
  alike_outcome (fun _ _ l same => step_alike same l) images labels

def unopened (bytes : List UInt8) : Disk :=
  { status := .unknown, file := ⟨bytes, 0⟩, numblocks := 0, blocksize := 0
    buffer := 0, prevBlock := 0, nextBlock := 0, delayMin := 0, delayMax := 0, timer := none }

def unopenedDevice (bytes : List UInt8) : Device :=
  { status := .unknown, buffer := 0, prevBlock := 0, nextBlock := 0, numblocks := 0, blocksize := 0
    file := fun i => asBlock (block 64 bytes i.toNat)
    fileBlocks := bytes.length / 64 }

omit [DecidableEq N] [Fintype N] in
/-- The two systems over any file within the bound are alike before disk_init. -/
theorem file_images (s : System N) {bytes : List UInt8} (small : bytes.length / 64 ≤ 7953644) :
    Images bytes ⟨withDevice s (unopenedDevice bytes), unopened bytes⟩
      (withDevice s (unopenedDevice bytes)) := by
  refine ⟨rfl, ⟨small, fun known => absurd rfl known, ?_, fun _ => rfl⟩,
    ⟨rfl, rfl, rfl, rfl, rfl, rfl, rfl, fun _ _ => rfl⟩, rfl, fun _ _ => rfl⟩
  intro busy
  rcases busy with busy | busy
  · cases busy
  · cases busy

def oneWrite : List (Label (Fin 1) × Nat) :=
  [(.call (.diskMgrInit true true), 0), (.call (.store 3 7), 0),
    (.call (.diskBlockWrite 0 (some 0)), 0)] ++
  List.replicate 13 (.run true true, 41) ++ [(.completion, 0)]

/-- A file of one block and six bytes more. -/
def shortFile : List UInt8 := List.replicate 70 0

theorem one_write_refines : ∃ b s,
    outcome byteStep ⟨withDevice bootSystem (unopenedDevice shortFile), unopened shortFile⟩ oneWrite =
      some (.ok b) ∧
    outcome step (withDevice bootSystem (unopenedDevice shortFile)) (oneWrite.map Prod.fst) =
      some (.ok s) ∧
    b.disk.file.bytes = [0, 0, 0, 7] ++ List.replicate 66 0 ∧ s.device.file 0 3 = 7 := by
  obtain ⟨b, found, bytes⟩ := outcome_reaches byteStep
    ⟨withDevice bootSystem (unopenedDevice shortFile), unopened shortFile⟩ oneWrite
    (fun b => b.disk.file.bytes = [0, 0, 0, 7] ++ List.replicate 66 0) (by decide +kernel)
  have small : shortFile.length / 64 ≤ 7953644 := by decide
  have alike := bytes_refine_blocks (file_images bootSystem small) oneWrite
  rw [found] at alike
  obtain ⟨s, follows, images⟩ := alike_ok alike
  refine ⟨b, s, found, follows, bytes, ?_⟩
  have inside : 0 < blocks b.disk := by
    rw [blocks, bytes]
    decide
  have file := images.disk.file 0 inside
  rw [bytes] at file
  exact (congrFun file 3).trans (by decide)

end Refinement
end DiskImage
