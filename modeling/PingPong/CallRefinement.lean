import PingPong.StatementBlocks
import PingPong.LockStep
import PingPong.PreemptionSafety
import PingPong.TaskConservation

/-!
The running system, whose steps are calls of kernel primitives, against the machine, whose steps
are single statements. Every run of the system is a run of the machine in which the statements of
a step come one after another, with the ticks and the completions where the system has them.
-/
namespace CallRefinement
open KernelModel hiding taskInit taskSwitch taskYield taskSuspend taskResume taskSleep taskWait
  taskExit
  taskSetprio wakeTasks scheduler leaveCs semInit semDown semUp semDestroy
open MachineModel CircularList QueueModel KernelEffects KernelViews SystemModel SystemFrames
open PreemptionModel UninterruptedCalls StatementBlocks TransitionRuns
variable {N : Type}

section Codes
variable [DecidableEq N]

def decrement (a : SemAddr) : Instr N :=
  .update (.sem a fun x => { x with value := toInt (x.value - 1) }) fun m =>
    leaveCs a ::
      if toInt ((m.kernel.sem a).value - 1) < 0
      then taskSuspend (some (.semQueue a)) else []

def downCode (a : SemAddr) : DownPoint → Code N
  | .enter => [.loop (.enterCs a), decrement a]
  | .update => [decrement a]
  | .leave v => leaveCs a ::
      if v < 0 then taskSuspend (some (.semQueue a)) else []
  | .suspend => taskSuspend (some (.semQueue a))
  | .woken => []

def testWaiting (a : SemAddr) (v : Int) : Instr N :=
  .read fun m =>
    if v ≤ 0 ∧ m.kernel.queues.head (.semQueue a) ≠ none then resumeFirst (.semQueue a) else []

def increment (a : SemAddr) : Instr N :=
  .update (.sem a fun x => { x with value := toInt (x.value + 1) }) fun m =>
    [leaveCs a, testWaiting a (toInt ((m.kernel.sem a).value + 1))]

def upCode (a : SemAddr) : UpPoint → Code N
  | .enter => [.loop (.enterCs a), increment a]
  | .update => [increment a]
  | .leave v => [leaveCs a, testWaiting a v]
  | .test v => [testWaiting a v]
  | .resume => resumeFirst (.semQueue a)

def storeCode (q a : Nat) : Code N :=
  [.host fun malloc₁ => if malloc₁ = false then [] else
    [.host fun malloc₂ => if malloc₂ = false then [] else
      .assign (.mqueue q fun m x => { x with
        buffer := x.buffer ++ [loadBytes m.ram a (sizeOfInt x.msgSize)] }) ::
      (semUp (some (.sBuffer q)) ++ semUp (some (.sItem q)))]]

def sendCheck (q a : Nat) : Instr N :=
  .read fun m => if (m.mqueue q).active = 0 then [] else storeCode q a

def sendCode (q a : Nat) : SendPoint → Code N
  | .vaga => semDown (some (.sVaga q)) ++
      (semDown (some (.sBuffer q)) ++ [sendCheck q a])
  | .buffer => semDown (some (.sBuffer q)) ++ [sendCheck q a]
  | .check => [sendCheck q a]
  | .store => storeCode q a
  | .upBuffer => semUp (some (.sBuffer q)) ++ semUp (some (.sItem q))
  | .upItem => semUp (some (.sItem q))

/-- One statement looks whether the queue is active and reads its first message. -/
def recvCheck (q a : Nat) : Instr N :=
  .read fun m =>
    if (m.mqueue q).active = 0 then []
    else match (m.mqueue q).buffer with
      | [] => [.halt .fault]
      | first :: _ =>
        .assign (.ram fun ram =>
          storeBytes ram a (first.take (sizeOfInt (m.mqueue q).msgSize))) ::
        .assign (.mqueue q fun _ x => { x with buffer := x.buffer.tail }) ::
        (semUp (some (.sBuffer q)) ++ semUp (some (.sVaga q)))

def recvCode (q a : Nat) : RecvPoint → Code N
  | .item => semDown (some (.sItem q)) ++
      (semDown (some (.sBuffer q)) ++ [recvCheck q a])
  | .buffer => semDown (some (.sBuffer q)) ++ [recvCheck q a]
  | .check | .take => [recvCheck q a]
  | .upBuffer => semUp (some (.sBuffer q)) ++ semUp (some (.sVaga q))
  | .upVaga => semUp (some (.sVaga q))

def destroyCode (q : Nat) : DestroyPoint → Code N
  | .buffer => semDestroy (some (.sBuffer q)) ++
      (semDestroy (some (.sItem q)) ++
        (semDestroy (some (.sVaga q)) ++ [.loop (.mqueueDestroy q)]))
  | .item => semDestroy (some (.sItem q)) ++
      (semDestroy (some (.sVaga q)) ++ [.loop (.mqueueDestroy q)])
  | .vaga => semDestroy (some (.sVaga q)) ++ [.loop (.mqueueDestroy q)]
  | .drain => [.loop (.mqueueDestroy q)]
  | .close => [.assign (.mqueue q fun _ x => { x with active := 0 })]

def wakeDriver : Instr N :=
  .read fun m =>
    if (m.kernel.task .diskDriverTask).status = .suspended
    then taskResume (some .diskDriverTask) (some .diskQueue) else []

def blockOpCode (block : Int) (buffer : Option Nat) (op : Operation) : BlockOpPoint → Code N
  | .enqueue => [.host fun malloc => if malloc = false then [] else
      .assign (.disk fun m d => { d with
        requestQueue := d.requestQueue ++ [⟨taskId m.kernel, block, buffer, op⟩] }) ::
      wakeDriver :: (semUp (some .semDisk) ++
        taskSuspend (some .diskQueue))]
  | .resume => wakeDriver :: (semUp (some .semDisk) ++
      taskSuspend (some .diskQueue))
  | .up => semUp (some .semDisk) ++ taskSuspend (some .diskQueue)
  | .suspend => taskSuspend (some .diskQueue)
  | .finish => []

def testSignal : Instr N :=
  .read fun m =>
    if m.disk.signal ≠ 0 then
      resumeFirst .diskQueue ++ [.assign (.disk fun _ d => { d with signal := 0 })]
    else []

def issueRequest : Instr N :=
  .read fun m => if m.device.status = .idle then
    [.read fun m => if 0 < toInt m.disk.requestQueue.length then
      [.read fun m => match m.disk.requestQueue with
        | [] => [.halt .fault]
        | request :: _ =>
          [.assign (.disk fun _ d => { d with requestQueue := d.requestQueue.tail }),
           .assign (.device fun d => (diskCmd d request.op request.block request.buffer).1)]]
      else []]
  else []

def driverCode : DriverPoint → Code N
  | .down => [.loop .diskDriver]
  | .test => testSignal :: issueRequest :: (semUp (some .semDisk) ++
      (taskSuspend (some .diskQueue) ++ [.loop .diskDriver]))
  | .issue => issueRequest :: (semUp (some .semDisk) ++
      (taskSuspend (some .diskQueue) ++ [.loop .diskDriver]))
  | .up => semUp (some .semDisk) ++
      (taskSuspend (some .diskQueue) ++ [.loop .diskDriver])
  | .suspend => taskSuspend (some .diskQueue) ++ [.loop .diskDriver]

def dispatcherCode : DispatcherPoint N → Code N
  | .top => [.loop .dispatcher]
  | .wake dispatcherStart => wakeTasks ++
      (scheduler dispatcherStart ++ [.loop .dispatcher])
  | .schedule dispatcherStart => scheduler dispatcherStart ++ [.loop .dispatcher]
  | .dispatch dispatcherStart next => scheduled (some next) dispatcherStart ++ [.loop .dispatcher]
  | .back next taskStart =>
    [.assign (.task next fun m d =>
      { d with processorTime := d.processorTime + (systime m.kernel - taskStart) }),
     .read fun m =>
      let charged := systime m.kernel
      [.assign (.task .dispatcherTask fun m d =>
        { d with processorTime := d.processorTime + (systime m.kernel - charged) })],
     .loop .dispatcher]

/-- What is left to execute of the call a task is in. -/
def codeAt : Ctl N → Code N
  | .unborn | .terminated | .body _ | .waitReturn _ => []
  | .semDown n point => downCode (.user n) point
  | .semUp n point => upCode (.user n) point
  | .send q a point => sendCode q a point
  | .recv q a point => recvCode q a point
  | .destroy q point => destroyCode q point
  | .blockOp block buffer op point => blockOpCode block buffer op point
  | .driver point => driverCode point
  | .dispatcher point => dispatcherCode point

end Codes

section States
variable [DecidableEq N]

def memoryOf (s : System N) : Memory N := ⟨s.kernel, s.mqueue, s.disk, s.device, s.ram⟩

def phaseOf : Ctl N → Phase
  | .unborn => .unborn
  | .terminated => .ended
  | _ => .alive

def inCall : Ctl N → Bool
  | .unborn | .terminated | .dispatcher _ => false
  | _ => true

/-- The contexts that are not loaded, and how far each task has come. -/
structure Parked (ctl : Tcb N → Ctl N) (curr : Tcb N) (m : Machine N) : Prop where
  saved : ∀ t, t ≠ curr → m.saved t = ⟨[], none, codeAt (ctl t)⟩
  phase : ∀ t, t ≠ .dispatcherTask → m.phase t = phaseOf (ctl t)
  loop : ∀ t point, ctl t = .dispatcher point → t = .dispatcherTask

/-- The machine has the memory of the system, and every task the rest of its call to execute. -/
structure Shows (s : System N) (m : Machine N) : Prop where
  memory : m.memory = memoryOf s
  running : m.running = ⟨[], none, codeAt (s.ctl s.curr)⟩
  holder : m.holder = s.curr
  parked : Parked s.ctl s.curr m

variable {s s' : System N} {m : Machine N} {ctl : Tcb N → Ctl N} {curr : Tcb N} {old c : Ctl N}

omit [DecidableEq N] in
theorem call_alive (inside : inCall c = true) : phaseOf c = .alive := by
  cases c <;> first | rfl | cases inside

omit [DecidableEq N] in
theorem call_loop {P : Prop} (inside : inCall c = true) (p : DispatcherPoint N)
    (same : c = .dispatcher p) : P := by
  rw [same] at inside
  cases inside

theorem shown_poised (shown : Shows s m) (here : s.ctl s.curr = old) :
    poised m (memoryOf s) (codeAt old) = m := by
  unfold poised
  rw [← here, ← shown.memory, ← shown.running]

theorem loop_update {t : Tcb N} (parked : Parked ctl curr m)
    (loop : ∀ p, c = .dispatcher p → t = .dispatcherTask) {u : Tcb N} {p : DispatcherPoint N}
    (found : Function.update ctl t c u = .dispatcher p) : u = .dispatcherTask := by
  by_cases same : u = t
  · rw [same, Function.update_self] at found
    rw [same]
    exact loop p found
  · rw [Function.update_of_ne same] at found
    exact parked.loop u p found

theorem phase_update (parked : Parked ctl curr m) (t : Tcb N) {u : Tcb N}
    (user : u ≠ .dispatcherTask) :
    Function.update m.phase t (phaseOf c) u = phaseOf (Function.update ctl t c u) := by
  by_cases same : u = t
  · simp only [same, Function.update_self]
  · simp only [Function.update_of_ne same, parked.phase u user]

theorem parked_goto (parked : Parked ctl curr m) (here : ctl curr = old)
    (alive : phaseOf c = phaseOf old) (loop : ∀ p, c = .dispatcher p → curr = .dispatcherTask) :
    Parked (Function.update ctl curr c) curr m := by
  refine ⟨fun t other => ?_, fun t user => ?_, fun _ _ found => loop_update parked loop found⟩
  · rw [Function.update_of_ne other]
    exact parked.saved t other
  · rw [parked.phase t user]
    by_cases same : t = curr
    · rw [same, Function.update_self, alive, here]
    · rw [Function.update_of_ne same]

theorem parked_exit (parked : Parked ctl curr m) :
    Parked (Function.update ctl curr .terminated) curr
      { m with phase := Function.update m.phase curr .ended } := by
  refine ⟨fun t other => ?_, fun _ user => phase_update (c := .terminated) parked curr user,
    fun _ _ found => loop_update parked (by rintro _ ⟨⟩) found⟩
  rw [Function.update_of_ne other]
  exact parked.saved t other

/-- task_init gives the task a context of its own. -/
theorem parked_init (parked : Parked ctl curr m) (t : Tcb N) (inside : inCall c = true) :
    Parked (Function.update ctl t c) curr { m with
      saved := Function.update m.saved t ⟨[], none, codeAt c⟩
      phase := Function.update m.phase t .alive } := by
  refine ⟨fun u other => ?_, fun u user => ?_,
    fun _ _ found => loop_update parked (call_loop inside) found⟩
  · by_cases same : u = t
    · simp only [same, Function.update_self]
    · simp only [Function.update_of_ne same]
      exact parked.saved u other
  · rw [← call_alive inside]
    exact phase_update parked t user

theorem parked_shows (parked : Parked s.ctl s.curr m) (holder : m.holder = s.curr)
    (here : s.ctl s.curr = c) : Shows s (poised m (memoryOf s) (codeAt c)) := by
  refine ⟨rfl, ?_, holder, ⟨parked.saved, parked.phase, parked.loop⟩⟩
  rw [here]
  rfl

/-- The running context is saved and that of the system's curr is loaded. -/
theorem swapped_shows (parked : Parked s.ctl curr m) (memory : m.memory = memoryOf s)
    (running : m.running = ⟨[], none, codeAt (s.ctl curr)⟩) :
    Shows s (m.swapcontext curr s.curr) := by
  have contexts : ∀ t, Function.update m.saved curr m.running t =
      ⟨[], none, codeAt (s.ctl t)⟩ := by
    intro t
    by_cases same : t = curr
    · rw [same, Function.update_self]
      exact running
    · rw [Function.update_of_ne same]
      exact parked.saved t same
  exact ⟨memory, contexts s.curr, rfl, ⟨fun t _ => contexts t, parked.phase, parked.loop⟩⟩

theorem switched_shows (parked : Parked s.ctl curr m) (here : s.ctl curr = c) :
    Shows s ((poised m (memoryOf s) (codeAt c)).swapcontext curr s.curr) :=
  swapped_shows ⟨parked.saved, parked.phase, parked.loop⟩ rfl (by rw [here]; rfl)

theorem same_shows (shown : Shows s m) (ctl : s'.ctl = s.ctl) (curr : s'.curr = s.curr) :
    Shows s' { m with memory := memoryOf s' } := by
  refine ⟨rfl, ?_, curr ▸ shown.holder, ?_⟩
  · rw [ctl, curr]
    exact shown.running
  · rw [ctl, curr]
    exact ⟨shown.parked.saved, shown.parked.phase, shown.parked.loop⟩

end States

section Statements
variable [DecidableEq N] [Fintype N]

/-- Statements of the running code, with what the host answers to each. -/
def Goes (m m' : Machine N) : Prop :=
  ∃ hosts : List Bool, Run (fun a l b => PreemptionModel.step a l = some (.ok b)) m
    (hosts.map PreemptionModel.Label.run) m'

/-- Statements lead to a machine that shows the system. -/
def Reaches (m : Machine N) (s : System N) : Prop := ∃ m', Goes m m' ∧ Shows s m'

variable {s s' : System N} {m m' m'' : Machine N} {code rest : Code N} {old c : Ctl N}

theorem alone_goes (alone : Alone m m') : Goes m m' := by
  obtain ⟨n, run⟩ := alone
  exact ⟨List.replicate n true, by rwa [List.map_replicate]⟩

theorem goes_trans (first : Goes m m') (second : Goes m' m'') : Goes m m'' := by
  obtain ⟨hosts, run⟩ := first
  obtain ⟨hosts', more⟩ := second
  exact ⟨hosts ++ hosts', by rw [List.map_append]; exact run_append run more⟩

theorem goes_host {next : Bool → Code N} {memory : Memory N} (host : Bool) :
    Goes (poised m memory (.host next :: rest)) (poised m memory (next host ++ rest)) :=
  ⟨[host], run_one rfl⟩

theorem reaches_goes (first : Goes m m') (more : Reaches m' s) : Reaches m s := by
  obtain ⟨m'', goes, shows'⟩ := more
  exact ⟨m'', goes_trans first goes, shows'⟩

theorem stays (shown : Shows s m) (here : s.ctl s.curr = old)
    (ctl : s'.ctl = Function.update s.ctl s.curr c) (curr : s'.curr = s.curr)
    (alive : phaseOf c = phaseOf old) (loop : ∀ p, c = .dispatcher p → s.curr = .dispatcherTask)
    (goes : Goes (poised m (memoryOf s) code) (poised m (memoryOf s') (codeAt c))) :
    Reaches (poised m (memoryOf s) code) s' := by
  refine ⟨_, goes, parked_shows ?_ (curr ▸ shown.holder) (by rw [ctl, curr, Function.update_self])⟩
  rw [ctl, curr]
  exact parked_goto shown.parked here alive loop

theorem moves_on (shown : Shows s m) (here : s.ctl s.curr = old)
    (ctl : s'.ctl = Function.update s.ctl s.curr c) (curr : s'.curr = s.curr)
    (inside : inCall old = true ∧ inCall c = true)
    (alone : Alone (poised m (memoryOf s) code) (poised m (memoryOf s') (codeAt c))) :
    Reaches (poised m (memoryOf s) code) s' :=
  stays shown here ctl curr ((call_alive inside.2).trans (call_alive inside.1).symm)
    (call_loop inside.2) (alone_goes alone)

theorem answers (code : Int) (shown : Shows s m) (here : s.ctl s.curr = old)
    (inside : inCall old = true) : Reaches (poised m (memoryOf s) []) (s.answer code) :=
  moves_on (c := .body code) shown here rfl rfl ⟨inside, rfl⟩ (alone_here _)

/-- A call looks whether it may begin, and returns an error if not. -/
theorem opens (closed : Memory N → Prop) [DecidablePred closed] (shown : Shows s m)
    (here : s.ctl s.curr = old) (inside : inCall old = true ∧ inCall c = true)
    (ctl : s'.ctl = Function.update s.ctl s.curr c) (curr : s'.curr = s.curr)
    (memory : memoryOf s' = memoryOf s) :
    Reaches (poised m (memoryOf s) [.read fun m => if closed m then [] else codeAt c])
      (if closed (memoryOf s) then s.answer (-1) else s') := by
  refine reaches_goes (alone_goes (look_alone (alone_here _))) ?_
  rw [List.append_nil]
  split
  · exact answers (-1) shown here inside.1
  · refine moves_on shown here ctl curr inside ?_
    rw [memory]
    exact alone_here _

theorem switches (shown : Shows s m) (here : s.ctl s.curr = old)
    (ctl : s'.ctl = Function.update s.ctl s.curr c) (alive : phaseOf c = phaseOf old)
    (loop : ∀ p, c = .dispatcher p → s.curr = .dispatcherTask)
    (goes : Goes (poised m (memoryOf s) code)
      ((poised m (memoryOf s') (codeAt c)).swapcontext s.curr s'.curr)) :
    Reaches (poised m (memoryOf s) code) s' := by
  refine ⟨_, goes, switched_shows ?_ (by rw [ctl, Function.update_self])⟩
  rw [ctl]
  exact parked_goto shown.parked here alive loop

theorem yields (shown : Shows s m) (here : s.ctl s.curr = old)
    (ctl : s'.ctl = Function.update s.ctl s.curr c)
    (inside : inCall old = true ∧ inCall c = true)
    (alone : Alone (poised m (memoryOf s) code)
      ((poised m (memoryOf s') (codeAt c)).swapcontext s.curr s'.curr)) :
    Reaches (poised m (memoryOf s) code) s' :=
  switches shown here ctl ((call_alive inside.2).trans (call_alive inside.1).symm)
    (call_loop inside.2) (alone_goes alone)

end Statements

section Semaphores
variable [DecidableEq N] [Fintype N] {s s' : System N} {m : Machine N} {n : Nat} {old : Ctl N}

theorem down_dest {a : SemAddr} {k k' : Kernel N} {result : Option Int}
    (run : KernelModel.semDown k (some a) = .ok (k', result)) :
    k'.curr = if result = none then .dispatcherTask else k.curr := by
  rcases semDown_returns run with ⟨-, closed⟩ | ⟨active, free⟩
  · rw [semDown_closed closed] at run
    cases run
    rfl
  · rw [semDown_open active free rfl] at run
    split at run
    · obtain ⟨j, suspended, same⟩ := map_ok run
      cases same
      exact suspend_dest suspended
    · cases run
      rfl

theorem down_reaches (c : Ctl N) {a : SemAddr} {k : Kernel N} {result : Option Int}
    (shown : Shows s m)
    (here : s.ctl s.curr = old) (inside : inCall old = true ∧ inCall c = true)
    (run : KernelModel.semDown s.kernel (some a) = .ok (k, result)) :
    Reaches (poised m (memoryOf s) (semDown (some a) ++ codeAt c))
      ((s.withKernel k).goto s.curr c) := by
  have alone : Alone (poised m (memoryOf s) (semDown (some a) ++ codeAt c)) _ :=
    down_poised run
  have dest := down_dest run
  by_cases suspends : result = none
  · rw [if_pos suspends] at alone dest
    refine yields shown here rfl inside ?_
    change Alone _ ((poised m _ _).swapcontext s.curr k.curr)
    rw [dest]
    exact alone
  · rw [if_neg suspends] at alone dest
    exact moves_on shown here rfl dest inside alone

theorem up_curr {a : SemAddr} {k k' : Kernel N} {result : Int}
    (run : KernelModel.semUp k (some a) = .ok (k', result)) : k'.curr = k.curr := by
  rcases semUp_effect run with rfl | ⟨v, rfl | ⟨_, resumed⟩⟩
  · rfl
  · rfl
  · have same : k'.curr = (recount k a v).curr := resume_blind blind_curr resumed
    exact same

theorem up_reaches (c : Ctl N) {a : SemAddr} {k : Kernel N} {result : Int}
    (shown : Shows s m)
    (here : s.ctl s.curr = old) (inside : inCall old = true ∧ inCall c = true)
    (run : KernelModel.semUp s.kernel (some a) = .ok (k, result)) :
    Reaches (poised m (memoryOf s) (semUp (some a) ++ codeAt c))
      ((s.withKernel k).goto s.curr c) :=
  moves_on shown here rfl (up_curr run) inside (up_poised run)

theorem suspend_reaches (c : Ctl N) {q : TaskQueue} {k : Kernel N}
    (shown : Shows s m)
    (here : s.ctl s.curr = old) (inside : inCall old = true ∧ inCall c = true)
    (run : KernelModel.taskSuspend s.kernel (some q) = .ok k) :
    Reaches (poised m (memoryOf s) (taskSuspend (some q) ++ codeAt c))
      ((s.withKernel k).goto s.curr c) := by
  refine yields shown here rfl inside ?_
  change Alone _ ((poised m _ _).swapcontext s.curr k.curr)
  rw [suspend_dest run]
  exact block_alone run

theorem resume_reaches (c : Ctl N) {t : Tcb N} {q : TaskQueue} {k : Kernel N}
    (shown : Shows s m)
    (here : s.ctl s.curr = old) (inside : inCall old = true ∧ inCall c = true)
    (run : KernelModel.taskResume s.kernel (some t) (some q) = .ok k) :
    Reaches (poised m (memoryOf s) (taskResume (some t) (some q) ++ codeAt c))
      ((s.withKernel k).goto s.curr c) :=
  moves_on shown here rfl (resume_blind blind_curr run) inside (wake_alone run)

omit [Fintype N] in
theorem answer_goto {k : Kernel N} (curr : k.curr = s.curr) (code : Int) :
    (s.withKernel k).answer code = (s.withKernel k).goto s.curr (.body code) := by
  change (s.withKernel k).goto k.curr (.body code) = _
  rw [curr]

theorem up_answers {a : SemAddr} {k : Kernel N} {result : Int} (code : Int) (shown : Shows s m)
    (here : s.ctl s.curr = old) (inside : inCall old = true)
    (run : KernelModel.semUp s.kernel (some a) = .ok (k, result)) :
    Reaches (poised m (memoryOf s) (semUp (some a))) ((s.withKernel k).answer code) := by
  rw [answer_goto (up_curr run), ← List.append_nil (semUp (some a))]
  exact up_reaches (.body code) shown here ⟨inside, rfl⟩ run

/-- The spin lock: the task stays where it is until the lock is free. -/
theorem enters (next : Ctl N) (shown : Shows s m) (here : s.ctl s.curr = old)
    (inside : inCall old = true ∧ inCall next = true)
    (code : codeAt old = .loop (.enterCs (.user n)) :: codeAt next)
    (run : (if (s.kernel.sem (.user n)).lock ≠ 0 then .ok s
      else .ok ((s.withKernel (s.kernel.setSem (.user n) fun x => { x with lock := 1 })).goto
        s.curr next)) = (.ok s' : Except Halt (System N))) :
    Reaches (poised m (memoryOf s) (codeAt old)) s' := by
  split at run
  · cases run
    have same : s.ctl = Function.update s.ctl s.curr old := by
      rw [← here, Function.update_eq_self]
    exact moves_on shown here same rfl ⟨inside.1, inside.1⟩ (alone_here _)
  · rename_i vacant
    cases run
    have entered : KernelModel.enterCs s.kernel (.user n) =
      .ok (s.kernel.setSem (.user n) fun x => { x with lock := 1 }) := if_neg vacant
    rw [code]
    exact moves_on shown here rfl rfl inside (enter_poised entered)

theorem semDown_reaches {point : DownPoint} (shown : Shows s m)
    (here : s.ctl s.curr = .semDown n point) (run : semDownStep s n point = .ok s') :
    Reaches (poised m (memoryOf s) (downCode (.user n) point)) s' := by
  cases point with
  | enter =>
    exact enters (.semDown n .update) shown here ⟨rfl, rfl⟩ rfl run
  | update =>
    cases run
    refine moves_on shown here rfl rfl ⟨rfl, rfl⟩ (update_alone ?_)
    rw [List.append_nil]
    exact alone_here _
  | leave v =>
    simp only [semDownStep] at run
    cases run
    split
    · rename_i waits
      refine moves_on shown here rfl rfl ⟨rfl, rfl⟩ (assign_alone ?_)
      rw [if_pos waits]
      exact alone_here _
    · rename_i goesOn
      refine moves_on shown here rfl rfl ⟨rfl, rfl⟩ (assign_alone ?_)
      rw [if_neg goesOn]
      exact alone_here _
  | suspend =>
    obtain ⟨k, suspended, rfl⟩ := map_ok run
    exact suspend_reaches (.semDown n .woken) shown here ⟨rfl, rfl⟩ suspended
  | woken =>
    cases run
    exact moves_on shown here rfl rfl ⟨rfl, rfl⟩ (alone_here _)

theorem semUp_reaches {point : UpPoint} (shown : Shows s m)
    (here : s.ctl s.curr = .semUp n point) (run : semUpStep s n point = .ok s') :
    Reaches (poised m (memoryOf s) (upCode (.user n) point)) s' := by
  cases point with
  | enter =>
    exact enters (.semUp n .update) shown here ⟨rfl, rfl⟩ rfl run
  | update =>
    cases run
    exact moves_on shown here rfl rfl ⟨rfl, rfl⟩ (update_alone (alone_here _))
  | leave v =>
    cases run
    exact moves_on shown here rfl rfl ⟨rfl, rfl⟩ (assign_alone (alone_here _))
  | test v =>
    simp only [semUpStep] at run
    split at run
    · rename_i low
      split at run
      · rename_i waiting
        cases run
        refine moves_on shown here rfl rfl ⟨rfl, rfl⟩ (look_alone ?_)
        rw [if_pos ⟨low, waiting⟩]
        exact alone_here _
      · rename_i vacant
        cases run
        refine moves_on shown here rfl rfl ⟨rfl, rfl⟩ (look_alone ?_)
        rw [if_neg fun both => vacant both.2]
        exact alone_here _
    · rename_i high
      cases run
      refine moves_on shown here rfl rfl ⟨rfl, rfl⟩ (look_alone ?_)
      rw [if_neg fun both => high both.1]
      exact alone_here _
  | resume =>
    obtain ⟨k, resumed, rfl⟩ := map_ok run
    cases head : s.kernel.queues.head (.semQueue (.user n)) with
    | none =>
      rw [head] at resumed
      cases resumed
    | some t =>
      rw [head] at resumed
      refine reaches_goes (alone_goes (look_alone (alone_here _))) ?_
      change Reaches (poised m (memoryOf s) (taskResume (s.kernel.queues.head _) _ ++ _)) _
      rw [head, answer_goto (resume_blind blind_curr resumed)]
      exact resume_reaches (.body 0) shown here ⟨rfl, rfl⟩ resumed

end Semaphores

section MessageQueues
variable [DecidableEq N] [Fintype N] {s s' : System N} {m : Machine N} {q a : Nat}

theorem send_reaches {malloc₁ malloc₂ : Bool} {point : SendPoint} (shown : Shows s m)
    (here : s.ctl s.curr = .send q a point)
    (run : mqueueSendStep s q a malloc₁ malloc₂ point = .ok s') :
    Reaches (poised m (memoryOf s) (sendCode q a point)) s' := by
  cases point with
  | vaga =>
    obtain ⟨⟨k, result⟩, down, rfl⟩ := map_ok run
    exact down_reaches (.send q a .buffer) shown here ⟨rfl, rfl⟩ down
  | buffer =>
    obtain ⟨⟨k, result⟩, down, rfl⟩ := map_ok run
    exact down_reaches (.send q a .check) shown here ⟨rfl, rfl⟩ down
  | check =>
    cases run
    exact opens (c := .send q a .store) (fun m => (m.mqueue q).active = 0)
      shown here ⟨rfl, rfl⟩ rfl rfl rfl
  | store =>
    simp only [mqueueSendStep] at run
    split at run
    · rename_i refused
      cases run
      exact reaches_goes (goes_host false) (answers (-1) shown here rfl)
    · refine reaches_goes (goes_host true) ?_
      split at run
      · rename_i refused
        cases run
        exact reaches_goes (goes_host false) (answers (-1) shown here rfl)
      · cases run
        refine reaches_goes (goes_host true) ?_
        exact moves_on shown here rfl rfl ⟨rfl, rfl⟩ (assign_alone (alone_here _))
  | upBuffer =>
    obtain ⟨⟨k, result⟩, up, rfl⟩ := map_ok run
    exact up_reaches (.send q a .upItem) shown here ⟨rfl, rfl⟩ up
  | upItem =>
    obtain ⟨⟨k, result⟩, up, rfl⟩ := map_ok run
    exact up_answers 0 shown here rfl up

/-- The machine takes the message in the step in which it looks at the queue. -/
theorem recv_reaches {point : RecvPoint} (shown : Shows s m)
    (here : s.ctl s.curr = .recv q a point)
    (active : point = .take → (s.mqueue q).active ≠ 0)
    (run : mqueueRecvStep s q a point = .ok s') :
    Reaches (poised m (memoryOf s) (recvCode q a point)) s' := by
  cases point with
  | item =>
    obtain ⟨⟨k, result⟩, down, rfl⟩ := map_ok run
    exact down_reaches (.recv q a .buffer) shown here ⟨rfl, rfl⟩ down
  | buffer =>
    obtain ⟨⟨k, result⟩, down, rfl⟩ := map_ok run
    exact down_reaches (.recv q a .check) shown here ⟨rfl, rfl⟩ down
  | check =>
    cases run
    split
    · rename_i inactive
      refine moves_on shown here rfl rfl ⟨rfl, rfl⟩ (look_alone ?_)
      change Alone (poised m _ ((if (s.mqueue q).active = 0 then [] else _) ++ [])) _
      rw [if_pos inactive]
      exact alone_here _
    · exact moves_on shown here rfl rfl ⟨rfl, rfl⟩ (alone_here _)
  | take =>
    have on := active rfl
    simp only [mqueueRecvStep] at run
    split at run
    · cases run
    · rename_i first rest buffer
      cases run
      obtain rfl : rest = (s.mqueue q).buffer.tail := by rw [buffer]; rfl
      refine moves_on shown here rfl rfl ⟨rfl, rfl⟩ (look_alone ?_)
      simp only [memoryOf, on, ↓reduceIte]
      rw [buffer]
      apply assign_alone
      apply assign_alone
      exact alone_here _
  | upBuffer =>
    obtain ⟨⟨k, result⟩, up, rfl⟩ := map_ok run
    exact up_reaches (.recv q a .upVaga) shown here ⟨rfl, rfl⟩ up
  | upVaga =>
    obtain ⟨⟨k, result⟩, up, rfl⟩ := map_ok run
    exact up_answers 0 shown here rfl up

theorem semDestroy_curr {k k' : Kernel N} {a : SemAddr} {result : Int}
    (run : KernelModel.semDestroy k (some a) = .ok (k', result)) : k'.curr = k.curr := by
  simp only [KernelModel.semDestroy] at run
  split at run
  · cases run
    rfl
  · obtain ⟨j, drained, same⟩ := map_ok run
    cases same
    have kept : k'.curr = (k.setSem a fun x => { x with active := 0 }).curr :=
      drain_blind blind_curr drained
    exact kept

theorem semDestroy_reaches (c : Ctl N) {old : Ctl N} {a : SemAddr} {k : Kernel N} {result : Int}
    (shown : Shows s m) (here : s.ctl s.curr = old) (inside : inCall old = true ∧ inCall c = true)
    (run : KernelModel.semDestroy s.kernel (some a) = .ok (k, result)) :
    Reaches (poised m (memoryOf s) (semDestroy (some a) ++ codeAt c))
      ((s.withKernel k).goto s.curr c) :=
  moves_on shown here rfl (semDestroy_curr run) inside (destroy_alone run)

theorem destroy_reaches {point : DestroyPoint} (shown : Shows s m)
    (here : s.ctl s.curr = .destroy q point) (run : mqueueDestroyStep s q point = .ok s') :
    Reaches (poised m (memoryOf s) (destroyCode q point)) s' := by
  cases point with
  | buffer =>
    obtain ⟨⟨k, result⟩, destroyed, rfl⟩ := map_ok run
    exact semDestroy_reaches (.destroy q .item) shown here ⟨rfl, rfl⟩ destroyed
  | item =>
    obtain ⟨⟨k, result⟩, destroyed, rfl⟩ := map_ok run
    exact semDestroy_reaches (.destroy q .vaga) shown here ⟨rfl, rfl⟩ destroyed
  | vaga =>
    obtain ⟨⟨k, result⟩, destroyed, rfl⟩ := map_ok run
    exact semDestroy_reaches (.destroy q .drain) shown here ⟨rfl, rfl⟩ destroyed
  | drain =>
    simp only [mqueueDestroyStep] at run
    split at run
    · rename_i empty
      cases run
      refine moves_on shown here rfl rfl ⟨rfl, rfl⟩ (loop_alone (look_alone ?_))
      simp only [memoryOf]
      rw [empty]
      exact alone_here _
    · rename_i first rest buffer
      cases run
      obtain rfl : rest = (s.mqueue q).buffer.tail := by rw [buffer]; rfl
      have same : s.ctl = Function.update s.ctl s.curr (.destroy q .drain) := by
        rw [← here, Function.update_eq_self]
      refine moves_on shown here same rfl ⟨rfl, rfl⟩ (loop_alone (look_alone ?_))
      simp only [memoryOf]
      rw [buffer]
      apply assign_alone
      exact alone_here _
  | close =>
    cases run
    exact moves_on shown here rfl rfl ⟨rfl, rfl⟩ (assign_alone (alone_here _))

end MessageQueues

section Disk
variable [DecidableEq N] [Fintype N] {s s' : System N} {m : Machine N} {block : Int}
variable {buffer : Option Nat} {op : Operation}

theorem blockOp_reaches {malloc : Bool} {point : BlockOpPoint} (shown : Shows s m)
    (here : s.ctl s.curr = .blockOp block buffer op point)
    (run : diskBlockOpStep s block buffer op malloc point = .ok s') :
    Reaches (poised m (memoryOf s) (blockOpCode block buffer op point)) s' := by
  cases point with
  | enqueue =>
    simp only [diskBlockOpStep] at run
    split at run
    · rename_i refused
      cases run
      exact reaches_goes (goes_host false) (moves_on shown here rfl rfl ⟨rfl, rfl⟩ (alone_here _))
    · cases run
      refine reaches_goes (goes_host true) ?_
      exact moves_on shown here rfl rfl ⟨rfl, rfl⟩ (assign_alone (alone_here _))
  | resume =>
    refine reaches_goes (alone_goes (look_alone (alone_here _))) ?_
    change Reaches (poised m (memoryOf s) ((if (s.kernel.task .diskDriverTask).status = .suspended
      then taskResume (some .diskDriverTask) (some .diskQueue) else []) ++
        codeAt (.blockOp block buffer op .up))) _
    simp only [diskBlockOpStep] at run
    split at run
    · rename_i suspended
      obtain ⟨k, resumed, rfl⟩ := map_ok run
      rw [if_pos suspended]
      exact resume_reaches (.blockOp block buffer op .up) shown here ⟨rfl, rfl⟩ resumed
    · rename_i awake
      cases run
      rw [if_neg awake]
      exact moves_on shown here rfl rfl ⟨rfl, rfl⟩ (alone_here _)
  | up =>
    obtain ⟨⟨k, result⟩, up, rfl⟩ := map_ok run
    exact up_reaches (.blockOp block buffer op .suspend) shown here ⟨rfl, rfl⟩ up
  | suspend =>
    obtain ⟨k, suspended, rfl⟩ := map_ok run
    exact suspend_reaches (.blockOp block buffer op .finish) shown here ⟨rfl, rfl⟩ suspended
  | finish =>
    cases run
    exact moves_on shown here rfl rfl ⟨rfl, rfl⟩ (alone_here _)

theorem signal_reaches (shown : Shows s m) (here : s.ctl s.curr = .driver .test)
    (run : diskDriverTest s = .ok s') :
    Reaches (poised m (memoryOf s) (driverCode .test)) s' := by
  refine reaches_goes (alone_goes (look_alone (alone_here _))) ?_
  change Reaches (poised m (memoryOf s) ((if s.disk.signal ≠ 0 then
    resumeFirst .diskQueue ++ [.assign (.disk fun _ d => { d with signal := 0 })] else []) ++
      codeAt (.driver .issue))) _
  simp only [diskDriverTest] at run
  split at run
  · rename_i signalled
    obtain ⟨k, resumed, rfl⟩ := map_ok run
    rw [if_pos signalled]
    cases head : s.kernel.queues.head .diskQueue with
    | none =>
      rw [head] at resumed
      cases resumed
    | some t =>
      rw [head] at resumed
      refine moves_on shown here rfl (resume_blind blind_curr resumed) ⟨rfl, rfl⟩ (look_alone ?_)
      change Alone (poised m (memoryOf s) (taskResume (s.kernel.queues.head .diskQueue) _ ++ _)) _
      rw [head]
      apply alone_trans (wake_alone resumed)
      apply assign_alone
      exact alone_here _
  · rename_i silent
    cases run
    rw [if_neg silent]
    exact moves_on shown here rfl rfl ⟨rfl, rfl⟩ (alone_here _)

theorem issue_reaches (shown : Shows s m) (here : s.ctl s.curr = .driver .issue) :
    Reaches (poised m (memoryOf s) (driverCode .issue)) (diskDriverIssue s) := by
  simp only [diskDriverIssue]
  split
  · rename_i ready
    split
    · rename_i vacant
      rw [vacant] at ready
      exact absurd ready.2 (by decide)
    · rename_i request rest queue
      obtain rfl : rest = s.disk.requestQueue.tail := by rw [queue]; rfl
      refine moves_on shown here rfl rfl ⟨rfl, rfl⟩ (look_alone ?_)
      simp only [memoryOf, ready.1, ↓reduceIte]
      apply look_alone
      simp only [ready.2, ↓reduceIte]
      apply look_alone
      simp only
      rw [queue]
      apply assign_alone
      apply assign_alone
      exact alone_here _
  · rename_i idle
    refine moves_on shown here rfl rfl ⟨rfl, rfl⟩ (look_alone ?_)
    by_cases free : s.device.status = .idle
    · have vacant : ¬ 0 < toInt s.disk.requestQueue.length := fun some => idle ⟨free, some⟩
      simp only [memoryOf, free, ↓reduceIte]
      apply look_alone
      simp only [vacant, ↓reduceIte]
      exact alone_here _
    · simp only [memoryOf, free, ↓reduceIte]
      exact alone_here _

theorem driver_reaches {point : DriverPoint} (shown : Shows s m)
    (here : s.ctl s.curr = .driver point) (run : diskDriverStep s point = .ok s') :
    Reaches (poised m (memoryOf s) (driverCode point)) s' := by
  cases point with
  | down =>
    obtain ⟨⟨k, result⟩, down, rfl⟩ := map_ok run
    refine reaches_goes (alone_goes (loop_alone (alone_here _))) ?_
    exact down_reaches (.driver .test) shown here ⟨rfl, rfl⟩ down
  | test => exact signal_reaches shown here run
  | issue =>
    cases run
    exact issue_reaches shown here
  | up =>
    obtain ⟨⟨k, result⟩, up, rfl⟩ := map_ok run
    exact up_reaches (.driver .suspend) shown here ⟨rfl, rfl⟩ up
  | suspend =>
    obtain ⟨k, suspended, rfl⟩ := map_ok run
    exact suspend_reaches (.driver .down) shown here ⟨rfl, rfl⟩ suspended

end Disk

section Scheduling
variable [DecidableEq N] [Fintype N] {s s' : System N} {m : Machine N}

theorem exit_dest {k k' : Kernel N} {exitCode : Int}
    (run : KernelModel.taskExit k exitCode = .ok k') : k'.curr = .dispatcherTask := by
  rw [TaskPlacement.taskExit_eq] at run
  obtain ⟨j, _, run⟩ := bind_ok run
  split at run
  · cases run
  · obtain ⟨⟨queues, code⟩, _, run⟩ := bind_ok run
    cases run
    rfl

theorem exit_reaches {k : Kernel N} {exitCode : Int} (shown : Shows s m)
    (run : KernelModel.taskExit s.kernel exitCode = .ok k) :
    Reaches (poised m (memoryOf s) (taskExit exitCode))
      ((s.withKernel k).goto s.curr .terminated) := by
  have goes : Goes (poised m (memoryOf s) (taskExit exitCode ++ [])) _ :=
    alone_goes (exit_alone run)
  rw [List.append_nil] at goes
  refine ⟨_, goes, ?_⟩
  have parked := parked_exit shown.parked
  have shows' := switched_shows (s := (s.withKernel k).goto s.curr .terminated) parked
    (Function.update_self _ _ _)
  have dest : ((s.withKernel k).goto s.curr .terminated).curr = .dispatcherTask := exit_dest run
  rw [dest] at shows'
  exact shows'

theorem dispatcher_stays (point' : DispatcherPoint N) {point : DispatcherPoint N} {code : Code N}
    (shown : Shows s m) (here : s.ctl s.curr = .dispatcher point)
    (ctl : s'.ctl = Function.update s.ctl .dispatcherTask (.dispatcher point'))
    (kept : s'.curr = s.curr)
    (goes : Alone (poised m (memoryOf s) code) (poised m (memoryOf s') (dispatcherCode point'))) :
    Reaches (poised m (memoryOf s) code) s' := by
  have curr : s.curr = .dispatcherTask := shown.parked.loop _ _ here
  rw [← curr] at ctl
  exact stays shown here ctl kept rfl (fun _ _ => curr) (alone_goes goes)

theorem dispatch_reaches {dispatcherStart : UInt32} {next : Tcb N} (shown : Shows s m)
    (here : s.ctl s.curr = .dispatcher (.dispatch dispatcherStart next))
    (run : dispatcherStep s (.dispatch dispatcherStart next) = .ok s') :
    Reaches (poised m (memoryOf s) (dispatcherCode (.dispatch dispatcherStart next))) s' := by
  have curr : s.curr = .dispatcherTask := shown.parked.loop _ _ here
  cases run
  have ctl : Function.update s.ctl .dispatcherTask
      (.dispatcher (.back next (systime s.kernel))) = Function.update s.ctl s.curr
      (.dispatcher (.back next (systime s.kernel))) := by rw [curr]
  refine switches shown here ctl rfl (fun _ _ => curr) (alone_goes ?_)
  apply assign_alone
  apply assign_alone
  apply assign_alone
  apply look_alone
  apply assign_alone
  exact swap_alone rfl

theorem dispatcher_reaches {point : DispatcherPoint N} (shown : Shows s m)
    (here : s.ctl s.curr = .dispatcher point) (run : dispatcherStep s point = .ok s') :
    Reaches (poised m (memoryOf s) (dispatcherCode point)) s' := by
  cases point with
  | top =>
    have curr : s.curr = .dispatcherTask := shown.parked.loop _ _ here
    simp only [dispatcherStep, ← curr] at run
    refine reaches_goes (alone_goes (loop_alone (look_alone (alone_here _)))) ?_
    change Reaches (poised m (memoryOf s) ((if 0 < s.kernel.userTasksNum then
      [.read fun m => wakeTasks ++ scheduler (systime m.kernel) ++ [.loop .dispatcher]]
      else taskExit 0) ++ [])) _
    split at run
    · rename_i users
      cases run
      rw [if_pos users]
      exact stays shown here rfl rfl rfl (fun _ _ => curr) (alone_goes (look_alone (alone_here _)))
    · rename_i nobody
      obtain ⟨k, ended, rfl⟩ := map_ok run
      rw [if_neg nobody, List.append_nil]
      exact exit_reaches shown ended
  | wake dispatcherStart =>
    obtain ⟨k, woken, rfl⟩ := map_ok run
    exact dispatcher_stays (.schedule dispatcherStart) shown here rfl
      (wake_blind blind_curr woken) (wakeTasks_alone woken)
  | schedule dispatcherStart =>
    obtain ⟨⟨next, k⟩, chosen, same⟩ := map_ok run
    have kept : k.curr = s.curr := scheduler_blind (fun _ _ _ _ => rfl) chosen
    cases next with
    | some next =>
      cases same
      exact dispatcher_stays (.dispatch dispatcherStart next) shown here rfl kept
        (scheduler_alone chosen)
    | none =>
      cases same
      refine dispatcher_stays .top shown here rfl kept ?_
      apply alone_trans (scheduler_alone chosen)
      apply assign_alone
      exact alone_here _
  | dispatch dispatcherStart next => exact dispatch_reaches shown here run
  | back next taskStart =>
    cases run
    refine dispatcher_stays .top shown here rfl rfl ?_
    apply assign_alone
    apply look_alone
    apply assign_alone
    exact alone_here _

end Scheduling

section Calls
variable [DecidableEq N] [Fintype N] {s s' : System N} {m : Machine N} {returned : Int}

omit [Fintype N] in
theorem init_curr {k k' : Kernel N} {t : Tcb N} {id : Int}
    (run : KernelModel.taskInit k t true = .ok (k', id)) : k'.curr = k.curr := by
  obtain ⟨_, queues, code, _, rfl⟩ := init_counts run
  split <;> rfl

/-- task_init, with what the call it is part of goes on to do. -/
theorem init_reaches (c : Ctl N) {t : Tcb N} {k : Kernel N} {id : Int} {rest : Code N}
    (shown : Shows s m) (inside : inCall c = true)
    (run : KernelModel.taskInit s.kernel t true = .ok (k, id))
    (more : ∀ m₁, Shows ((s.withKernel k).goto t c) m₁ →
      Reaches (poised m₁ (memoryOf ((s.withKernel k).goto t c)) rest) s') :
    Reaches (poised m (memoryOf s) (taskInit t (codeAt c) ++ rest)) s' := by
  have curr : ((s.withKernel k).goto t c).curr = s.curr := init_curr run
  have parked := parked_init shown.parked t inside
  rw [← curr] at parked
  have shows' := parked_shows (s := (s.withKernel k).goto t c) parked
    (by rw [curr]; exact shown.holder) rfl
  have reached := more _ shows'
  exact reaches_goes (alone_goes (init_alone run)) reached

omit [Fintype N] in
theorem goto_in_call {t : Tcb N} {k : Kernel N} {c : Ctl N} (started : inCall c = true)
    (here : inCall (s.ctl s.curr) = true) (curr : k.curr = s.curr) :
    inCall (((s.withKernel k).goto t c).ctl ((s.withKernel k).goto t c).curr) = true := by
  change inCall (Function.update s.ctl t c k.curr) = true
  rw [curr]
  by_cases same : s.curr = t
  · rw [same, Function.update_self, started]
  · rw [Function.update_of_ne same, here]

theorem taskInit_reaches {t : Tcb N} {stack : Bool} (shown : Shows s m)
    (here : s.ctl s.curr = .body returned) (run : call s (.taskInit t stack) = .ok s') :
    Reaches (poised m (memoryOf s) (taskInit t [])) s' := by
  obtain ⟨⟨k, id⟩, started, rfl⟩ := map_ok run
  cases stack with
  | false => cases started
  | true =>
    rw [← List.append_nil (taskInit t [])]
    refine init_reaches (.body 0) shown rfl started fun m₁ shown₁ => ?_
    have curr : ((s.withKernel k).goto t (.body 0)).curr = s.curr := init_curr started
    have inside := goto_in_call (t := t) (c := .body 0) rfl (by rw [here]; rfl) curr
    rw [← curr]
    exact moves_on shown₁ rfl rfl rfl ⟨inside, rfl⟩ (alone_here _)

theorem switch_reaches (c : Ctl N) {t : Tcb N} {k : Kernel N} {old : Ctl N} (shown : Shows s m)
    (here : s.ctl s.curr = old) (inside : inCall old = true ∧ inCall c = true)
    (run : KernelModel.taskSwitch s.kernel (some t) = .ok k) :
    Reaches (poised m (memoryOf s) (taskSwitch (some t) ++ codeAt c))
      ((s.withKernel k).goto s.curr c) := by
  refine yields shown here rfl inside ?_
  change Alone _ ((poised m _ _).swapcontext s.curr k.curr)
  rw [← Option.some.inj (switch_dest run)]
  exact swap_alone run

theorem taskSleep_reaches {t : Int} (shown : Shows s m) (here : s.ctl s.curr = .body returned)
    (run : call s (.taskSleep t) = .ok s') :
    Reaches (poised m (memoryOf s) (taskSleep t)) s' := by
  obtain ⟨k, suspended, rfl⟩ := map_ok run
  simp only [KernelModel.taskSleep] at suspended
  refine yields shown here rfl ⟨rfl, rfl⟩ ?_
  change Alone _ ((poised m _ _).swapcontext s.curr k.curr)
  rw [suspend_dest suspended]
  exact assign_alone (block_alone suspended)

theorem taskWait_reaches {task : Option (Tcb N)} (shown : Shows s m)
    (here : s.ctl s.curr = .body returned) (run : call s (.taskWait task) = .ok s') :
    Reaches (poised m (memoryOf s) (taskWait task)) s' := by
  obtain ⟨⟨k, result⟩, waited, same⟩ := map_ok run
  cases task with
  | none =>
    cases waited
    cases same
    exact answers (-1) shown here rfl
  | some t =>
    refine reaches_goes (alone_goes (look_alone (alone_here _))) ?_
    change Reaches (poised m (memoryOf s) ((if (s.kernel.task t).status = .terminated then []
      else .assign (.currTask fun m d => { d with waitingTask := (m.kernel.task t).id }) ::
        taskSuspend (some .suspendedTasks)) ++ [])) _
    simp only [KernelModel.taskWait] at waited
    split at waited
    · rename_i ended
      cases waited
      cases same
      rw [if_pos ended]
      exact moves_on shown here rfl rfl ⟨rfl, rfl⟩ (alone_here _)
    · rename_i running
      obtain ⟨k', suspended, eq⟩ := map_ok waited
      cases eq
      cases same
      rw [if_neg running]
      refine yields shown here rfl ⟨rfl, rfl⟩ ?_
      change Alone _ ((poised m _ _).swapcontext s.curr k.curr)
      rw [suspend_dest suspended]
      exact assign_alone (block_alone suspended)

theorem taskSetprio_reaches {task : Option (Tcb N)} {prio : Int} (shown : Shows s m)
    (here : s.ctl s.curr = .body returned) (run : call s (.taskSetprio task prio) = .ok s') :
    Reaches (poised m (memoryOf s) (taskSetprio task prio)) s' := by
  cases run
  refine moves_on shown here rfl rfl ⟨rfl, rfl⟩ ?_
  apply look_alone
  apply assign_alone
  apply assign_alone
  change Alone (poised m { memoryOf s with kernel := ((s.kernel.setTask (task.getD s.curr)
    fun d => { d with staticPriority := toShort prio }).setTask (task.getD s.curr)
    fun d => { d with dynamicPriority := toShort prio }) } []) _
  rw [setTask_setTask]
  exact alone_here _

theorem semInit_reaches {n : Option Nat} {value : Int} (shown : Shows s m)
    (here : s.ctl s.curr = .body returned) (run : call s (.semInit n value) = .ok s') :
    Reaches (poised m (memoryOf s) (semInit (n.map .user) value)) s' := by
  cases run
  cases n with
  | none => exact answers (-1) shown here rfl
  | some n =>
    rw [← List.append_nil (semInit _ _)]
    exact moves_on shown here rfl rfl ⟨rfl, rfl⟩ (semInit_alone value)

theorem semDownCall_reaches {n : Option Nat} (shown : Shows s m)
    (here : s.ctl s.curr = .body returned) :
    Reaches (poised m (memoryOf s) (semDown (n.map .user))) (semDownCall s n) := by
  cases n with
  | none => exact answers (-1) shown here rfl
  | some n =>
    exact opens (c := .semDown n .enter) (fun m => (m.kernel.sem (.user n)).active = 0)
      shown here ⟨rfl, rfl⟩ rfl rfl rfl

theorem semUpCall_reaches {n : Option Nat} (shown : Shows s m)
    (here : s.ctl s.curr = .body returned) :
    Reaches (poised m (memoryOf s) (semUp (n.map .user))) (semUpCall s n) := by
  cases n with
  | none => exact answers (-1) shown here rfl
  | some n =>
    exact opens (c := .semUp n .enter) (fun m => (m.kernel.sem (.user n)).active = 0)
      shown here ⟨rfl, rfl⟩ rfl rfl rfl

theorem semDestroyCall_reaches {n : Option Nat} (shown : Shows s m)
    (here : s.ctl s.curr = .body returned) (run : call s (.semDestroy n) = .ok s') :
    Reaches (poised m (memoryOf s) (semDestroy (n.map .user))) s' := by
  obtain ⟨⟨k, code⟩, destroyed, rfl⟩ := map_ok run
  cases n with
  | none =>
    cases destroyed
    exact answers (-1) shown here rfl
  | some n =>
    change Reaches _ ((s.withKernel k).answer code)
    rw [answer_goto (semDestroy_curr destroyed), ← List.append_nil (semDestroy _)]
    exact semDestroy_reaches (.body code) shown here ⟨rfl, rfl⟩ destroyed

theorem mqueueInit_reaches {queue : Option Nat} {max size : Int} (shown : Shows s m)
    (here : s.ctl s.curr = .body returned) :
    Reaches (poised m (memoryOf s) (PreemptionModel.mqueueInit queue max size))
      (SystemModel.mqueueInit s queue max size) := by
  cases queue with
  | none => exact answers (-1) shown here rfl
  | some q =>
    refine moves_on shown here rfl rfl ⟨rfl, rfl⟩ ?_
    apply assign_alone
    apply assign_alone
    apply assign_alone
    apply alone_trans (semInit_alone 1)
    apply alone_trans (semInit_alone 0)
    apply alone_trans (semInit_alone max)
    apply assign_alone
    convert alone_here (poised m (memoryOf (SystemModel.mqueueInit s (some q) max size))
      (codeAt (.body 0))) using 1
    simp [poised, memoryOf, SystemModel.mqueueInit, System.setMqueue, System.answer,
      Assignment.mqueue, codeAt]

theorem mqueueSendCall_reaches {queue msg : Option Nat} (shown : Shows s m)
    (here : s.ctl s.curr = .body returned) :
    Reaches (poised m (memoryOf s) (mqueueSend queue msg)) (mqueueSendCall s queue msg) := by
  cases queue with
  | none => exact answers (-1) shown here rfl
  | some q =>
    cases msg with
    | none => exact answers (-1) shown here rfl
    | some a =>
      exact opens (c := .send q a .vaga) (fun m => (m.mqueue q).active = 0)
        shown here ⟨rfl, rfl⟩ rfl rfl rfl

theorem mqueueRecvCall_reaches {queue msg : Option Nat} (shown : Shows s m)
    (here : s.ctl s.curr = .body returned) :
    Reaches (poised m (memoryOf s) (mqueueRecv queue msg)) (mqueueRecvCall s queue msg) := by
  cases queue with
  | none => exact answers (-1) shown here rfl
  | some q =>
    cases msg with
    | none => exact answers (-1) shown here rfl
    | some a =>
      exact opens (c := .recv q a .item) (fun m => (m.mqueue q).active = 0)
        shown here ⟨rfl, rfl⟩ rfl rfl rfl

def diskReady (s : System N) : System N :=
  { s with
    device := (diskInit s.device).1
    disk := { s.disk with
      numBlocks := (diskInit s.device).1.numblocks
      blockSize := (diskInit s.device).1.blocksize }
    kernel := (KernelModel.semInit s.kernel (some .semDisk) 1).1 }

theorem driverInit_reaches {stack : Bool} (shown : Shows s m) (here : s.ctl s.curr = .body returned)
    (run : (KernelModel.taskInit (diskReady s).kernel .diskDriverTask stack).map (fun (k, id) =>
        let s := ((diskReady s).withKernel k).goto .diskDriverTask (.driver .down)
        if id < 0 then s.answer (-1)
        else { s.answer 0 with disk := { s.disk with handler := true } }) = .ok s') :
    Reaches (poised m (memoryOf (diskReady s)) (taskInit .diskDriverTask [.loop .diskDriver] ++
      [.read fun m =>
        if (m.kernel.task .diskDriverTask).id < 0 then []
        else [.assign (.disk fun _ d => { d with handler := true })]])) s' := by
  obtain ⟨⟨k, id⟩, started, same⟩ := map_ok run
  cases stack with
  | false => cases started
  | true =>
    have ready : Shows (diskReady s) (poised m (memoryOf (diskReady s)) _) :=
      parked_shows shown.parked shown.holder rfl
    have curr := init_curr started
    have inside := goto_in_call (s := diskReady s) (t := .diskDriverTask) (c := .driver .down) rfl
      (by change inCall (s.ctl s.curr) = _; rw [here]; rfl) curr
    have told := (init_counts started).1
    refine init_reaches (m := poised m (memoryOf (diskReady s)) _) (.driver .down) ready rfl
      started fun m₁ shown₁ => reaches_goes (alone_goes (look_alone (alone_here _))) ?_
    change Reaches (poised m₁ _ ((if (k.task .diskDriverTask).id < 0 then []
      else [.assign (.disk fun _ d => { d with handler := true })]) ++ [])) _
    rw [← told, ← same]
    dsimp only
    split
    · exact moves_on shown₁ rfl rfl rfl ⟨inside, rfl⟩ (alone_here _)
    · exact moves_on shown₁ rfl rfl rfl ⟨inside, rfl⟩ (assign_alone (alone_here _))

theorem diskMgrInit_reaches {host stack : Bool} (shown : Shows s m)
    (here : s.ctl s.curr = .body returned)
    (run : SystemModel.diskMgrInit s host stack = .ok s') :
    Reaches (poised m (memoryOf s) PreemptionModel.diskMgrInit) s' := by
  refine reaches_goes (goes_host true) ?_
  refine reaches_goes (alone_goes (look_alone (alone_here _))) ?_
  simp only [SystemModel.diskMgrInit] at run
  split at run
  · rename_i refused
    cases run
    refine moves_on shown here rfl rfl ⟨rfl, rfl⟩ ?_
    simp only [memoryOf, refused, ↓reduceIte]
    exact alone_here _
  · rename_i idle
    split at run
    · cases run
    · split at run
      · rename_i broken
        cases run
        refine moves_on shown here rfl rfl ⟨rfl, rfl⟩ ?_
        simp only [memoryOf, idle, ↓reduceIte, Bool.true_eq_false]
        apply assign_alone
        apply look_alone
        split
        · exact alone_here _
        · rename_i whole
          exact absurd broken whole
      · rename_i whole
        refine reaches_goes ?_ (driverInit_reaches shown here run)
        apply alone_goes
        simp only [memoryOf, idle, ↓reduceIte, Bool.true_eq_false]
        apply assign_alone
        apply look_alone
        split
        · rename_i broken
          exact absurd broken whole
        · apply assign_alone
          apply assign_alone
          apply semInit_alone

theorem blockOpCall_reaches {block : Int} {buffer : Option Nat} {op : Operation}
    (shown : Shows s m) (here : s.ctl s.curr = .body returned)
    (run : diskBlockOpCall s block buffer op = .ok s') :
    Reaches (poised m (memoryOf s) (diskBlockOp block buffer op)) s' := by
  obtain ⟨⟨k, result⟩, down, rfl⟩ := map_ok run
  obtain ⟨m', goes, shows'⟩ :=
    down_reaches (.blockOp block buffer op .enqueue) shown here ⟨rfl, rfl⟩ down
  exact ⟨m', goes, shows'.memory, shows'.running, shows'.holder, shows'.parked⟩

theorem call_reaches {c : Call N} (shown : Shows s m) (here : s.ctl s.curr = .body returned)
    (run : call s c = .ok s') : Reaches (poised m (memoryOf s) (callCode c)) s' := by
  cases c with
  | taskInit task stack => exact taskInit_reaches shown here run
  | taskYield =>
    simp only [call, KernelModel.taskYield] at run
    obtain ⟨k, switched, rfl⟩ := map_ok run
    exact switch_reaches (.body 0) shown here ⟨rfl, rfl⟩ switched
  | taskSwitch task =>
    obtain ⟨k, switched, rfl⟩ := map_ok run
    cases task with
    | none => cases switched
    | some t => exact switch_reaches (.body 0) shown here ⟨rfl, rfl⟩ switched
  | taskSleep t => exact taskSleep_reaches shown here run
  | taskWait task => exact taskWait_reaches shown here run
  | taskExit exitCode =>
    obtain ⟨k, ended, rfl⟩ := map_ok run
    exact exit_reaches shown ended
  | taskSetprio task prio => exact taskSetprio_reaches shown here run
  | semInit n value => exact semInit_reaches shown here run
  | semDown n =>
    cases run
    exact semDownCall_reaches shown here
  | semUp n =>
    cases run
    exact semUpCall_reaches shown here
  | semDestroy n => exact semDestroyCall_reaches shown here run
  | mqueueInit queue max size =>
    cases run
    exact mqueueInit_reaches shown here
  | mqueueSend queue msg =>
    cases run
    exact mqueueSendCall_reaches shown here
  | mqueueRecv queue msg =>
    cases run
    exact mqueueRecvCall_reaches shown here
  | mqueueDestroy queue =>
    cases run
    cases queue with
    | none => exact answers (-1) shown here rfl
    | some q => exact moves_on shown here rfl rfl ⟨rfl, rfl⟩ (alone_here _)
  | taskGetprio task =>
    obtain rfl := Except.ok.inj run
    exact answers _ shown here rfl
  | mqueueMsgs queue =>
    cases queue with
    | none => cases run
    | some q =>
      obtain rfl := Except.ok.inj run
      exact answers _ shown here rfl
  | diskMgrInit host stack => exact diskMgrInit_reaches shown here run
  | diskBlockRead block buffer =>
    simp only [call] at run
    change Reaches (poised m (memoryOf s) (diskBlockOp block buffer .read)) s'
    exact blockOpCall_reaches shown here run
  | diskBlockWrite block buffer =>
    simp only [call] at run
    change Reaches (poised m (memoryOf s) (diskBlockOp block buffer .write)) s'
    exact blockOpCall_reaches shown here run
  | store address byte =>
    cases run
    exact moves_on shown here rfl rfl ⟨rfl, rfl⟩ (assign_alone (alone_here _))

end Calls

section Interrupts
variable [DecidableEq N] [Fintype N] {s s' : System N} {m : Machine N}

omit [Fintype N] in
/-- The tick that uses up the quantum saves whatever was running. -/
theorem tick_shows (shown : Shows s m)
    (run : (interruptionHandler s.kernel).map s.withKernel = .ok s') :
    ∃ m', PreemptionModel.tick m = .ok m' ∧ Shows s' m' := by
  obtain ⟨k, handled, rfl⟩ := map_ok run
  have kernel : m.kernel = s.kernel := congrArg Memory.kernel shown.memory
  have same : m.curr = s.curr := congrArg Kernel.curr kernel
  have memory : (m.withKernel k).memory = memoryOf (s.withKernel k) := by
    simp only [Machine.withKernel, shown.memory]
    rfl
  have curr := (PreemptionSafety.handler_effect handled).2
  have ticked : PreemptionModel.tick m = .ok (if quantumEnds s.kernel
      then (m.withKernel k).swapcontext s.curr .dispatcherTask else m.withKernel k) := by
    rw [PreemptionModel.tick, kernel, handled, ← same]
    rfl
  refine ⟨_, ticked, ?_⟩
  by_cases ends : quantumEnds s.kernel
  · rw [if_pos ends] at curr ⊢
    have parked : Parked s.ctl s.curr (m.withKernel k) :=
      ⟨shown.parked.saved, shown.parked.phase, shown.parked.loop⟩
    have preempted := swapped_shows (s := s.withKernel k) parked memory shown.running
    have dest : (s.withKernel k).curr = .dispatcherTask := curr
    rwa [dest] at preempted
  · rw [if_neg ends] at curr ⊢
    have goesOn : Shows (s.withKernel k) { m with memory := memoryOf (s.withKernel k) } :=
      same_shows shown rfl curr
    rwa [← memory] at goesOn

/-- A signal handler on top of any context. -/
def onTop (m : Machine N) (memory : Memory N) (moves : List (Move N)) (context : Context N) :
    Machine N :=
  { m with memory := memory, running := { context with moves := moves ++ context.moves } }

theorem signal_alone {memory : Memory N} {context : Context N} {k : Kernel N}
    (resumed : KernelModel.taskResume memory.kernel (some .diskDriverTask) (some .diskQueue) =
      .ok k) :
    Alone (onTop m memory diskSignalHandler context)
      (onTop m { memory with kernel := k, disk := { memory.disk with signal := 1 } } [] context) := by
  obtain ⟨⟨removed, code₁⟩, remove, resumed⟩ := bind_ok resumed
  obtain ⟨⟨appended, code₂⟩, append, resumed⟩ := bind_ok resumed
  have append' : queueAppend removed (some .readyTasks) (some .diskDriverTask) =
    .ok (appended, code₂) := append
  cases resumed
  apply alone_step rfl
  have taken : advance (onTop m { memory with disk := { memory.disk with signal := 1 } }
      [.remove (some .diskDriverTask) .diskQueue .ready .readyTasks] context) true =
    some (.ok (onTop m { memory with
        kernel := { memory.kernel with queues := removed }
        disk := { memory.disk with signal := 1 } }
      [.mark (some .diskDriverTask) .ready .readyTasks] context)) := by
    change some (queueRemove memory.kernel.queues (some .diskQueue) (some .diskDriverTask) >>= _) =
      _
    rw [remove]
    rfl
  apply alone_step taken
  apply alone_step rfl
  refine alone_step ?_ (alone_here _)
  change some (queueAppend removed (some .readyTasks) (some .diskDriverTask) >>= _) = _
  rw [append']
  rfl

theorem completion_reaches {op : Operation} (shown : Shows s m)
    (run : SystemModel.diskSighandle s op = .ok s') :
    ∃ m', PreemptionModel.diskSighandle m op = .ok m' ∧ Reaches m' s' := by
  cases op with
  | read =>
    simp only [SystemModel.diskSighandle] at run
    split at run
    · cases run
    · rename_i on
      obtain ⟨k, resumed, rfl⟩ := map_ok run
      refine ⟨onTop m { memoryOf s with
        ram := storeBlock s.ram s.device.buffer (s.device.file s.device.nextBlock)
        device := { s.device with prevBlock := s.device.nextBlock, status := .idle } }
          diskSignalHandler m.running, ?_, _, alone_goes (signal_alone resumed), ?_⟩
      · rw [PreemptionModel.diskSighandle, shown.memory]
        exact if_neg on
      · exact same_shows shown rfl (resume_blind blind_curr resumed)
  | write =>
    simp only [SystemModel.diskSighandle] at run
    split at run
    · cases run
    · rename_i on
      obtain ⟨k, resumed, rfl⟩ := map_ok run
      refine ⟨onTop m { memoryOf s with
        device := { s.device with
          file := Function.update s.device.file s.device.nextBlock
            (loadBlock s.ram s.device.buffer)
          prevBlock := s.device.nextBlock, status := .idle } }
          diskSignalHandler m.running, ?_, _, alone_goes (signal_alone resumed), ?_⟩
      · rw [PreemptionModel.diskSighandle, shown.memory]
        exact if_neg on
      · exact same_shows shown rfl (resume_blind blind_curr resumed)

end Interrupts

section Runs
variable [DecidableEq N] [Fintype N] {s₀ s s' : System N} {m : Machine N}

/-- No queue is destroyed between a receiver's look at it and the step that takes the message: the
    machine does both in one statement. -/
def StillActive (s : System N) : SystemModel.Label N → Prop
  | .run _ _ => ∀ q a, s.ctl s.curr = .recv q a .take → (s.mqueue q).active ≠ 0
  | _ => True

def Proceeds (s : System N) (l : SystemModel.Label N) (s' : System N) : Prop :=
  SystemModel.step s l = some (.ok s') ∧ StillActive s l

/-- The labels of the machine for one of the system: ticks fall where the system has them and
    nowhere else. -/
inductive Spells : SystemModel.Label N → List (PreemptionModel.Label N) → Prop where
  | tick : Spells .tick [.tick]
  | completion (hosts : List Bool) : Spells .completion (.completion :: hosts.map .run)
  | call (c : Call N) (hosts : List Bool) : Spells (.call c) (.call c :: hosts.map .run)
  | run (malloc₁ malloc₂ : Bool) (hosts : List Bool) :
      Spells (.run malloc₁ malloc₂) (hosts.map .run)

/-- The running task's next step inside its call. -/
theorem advance_reaches {malloc₁ malloc₂ : Bool} (shown : Shows s m)
    (active : StillActive s (.run malloc₁ malloc₂))
    (run : SystemModel.advance s malloc₁ malloc₂ = some (.ok s')) : Reaches m s' := by
  cases here : s.ctl s.curr <;> simp only [SystemModel.advance, here, reduceCtorEq] at run
  all_goals rw [← shown_poised shown here]
  case waitReturn task =>
    cases run
    exact answers _ shown here rfl
  case semDown n point => exact semDown_reaches shown here (Option.some.inj run)
  case semUp n point => exact semUp_reaches shown here (Option.some.inj run)
  case send q a point => exact send_reaches shown here (Option.some.inj run)
  case recv q a point =>
    exact recv_reaches shown here (fun take => active q a (by rw [here, take]))
      (Option.some.inj run)
  case destroy q point => exact destroy_reaches shown here (Option.some.inj run)
  case blockOp block buffer op point => exact blockOp_reaches shown here (Option.some.inj run)
  case driver point => exact driver_reaches shown here (Option.some.inj run)
  case dispatcher point => exact dispatcher_reaches shown here (Option.some.inj run)

theorem step_reaches {l : SystemModel.Label N} (next : Proceeds s l s') (shown : Shows s m) :
    ∃ block m', Spells l block ∧
      Run (fun a l b => PreemptionModel.step a l = some (.ok b)) m block m' ∧ Shows s' m' := by
  obtain ⟨step, active⟩ := next
  cases l with
  | tick =>
    obtain ⟨m', ticked, shown'⟩ := tick_shows shown (Option.some.inj step)
    exact ⟨[.tick], m', .tick, run_one (congrArg some ticked), shown'⟩
  | completion =>
    have device : m.memory.device = s.device := congrArg Memory.device shown.memory
    simp only [SystemModel.step] at step
    split at step
    case h_3 => cases step
    all_goals
      rename_i status
      obtain ⟨m₁, handled, m', ⟨hosts, run⟩, shown'⟩ :=
        completion_reaches shown (Option.some.inj step)
      refine ⟨.completion :: hosts.map .run, m', .completion hosts, run_cons ?_ run, shown'⟩
      simp only [PreemptionModel.step, device, status, handled]
  | call c =>
    obtain ⟨returned, here, called⟩ := call_runs step
    obtain ⟨m', ⟨hosts, run⟩, shown'⟩ := call_reaches shown here called
    refine ⟨.call c :: hosts.map .run, m', .call c hosts, run_cons ?_ run, shown'⟩
    rw [← shown_poised shown here]
    rfl
  | run malloc₁ malloc₂ =>
    obtain ⟨m', ⟨hosts, run⟩, shown'⟩ := advance_reaches shown active step
    exact ⟨hosts.map .run, m', .run malloc₁ malloc₂ hosts, run, shown'⟩

def machineOf (s : System N) : Machine N :=
  { memory := memoryOf s
    running := ⟨[], none, []⟩
    saved := fun t => ⟨[], none, codeAt (s.ctl t)⟩
    holder := .mainTask
    phase := Function.update (fun _ => .unborn) .mainTask .alive }

omit [Fintype N] in
theorem boot_shows (boot : TaskConservation.Booted s) :
    PreemptionSafety.Booted (machineOf s) ∧ Shows s (machineOf s) := by
  obtain ⟨_, curr, _⟩ := TaskConservation.boot_lists boot
  have main : s.curr = .mainTask := curr
  refine ⟨⟨boot.kernel, rfl, ?_, rfl, rfl, boot.handler, boot.device⟩,
    rfl, ?_, main.symm, fun _ _ => rfl, fun t user => ?_, fun t point loop => ?_⟩
  · change (⟨[], none, codeAt (s.ctl .dispatcherTask)⟩ : Context N) = _
    rw [boot.dispatcher]
    rfl
  · rw [main, boot.main]
    rfl
  · cases t with
    | mainTask => rw [boot.main]; rfl
    | dispatcherTask => exact absurd rfl user
    | diskDriverTask => rw [boot.driver]; rfl
    | user n => rw [boot.user n]; rfl
  · cases t with
    | dispatcherTask => rfl
    | mainTask => rw [boot.main] at loop; cases loop
    | diskDriverTask => rw [boot.driver] at loop; cases loop
    | user n => rw [boot.user n] at loop; cases loop

/-- Every run of the system is a run of the machine, with the statements of each step in a block of
    their own: it ends in the same memory, with the rest of its call left to every task. -/
theorem calls_are_statements {labels : List (SystemModel.Label N)}
    (boot : TaskConservation.Booted s₀) (run : Run Proceeds s₀ labels s) :
    ∃ m₀ m blocks, PreemptionSafety.Booted m₀ ∧ Shows s₀ m₀ ∧ List.Forall₂ Spells labels blocks ∧
      Run (fun a l b => PreemptionModel.step a l = some (.ok b)) m₀ blocks.flatten m ∧
      Shows s m := by
  obtain ⟨booted, start⟩ := boot_shows boot
  obtain ⟨blocks, m, spelled, statements, shown⟩ := LockStep.run_blocks Shows Spells
    (fun _ _ _ _ next shown => step_reaches next shown) run start
  exact ⟨machineOf s₀, m, blocks, booted, start, spelled, statements, shown⟩

def receiving (s : System N) : Option Nat :=
  match s.ctl s.curr with
  | .recv q _ .take => some q
  | _ => none

abbrev activeGuard (s : System N) (_ : SystemModel.Label N) (_ : System N) : Prop :=
  ∀ q ∈ receiving s, (s.mqueue q).active ≠ 0

omit [DecidableEq N] [Fintype N] in
theorem still_active {l : SystemModel.Label N} (active : activeGuard s l s') :
    StillActive s l := by
  cases l with
  | run => exact fun q a here => active q (by rw [receiving, here]; rfl)
  | _ => trivial

/-- main sends itself a message, and receives it after a tick. -/
def sendToSelf : List (SystemModel.Label (Fin 1)) :=
  [.call (.mqueueInit (some 0) 1 1), .call (.mqueueSend (some 0) (some 0))] ++
  List.replicate 6 (.run true true) ++ [.tick, .call (.mqueueRecv (some 0) (some 1))] ++
  List.replicate 6 (.run true true)

theorem own_message_is_statements : ∃ (s : System (Fin 1)) (m₀ m : Machine (Fin 1))
    (blocks : List (List (PreemptionModel.Label (Fin 1)))),
    Run Proceeds TaskConservation.bootSystem sendToSelf s ∧ s.history.received 0 = [[0]] ∧
      PreemptionSafety.Booted m₀ ∧ List.Forall₂ Spells sendToSelf blocks ∧
      Run (fun a l b => PreemptionModel.step a l = some (.ok b)) m₀ blocks.flatten m ∧
      Shows s m := by
  obtain ⟨s, found, received⟩ := exec_reaches (guardedStep activeGuard)
    (TaskConservation.bootSystem : System (Fin 1)) sendToSelf
    (fun s => s.history.received 0 = [[0]]) (by decide +kernel)
  have run : Run Proceeds TaskConservation.bootSystem sendToSelf s :=
    run_mono (fun _ _ _ next => ⟨next.1, still_active next.2⟩) (exec_guarded found)
  obtain ⟨m₀, m, blocks, booted, _, spelled, statements, shown⟩ :=
    calls_are_statements TaskConservation.boot_booted run
  exact ⟨s, m₀, m, blocks, run, received, booted, spelled, statements, shown⟩

end Runs

end CallRefinement
