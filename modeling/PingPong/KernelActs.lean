import PingPong.KernelViews
import PingPong.TaskConservation

/-!
What a task's step does to the kernel. Whatever call it belongs to, it writes data that neither
the queues nor the statuses depend on, and then makes at most one move: it gives up the processor
for a queue, resumes the head of a queue, or resumes all of a queue.
-/
namespace KernelActs
open MachineModel CircularList QueueModel KernelModel KernelEffects TaskPlacement SystemModel
open SystemFrames TaskConservation KernelViews
variable {N : Type} [DecidableEq N] [Fintype N]

section Quiet
variable {k k' k'' : Kernel N}

structure Quiet (k k' : Kernel N) : Prop where
  status : ∀ t, (k'.task t).status = (k.task t).status
  time : ∀ t, (k'.task t).processorTime = (k.task t).processorTime
  lists : tasks k' = tasks k
  wellFormed : Represents k.queues (tasks k) → Represents k'.queues (tasks k')
  curr : k'.curr = k.curr
  clock : k'.sysclock = k.sysclock
  stdout : k'.stdout = k.stdout

theorem quiet_refl (k : Kernel N) : Quiet k k :=
  ⟨fun _ => rfl, fun _ => rfl, rfl, id, rfl, rfl, rfl⟩

theorem quiet_trans (first : Quiet k k') (second : Quiet k' k'') : Quiet k k'' :=
  ⟨fun t => (second.status t).trans (first.status t), fun t => (second.time t).trans (first.time t),
   second.lists.trans first.lists, fun w => second.wellFormed (first.wellFormed w),
   second.curr.trans first.curr, second.clock.trans first.clock, second.stdout.trans first.stdout⟩

theorem quiet_setTask (k : Kernel N) (t : Tcb N) {f : Task → Task}
    (status : ∀ d, (f d).status = d.status) (time : ∀ d, (f d).processorTime = d.processorTime) :
    Quiet k (k.setTask t f) := by
  refine ⟨fun a => ?_, fun a => ?_, rfl, id, rfl, rfl, rfl⟩
  · by_cases same : a = t
    · subst same
      simp [Kernel.setTask, status]
    · simp [Kernel.setTask, same]
  · by_cases same : a = t
    · subst same
      simp [Kernel.setTask, time]
    · simp [Kernel.setTask, same]

theorem quiet_setSem (k : Kernel N) (s : SemAddr) (f : Semaphore → Semaphore) :
    Quiet k (k.setSem s f) := ⟨fun _ => rfl, fun _ => rfl, rfl, id, rfl, rfl, rfl⟩

/-- sem_init, where nobody waits. -/
theorem quiet_semInit {live : Tcb N → Bool} (p : Placed live k) {s : SemAddr}
    (idle : tasks k (.semQueue s) = []) (value : Int) :
    Quiet k (semInit k (some s) value).1 := by
  obtain ⟨kept, lists, -, -⟩ := semInit_kept p idle value
  exact ⟨fun _ => rfl, fun _ => rfl, lists, fun _ => kept.placed.wellFormed, rfl, rfl, rfl⟩

theorem quiet_placed {live : Tcb N → Bool} (q : Quiet k k') (p : Placed live k) :
    Placed live k' := by
  refine ⟨q.wellFormed p.wellFormed, ?_, ?_, p.dispatcher⟩
  · rw [q.lists]
    exact p.queued
  · rw [q.lists, q.curr]
    exact p.running

end Quiet

section Acts
variable {k k' : Kernel N}

inductive Act (k : Kernel N) : Kernel N → Prop where
  | quiet {k' : Kernel N} (idle : Quiet k k') : Act k k'
  | suspend {j k' : Kernel N} {q : TaskQueue} (before : Quiet k j) (other : q ≠ .readyTasks)
      (run : taskSuspend j (some q) = .ok k') : Act k k'
  | resume {j k' : Kernel N} {q : TaskQueue} (before : Quiet k j) (other : q ≠ .readyTasks)
      (run : taskResume j (j.queues.head q) (some q) = .ok k') : Act k k'
  | drain {j k' : Kernel N} {q : TaskQueue} (before : Quiet k j) (other : q ≠ .readyTasks)
      (run : drainQueue q (Fintype.card (Tcb N)) j = .ok k') : Act k k'

omit [Fintype N] in
theorem init_curr {t : Tcb N} {stack : Bool} {id : Int}
    (run : taskInit k t stack = .ok (k', id)) : k'.curr = k.curr := by
  simp only [taskInit] at run
  split at run
  · cases run
  · obtain ⟨⟨m, code⟩, -, run⟩ := bind_ok run
    cases run
    split
    · rfl
    · rfl

theorem down_act {s : SemAddr} {r : Option Int} (run : semDown k (some s) = .ok (k', r)) :
    Act k k' := by
  rcases semDown_effect run with rfl | ⟨v, rfl | suspended⟩
  · exact .quiet (quiet_refl k')
  · exact .quiet (quiet_setSem k s _)
  · exact .suspend (quiet_setSem k s _) (by simp) suspended

theorem up_act {s : SemAddr} {r : Int} (run : semUp k (some s) = .ok (k', r)) :
    Act k k' ∧ k'.curr = k.curr := by
  rcases semUp_effect run with rfl | ⟨v, rfl | ⟨-, resumed⟩⟩
  · exact ⟨.quiet (quiet_refl k'), rfl⟩
  · exact ⟨.quiet (quiet_setSem k s _), rfl⟩
  · have curr := resume_blind blind_curr resumed
    exact ⟨.resume (quiet_setSem k s _) (by simp) resumed, curr⟩

theorem destroy_act {s : SemAddr} {r : Int} (run : semDestroy k (some s) = .ok (k', r)) :
    Act k k' ∧ k'.curr = k.curr := by
  rcases semDestroy_effect run with rfl | drained
  · exact ⟨.quiet (quiet_refl k'), rfl⟩
  · have curr := drain_blind blind_curr drained
    exact ⟨.drain (quiet_setSem k s _) (by simp) drained, curr⟩

theorem sleep_act {t : Int} (run : taskSleep k t = .ok k') : Act k k' := by
  simp only [taskSleep] at run
  have alarm := quiet_setTask k k.curr
    (f := fun d => { d with wakeUpTime := systime k + UInt32.ofNat (t % 4294967296).toNat })
    (fun _ => rfl) fun _ => rfl
  exact .suspend alarm (by simp) run

theorem wait_act {t : Option (Tcb N)} {r : Option Int} (run : taskWait k t = .ok (k', r)) :
    Act k k' := by
  cases t with
  | none =>
    cases run
    exact .quiet (quiet_refl k)
  | some t =>
    simp only [taskWait] at run
    split at run
    · cases run
      exact .quiet (quiet_refl k)
    · obtain ⟨j, suspended, same⟩ := map_ok run
      cases same
      have waiting := quiet_setTask k k.curr
        (f := fun d => { d with waitingTask := (k.task t).id }) (fun _ => rfl) fun _ => rfl
      exact .suspend waiting (by simp) suspended

end Acts

section Steps
variable {s s' : System N}

/-- The running task makes an act and is at another point of its program. -/
structure Acts (s s' : System N) : Prop where
  kernel : Act s.kernel s'.kernel
  ctl : ∃ new, live new = true ∧ s'.ctl = Function.update s.ctl s.curr new

theorem acts_goto {k : Kernel N} {c : Ctl N} (alive : live c = true) (act : Act s.kernel k) :
    Acts s ((s.withKernel k).goto s.curr c) := ⟨act, c, alive, rfl⟩

theorem acts_quiet {c : Ctl N} (kernel : Quiet s.kernel s'.kernel) (alive : live c = true)
    (ctl : s'.ctl = Function.update s.ctl s.curr c) : Acts s s' := ⟨.quiet kernel, c, alive, ctl⟩

theorem acts_still {c : Ctl N} (kernel : s'.kernel = s.kernel) (alive : live c = true)
    (ctl : s'.ctl = Function.update s.ctl s.curr c) : Acts s s' := by
  refine acts_quiet ?_ alive ctl
  rw [kernel]
  exact quiet_refl s.kernel

/-- The task keeps the processor and its place. -/
theorem acts_spin (alive : live (s.ctl s.curr) = true) (kernel : s'.kernel = s.kernel)
    (ctl : s'.ctl = s.ctl) : Acts s s' :=
  acts_still kernel alive (by rw [ctl, Function.update_eq_self])

theorem acts_answer (s : System N) (code : Int) : Acts s (s.answer code) :=
  acts_still rfl rfl rfl

theorem acts_returns {k : Kernel N} (code : Int) (act : Act s.kernel k ∧ k.curr = s.curr) :
    Acts s ((s.withKernel k).answer code) := by
  refine ⟨act.1, .body code, rfl, ?_⟩
  change Function.update s.ctl k.curr _ = _
  rw [act.2]

theorem semDown_acts (alive : live (s.ctl s.curr) = true) {n : Nat} {point : DownPoint}
    (run : semDownStep s n point = .ok s') : Acts s s' := by
  cases point with
  | enter =>
    simp only [semDownStep] at run
    split at run
    · cases run
      exact acts_spin alive rfl rfl
    · cases run
      exact acts_goto rfl (.quiet (quiet_setSem _ _ _))
  | update =>
    cases run
    exact acts_goto rfl (.quiet (quiet_setSem _ _ _))
  | leave v =>
    simp only [semDownStep] at run
    cases run
    have freed := quiet_setSem s.kernel (.user n) fun x => { x with lock := 0 }
    split
    · exact acts_quiet freed rfl rfl
    · exact acts_quiet freed rfl rfl
  | suspend =>
    obtain ⟨k, suspended, rfl⟩ := map_ok run
    exact acts_goto rfl (.suspend (quiet_refl _) (by simp) suspended)
  | woken =>
    cases run
    exact acts_still rfl rfl rfl

theorem semUp_acts (alive : live (s.ctl s.curr) = true) {n : Nat} {point : UpPoint}
    (run : semUpStep s n point = .ok s') : Acts s s' := by
  cases point with
  | enter =>
    simp only [semUpStep] at run
    split at run
    · cases run
      exact acts_spin alive rfl rfl
    · cases run
      exact acts_goto rfl (.quiet (quiet_setSem _ _ _))
  | update =>
    cases run
    have counted := quiet_setSem s.kernel (.user n) fun x =>
      { x with value := toInt ((s.kernel.sem (.user n)).value + 1) }
    exact acts_quiet counted rfl rfl
  | leave v =>
    cases run
    exact acts_goto rfl (.quiet (quiet_setSem _ _ _))
  | test v =>
    simp only [semUpStep] at run
    split at run
    · split at run
      · cases run
        exact acts_still rfl rfl rfl
      · cases run
        exact acts_still rfl rfl rfl
    · cases run
      exact acts_answer s 0
  | resume =>
    obtain ⟨k, resumed, rfl⟩ := map_ok run
    exact acts_returns 0
      ⟨.resume (quiet_refl _) (by simp) resumed, resume_blind blind_curr resumed⟩

theorem send_acts {q a : Nat} {m₁ m₂ : Bool} {point : SendPoint}
    (run : mqueueSendStep s q a m₁ m₂ point = .ok s') : Acts s s' := by
  cases point with
  | vaga | buffer =>
    obtain ⟨⟨k, r⟩, down, rfl⟩ := map_ok run
    exact acts_goto rfl (down_act down)
  | check =>
    simp only [mqueueSendStep] at run
    cases run
    split
    · exact acts_answer s (-1)
    · exact acts_still rfl rfl rfl
  | store =>
    simp only [mqueueSendStep] at run
    split at run
    · cases run
      exact acts_answer s (-1)
    · split at run
      · cases run
        exact acts_answer s (-1)
      · cases run
        exact acts_still rfl rfl rfl
  | upBuffer =>
    obtain ⟨⟨k, r⟩, up, rfl⟩ := map_ok run
    exact acts_goto rfl (up_act up).1
  | upItem =>
    obtain ⟨⟨k, r⟩, up, rfl⟩ := map_ok run
    exact acts_returns 0 (up_act up)

theorem recv_acts {q a : Nat} {point : RecvPoint} (run : mqueueRecvStep s q a point = .ok s') :
    Acts s s' := by
  cases point with
  | item | buffer =>
    obtain ⟨⟨k, r⟩, down, rfl⟩ := map_ok run
    exact acts_goto rfl (down_act down)
  | check =>
    simp only [mqueueRecvStep] at run
    cases run
    split
    · exact acts_answer s (-1)
    · exact acts_still rfl rfl rfl
  | take =>
    simp only [mqueueRecvStep] at run
    split at run
    · cases run
    · cases run
      exact acts_still rfl rfl rfl
  | upBuffer =>
    obtain ⟨⟨k, r⟩, up, rfl⟩ := map_ok run
    exact acts_goto rfl (up_act up).1
  | upVaga =>
    obtain ⟨⟨k, r⟩, up, rfl⟩ := map_ok run
    exact acts_returns 0 (up_act up)

theorem destroy_acts (alive : live (s.ctl s.curr) = true) {q : Nat} {point : DestroyPoint}
    (run : mqueueDestroyStep s q point = .ok s') : Acts s s' := by
  cases point with
  | buffer | item | vaga =>
    obtain ⟨⟨k, r⟩, destroyed, rfl⟩ := map_ok run
    exact acts_goto rfl (destroy_act destroyed).1
  | drain =>
    simp only [mqueueDestroyStep] at run
    split at run
    · cases run
      exact acts_still rfl rfl rfl
    · cases run
      exact acts_spin alive rfl rfl
  | close =>
    cases run
    exact acts_still rfl rfl rfl

/-- disk_block_op, its wake-up of the driver apart. -/
theorem blockOp_acts {block : Int} {buffer : Option Nat} {op : Operation} {point : BlockOpPoint}
    {malloc : Bool} (apart : point ≠ .resume)
    (run : diskBlockOpStep s block buffer op malloc point = .ok s') : Acts s s' := by
  cases point with
  | enqueue =>
    simp only [diskBlockOpStep] at run
    split at run
    · cases run
      exact acts_still rfl rfl rfl
    · cases run
      exact acts_still rfl rfl rfl
  | resume => exact absurd rfl apart
  | up =>
    obtain ⟨⟨k, r⟩, up, rfl⟩ := map_ok run
    exact acts_goto rfl (up_act up).1
  | suspend =>
    obtain ⟨k, suspended, rfl⟩ := map_ok run
    exact acts_goto rfl (.suspend (quiet_refl _) (by simp) suspended)
  | finish =>
    cases run
    exact acts_answer s 0

theorem driver_acts {point : DriverPoint} (run : diskDriverStep s point = .ok s') :
    Acts s s' := by
  cases point with
  | down =>
    obtain ⟨⟨k, r⟩, down, rfl⟩ := map_ok run
    exact acts_goto rfl (down_act down)
  | test =>
    simp only [diskDriverStep, diskDriverTest] at run
    split at run
    · obtain ⟨k, resumed, rfl⟩ := map_ok run
      exact ⟨.resume (quiet_refl _) (by simp) resumed, .driver .issue, rfl, rfl⟩
    · cases run
      exact acts_still rfl rfl rfl
  | issue =>
    simp only [diskDriverStep, diskDriverIssue, Except.ok.injEq] at run
    split at run
    · split at run
      · subst run
        exact acts_still (c := .driver .up) rfl rfl rfl
      · subst run
        exact acts_still (c := .driver .up) rfl rfl rfl
    · subst run
      exact acts_still (c := .driver .up) rfl rfl rfl
  | up =>
    obtain ⟨⟨k, r⟩, up, rfl⟩ := map_ok run
    exact acts_goto rfl (up_act up).1
  | suspend =>
    obtain ⟨k, suspended, rfl⟩ := map_ok run
    exact acts_goto rfl (.suspend (quiet_refl _) (by simp) suspended)

/-- A task other than the dispatcher goes on with its call. -/
theorem advance_acts (alive : live (s.ctl s.curr) = true)
    (notDispatcher : ∀ point, s.ctl s.curr ≠ .dispatcher point)
    (apart : ∀ block buffer op, s.ctl s.curr ≠ .blockOp block buffer op .resume) {m₁ m₂ : Bool}
    (run : advance s m₁ m₂ = some (.ok s')) : Acts s s' := by
  unfold advance at run
  split at run
  · cases run
  · cases run
  · cases run
  · cases run
    exact acts_answer s _
  · exact semDown_acts alive (Option.some.inj run)
  · exact semUp_acts alive (Option.some.inj run)
  · exact send_acts (Option.some.inj run)
  · exact recv_acts (Option.some.inj run)
  · exact destroy_acts alive (Option.some.inj run)
  · rename_i block buffer op point here
    refine blockOp_acts ?_ (Option.some.inj run)
    rintro rfl
    exact apart block buffer op here
  · exact driver_acts (Option.some.inj run)
  · rename_i point here
    exact absurd here (notDispatcher point)

/-- disk_block_op wakes the driver by its status. -/
theorem wake_driver {block : Int} {buffer : Option Nat} {op : Operation} {malloc : Bool}
    (run : diskBlockOpStep s block buffer op malloc .resume = .ok s') :
    (((s.kernel.task .diskDriverTask).status = .suspended ∧
        taskResume s.kernel (some .diskDriverTask) (some .diskQueue) = .ok s'.kernel) ∨
      ((s.kernel.task .diskDriverTask).status ≠ .suspended ∧ s'.kernel = s.kernel)) ∧
    s'.ctl = Function.update s.ctl s.curr (.blockOp block buffer op .up) := by
  simp only [diskBlockOpStep] at run
  split at run
  · rename_i asleep
    obtain ⟨k, resumed, rfl⟩ := map_ok run
    exact ⟨Or.inl ⟨asleep, resumed⟩, rfl⟩
  · rename_i awake
    cases run
    exact ⟨Or.inr ⟨awake, rfl⟩, rfl⟩

/-- A call that neither begins nor ends a task nor switches by itself. -/
theorem call_acts {live : Tcb N → Bool} (p : Placed live s.kernel) {c : Call N}
    (permitted : Permitted s (.call c))
    (init : ∀ t stack, c ≠ .taskInit t stack) (manager : ∀ host stack, c ≠ .diskMgrInit host stack)
    (exit : ∀ code, c ≠ .taskExit code) (yield : c ≠ .taskYield)
    (switch : ∀ t, c ≠ .taskSwitch t) (run : call s c = .ok s') : Acts s s' := by
  cases c with
  | taskInit t stack => exact absurd rfl (init t stack)
  | taskYield => exact absurd rfl yield
  | taskSwitch t => exact absurd rfl (switch t)
  | taskSleep t =>
    obtain ⟨k, slept, rfl⟩ := map_ok run
    exact acts_goto rfl (sleep_act slept)
  | taskWait t =>
    obtain ⟨⟨k, r⟩, waited, after⟩ := map_ok run
    dsimp only at after
    split at after
    · subst after
      exact acts_goto rfl (wait_act waited)
    · subst after
      exact acts_goto rfl (wait_act waited)
  | taskExit code => exact absurd rfl (exit code)
  | taskSetprio t prio =>
    cases run
    exact acts_returns 0 ⟨.quiet (quiet_setTask _ _ (fun _ => rfl) fun _ => rfl), rfl⟩
  | semInit n value =>
    cases run
    cases n with
    | none => exact acts_answer s (-1)
    | some n => exact acts_returns 0 ⟨.quiet (quiet_semInit p permitted value), rfl⟩
  | semDown n =>
    cases run
    unfold semDownCall
    split
    · exact acts_answer s (-1)
    · split
      · exact acts_answer s (-1)
      · exact acts_still rfl rfl rfl
  | semUp n =>
    cases run
    unfold semUpCall
    split
    · exact acts_answer s (-1)
    · split
      · exact acts_answer s (-1)
      · exact acts_still rfl rfl rfl
  | semDestroy n =>
    obtain ⟨⟨k, r⟩, destroyed, rfl⟩ := map_ok run
    cases n with
    | none =>
      cases destroyed
      exact acts_answer s (-1)
    | some n => exact acts_returns r (destroy_act destroyed)
  | mqueueInit q max size =>
    cases run
    unfold mqueueInit
    split
    · exact acts_answer s (-1)
    · rename_i q
      obtain ⟨noBuffer, noItem, noVaga⟩ := permitted
      have first := quiet_semInit p noBuffer 1
      have second := quiet_semInit (quiet_placed first p) (s := .sItem q)
        (by rw [first.lists]; exact noItem) 0
      have both := quiet_trans first second
      have third := quiet_semInit (quiet_placed both p) (s := .sVaga q)
        (by rw [both.lists]; exact noVaga) max
      exact acts_quiet (quiet_trans both third) rfl rfl
  | mqueueSend q msg =>
    cases run
    unfold mqueueSendCall
    split
    · split
      · exact acts_answer s (-1)
      · exact acts_still rfl rfl rfl
    · exact acts_answer s (-1)
  | mqueueRecv q msg =>
    cases run
    unfold mqueueRecvCall
    split
    · split
      · exact acts_answer s (-1)
      · exact acts_still rfl rfl rfl
    · exact acts_answer s (-1)
  | mqueueDestroy q =>
    cases run
    split
    · exact acts_answer s (-1)
    · exact acts_still rfl rfl rfl
  | taskGetprio task =>
    cases run
    exact acts_answer s _
  | mqueueMsgs q =>
    simp only [call] at run
    split at run
    · cases run
    · cases run
      exact acts_answer s _
  | diskMgrInit host stack => exact absurd rfl (manager host stack)
  | diskBlockRead block buffer =>
    obtain ⟨⟨k, r⟩, down, rfl⟩ := map_ok run
    exact ⟨down_act down, .blockOp block buffer .read .enqueue, rfl, rfl⟩
  | diskBlockWrite block buffer =>
    obtain ⟨⟨k, r⟩, down, rfl⟩ := map_ok run
    exact ⟨down_act down, .blockOp block buffer .write .enqueue, rfl, rfl⟩
  | store address byte =>
    cases run
    exact acts_still rfl rfl rfl

/-- disk_mgr_init starts the driver or fails. -/
theorem manager_acts {live : Tcb N → Bool} (p : Placed live s.kernel) {host stack : Bool}
    (permitted : Permitted s (.call (.diskMgrInit host stack)))
    (run : diskMgrInit s host stack = .ok s') :
    Acts s s' ∨ s.device.status = .unknown ∧ ∃ j id, Quiet s.kernel j ∧
      taskInit j .diskDriverTask stack = .ok (s'.kernel, id) ∧
      ∃ r, s'.ctl = Function.update (Function.update s.ctl .diskDriverTask (.driver .down)) s.curr
        (.body r) := by
  simp only [diskMgrInit] at run
  split at run
  · cases run
    exact Or.inl (acts_answer s (-1))
  · rename_i accepted
    have unknown : s.device.status = .unknown := by
      by_contra known
      simp [diskInit, known] at accepted
    split at run
    · cases run
    · split at run
      · cases run
        exact Or.inl (acts_still rfl rfl rfl)
      · obtain ⟨⟨k, id⟩, started, after⟩ := map_ok run
        have quiet := quiet_semInit p (permitted unknown).2 1
        have same := init_curr started
        have curr : k.curr = s.curr := same
        refine Or.inr ⟨unknown, _, id, quiet, ?_, ?_⟩
        · dsimp only at after
          split at after
          · subst after
            exact started
          · subst after
            exact started
        · dsimp only at after
          split at after
          · subst after
            refine ⟨-1, ?_⟩
            change Function.update _ k.curr _ = _
            rw [curr]
            rfl
          · subst after
            refine ⟨0, ?_⟩
            change Function.update _ k.curr _ = _
            rw [curr]
            rfl

end Steps
end KernelActs
