import PingPong.KernelActs

/-!
What each step does to the clock, to the time charged to the tasks and to the lines that task_exit
prints. Only the timer, the dispatcher, task_init and task_exit have anything to do with them.
-/
namespace ProcessorTime
open MachineModel CircularList QueueModel KernelModel KernelEffects TaskPlacement SystemModel
open SystemFrames TaskConservation KernelActs KernelViews
variable {N : Type} [DecidableEq N]

section Kernel
variable {k k' : Kernel N}

/-- The clock, the time charged to each task, and what task_exit has printed. -/
def timeView (k : Kernel N) : UInt32 × (Tcb N → UInt32) × List ExitReport :=
  (k.sysclock, fun t => (k.task t).processorTime, k.stdout)

omit [DecidableEq N] in
theorem timeView_eq (clock : k'.sysclock = k.sysclock)
    (times : ∀ t, (k'.task t).processorTime = (k.task t).processorTime)
    (stdout : k'.stdout = k.stdout) : timeView k' = timeView k := by
  simp only [timeView, clock, times, stdout]

theorem setTask_time (k : Kernel N) (t : Tcb N) {f : Task → Task}
    (keeps : ∀ d, (f d).processorTime = d.processorTime) :
    timeView (k.setTask t f) = timeView k :=
  timeView_eq rfl (congrFun (setTask_field k t keeps)) rfl

theorem blind_time : Blind (timeView : Kernel N → _) :=
  blind_pair ⟨fun _ _ => rfl, fun _ _ _ _ => rfl⟩
    (blind_pair (blind_field fun _ _ _ _ => rfl) ⟨fun _ _ => rfl, fun _ _ _ _ => rfl⟩)

theorem switch_time {t : Option (Tcb N)} (run : taskSwitch k t = .ok k') :
    timeView k' = timeView k ∧ t = some k'.curr :=
  ⟨switch_blind blind_time (fun _ _ => rfl) run, switch_dest run⟩

theorem tick_time (run : interruptionHandler k = .ok k') :
    k'.sysclock = k.sysclock + 1 ∧
      (∀ t, (k'.task t).processorTime = (k.task t).processorTime) ∧
      k'.stdout = k.stdout ∧ (k'.curr = k.curr ∨ k'.curr = .dispatcherTask) := by
  have views : ∀ {k'' : Kernel N}, timeView k'' = timeView { k with sysclock := k.sysclock + 1 } →
      k''.sysclock = k.sysclock + 1 ∧
        (∀ t, (k''.task t).processorTime = (k.task t).processorTime) ∧ k''.stdout = k.stdout := by
    intro k'' same
    simp only [timeView, Prod.mk.injEq] at same
    exact ⟨same.1, fun t => congrFun same.2.1 t, same.2.2⟩
  simp only [interruptionHandler] at run
  have counted := setTask_time { k with sysclock := k.sysclock + 1 } k.curr
    (f := fun d => { d with quantum := toInt (d.quantum + 1) }) fun _ => rfl
  split at run
  · obtain ⟨yields, dest⟩ := switch_time run
    have reset := setTask_time (Kernel.setTask { k with sysclock := k.sysclock + 1 } k.curr
      fun d => { d with quantum := toInt (d.quantum + 1) }) k.curr
      (f := fun d => { d with quantum := 0 }) fun _ => rfl
    obtain ⟨clock, times, stdout⟩ := views (yields.trans (reset.trans counted))
    exact ⟨clock, times, stdout, Or.inr (Option.some.inj dest).symm⟩
  · cases run
    obtain ⟨clock, times, stdout⟩ := views counted
    exact ⟨clock, times, stdout, Or.inl rfl⟩

variable [Fintype N]

theorem suspend_time {q : Option TaskQueue} (run : taskSuspend k q = .ok k') :
    timeView k' = timeView k ∧ k'.curr = .dispatcherTask :=
  ⟨suspend_blind blind_time (fun _ _ => rfl) run, suspend_dest run⟩

theorem resume_time {t : Option (Tcb N)} {q : Option TaskQueue}
    (run : taskResume k t q = .ok k') : timeView k' = timeView k ∧ k'.curr = k.curr :=
  ⟨resume_blind blind_time run, resume_blind blind_curr run⟩

theorem scheduler_time {next : Option (Tcb N)} (run : scheduler k = .ok (next, k')) :
    timeView k' = timeView k ∧ k'.curr = k.curr :=
  ⟨scheduler_blind (fun k t _ ages => setTask_time k t fun d => by rw [ages d]) run,
   scheduler_blind (fun _ _ _ _ => rfl) run⟩

theorem drain_time {q : TaskQueue} {fuel : Nat} (run : drainQueue q fuel k = .ok k') :
    timeView k' = timeView k ∧ k'.curr = k.curr :=
  ⟨drain_blind blind_time run, drain_blind blind_curr run⟩

theorem quiet_time (q : Quiet k k') : timeView k' = timeView k :=
  timeView_eq q.clock q.time q.stdout

theorem act_time (a : Act k k') :
    timeView k' = timeView k ∧ (k'.curr = k.curr ∨ k'.curr = .dispatcherTask) := by
  cases a with
  | quiet idle => exact ⟨quiet_time idle, Or.inl idle.curr⟩
  | suspend before other run =>
    obtain ⟨time, curr⟩ := suspend_time run
    exact ⟨time.trans (quiet_time before), Or.inr curr⟩
  | resume before other run =>
    obtain ⟨time, curr⟩ := resume_time run
    exact ⟨time.trans (quiet_time before), Or.inl (curr.trans before.curr)⟩
  | drain before other run =>
    obtain ⟨time, curr⟩ := drain_time run
    exact ⟨time.trans (quiet_time before), Or.inl (curr.trans before.curr)⟩

/-- The line of task_exit carries the time charged so far. -/
theorem exit_time {code : Int} (run : taskExit k code = .ok k') :
    k'.sysclock = k.sysclock ∧ (∀ t, (k'.task t).processorTime = (k.task t).processorTime) ∧
      k'.curr = .dispatcherTask ∧ ∃ report, k'.stdout = k.stdout ++ [report] ∧
        report.id = (k.task k.curr).id ∧
        report.processorTime = (k.task k.curr).processorTime := by
  obtain ⟨j, resumed, run⟩ := bind_ok run
  have time := resumeWhere_blind blind_time (fun _ => rfl) resumed
  split at run
  · cases run
  · obtain ⟨⟨m, code'⟩, -, run⟩ := bind_ok run
    cases run
    simp only [timeView, Prod.mk.injEq] at time
    refine ⟨time.1, fun t => ?_, rfl, _, time.2.2, ?_, ?_⟩
    · refine (congrFun time.2.1 t).trans ?_
      by_cases own : t = k.curr
      · subst own
        simp [Kernel.setStatus, Kernel.setTask]
      · simp [Kernel.setStatus, Kernel.setTask, own]
    · simp [Kernel.setStatus, Kernel.setTask]
    · simp [Kernel.setStatus, Kernel.setTask]

omit [Fintype N] in
theorem init_time {t : Tcb N} {stack : Bool} {id : Int}
    (run : taskInit k t stack = .ok (k', id)) :
    k'.sysclock = k.sysclock ∧ (k'.task t).processorTime = 0 ∧
      (∀ a, a ≠ t → (k'.task a).processorTime = (k.task a).processorTime) ∧
      k'.stdout = k.stdout ∧ k'.curr = k.curr := by
  simp only [taskInit] at run
  split at run
  · cases run
  · obtain ⟨⟨m, code⟩, -, run⟩ := bind_ok run
    cases run
    have fresh : ∀ a, a ≠ t → (Kernel.setTask { k with lastTaskId := k.lastTaskId + 1 } t
        fun _ => initialTask (idOf (k.lastTaskId + 1)) (systime k)).task a = k.task a :=
      fun a other => by simp [Kernel.setTask, other]
    split
    · exact ⟨rfl, by simp [Kernel.setTask, initialTask],
        fun a other => congrArg Task.processorTime (fresh a other), rfl, rfl⟩
    · exact ⟨rfl, by simp [Kernel.setTask, initialTask],
        fun a other => congrArg Task.processorTime (fresh a other), rfl, rfl⟩

theorem wake_time (run : wakeTasks k = .ok k') :
    timeView k' = timeView k ∧ k'.curr = k.curr :=
  ⟨wake_blind blind_time run, wake_blind blind_curr run⟩

end Kernel

section Steps
variable {s s' : System N}

/-- A step that has nothing to do with time: the running task may give up the processor. -/
structure Untimed (s s' : System N) : Prop where
  time : timeView s'.kernel = timeView s.kernel
  curr : s'.curr = s.curr ∨ s'.curr = .dispatcherTask
  dispatcher : s'.ctl .dispatcherTask = s.ctl .dispatcherTask

theorem untimed_goto {t : Tcb N} {new : Ctl N} (other : t ≠ .dispatcherTask)
    (ctl : s'.ctl = Function.update s.ctl t new)
    (time : timeView s'.kernel = timeView s.kernel)
    (curr : s'.curr = s.curr ∨ s'.curr = .dispatcherTask) : Untimed s s' :=
  ⟨time, curr, by rw [ctl, Function.update_of_ne other.symm]⟩

variable [Fintype N]

theorem acts_untimed (user : s.curr ≠ .dispatcherTask) (acts : Acts s s') : Untimed s s' := by
  obtain ⟨kernel, c, -, ctl⟩ := acts
  obtain ⟨time, curr⟩ := act_time kernel
  exact untimed_goto user ctl time curr

theorem completion_untimed (go : step s .completion = some (.ok s')) : Untimed s s' := by
  obtain ⟨op, run⟩ := completion_runs go
  obtain ⟨-, resumed, ctl, -⟩ := sighandle_returns run
  obtain ⟨time, curr⟩ := resume_time resumed
  exact ⟨time, Or.inl curr, congrFun ctl _⟩

theorem advance_untimed (alive : live (s.ctl s.curr) = true) (user : s.curr ≠ .dispatcherTask)
    (notDispatcher : ∀ point, s.ctl s.curr ≠ .dispatcher point) {m₁ m₂ : Bool}
    (run : advance s m₁ m₂ = some (.ok s')) : Untimed s s' := by
  by_cases wakes : ∃ block buffer op, s.ctl s.curr = .blockOp block buffer op .resume
  · obtain ⟨block, buffer, op, here⟩ := wakes
    simp only [advance, here, Option.some.injEq] at run
    obtain ⟨driver, ctl⟩ := wake_driver run
    rcases driver with ⟨-, resumed⟩ | ⟨-, same⟩
    · obtain ⟨time, curr⟩ := resume_time resumed
      exact untimed_goto user ctl time (Or.inl curr)
    · exact untimed_goto user ctl (by rw [same]) (Or.inl (by rw [System.curr, same]; rfl))
  · refine acts_untimed user (advance_acts alive notDispatcher ?_ run)
    intro block buffer op here
    exact wakes ⟨block, buffer, op, here⟩

/-- If all switching goes through the dispatcher. -/
theorem call_untimed {live : Tcb N → Bool} (p : Placed live s.kernel)
    (user : s.curr ≠ .dispatcherTask) {c : Call N} (permitted : Permitted s (.call c))
    (init : ∀ t stack, c ≠ .taskInit t stack) (manager : ∀ host stack, c ≠ .diskMgrInit host stack)
    (exit : ∀ code, c ≠ .taskExit code)
    (switch : ∀ t, c = .taskSwitch (some t) → t = .dispatcherTask)
    (run : call s c = .ok s') : Untimed s s' := by
  by_cases yields : c = .taskYield
  · subst yields
    simp only [call, taskYield] at run
    obtain ⟨k, switched, rfl⟩ := map_ok run
    obtain ⟨time, dest⟩ := switch_time switched
    exact untimed_goto user rfl time (Or.inr (Option.some.inj dest).symm)
  · by_cases switches : ∃ t, c = .taskSwitch t
    · obtain ⟨t, rfl⟩ := switches
      obtain ⟨k, switched, rfl⟩ := map_ok run
      obtain ⟨time, dest⟩ := switch_time switched
      have curr := switch k.curr (by rw [dest])
      exact untimed_goto user rfl time (Or.inr curr)
    · refine acts_untimed user (call_acts p permitted init manager exit yields ?_ run)
      intro t same
      exact switches ⟨t, same⟩

/-- A task begins, with no time charged to it. -/
structure Begins (s s' : System N) (t : Tcb N) : Prop where
  clock : s'.kernel.sysclock = s.kernel.sysclock
  zero : (s'.kernel.task t).processorTime = 0
  others : ∀ a, a ≠ t → (s'.kernel.task a).processorTime = (s.kernel.task a).processorTime
  curr : s'.curr = s.curr
  dispatcher : s'.ctl .dispatcherTask = s.ctl .dispatcherTask

theorem init_begins (user : s.curr ≠ .dispatcherTask)
    (alive : live (s.ctl .dispatcherTask) = true) {t : Tcb N} {stack : Bool}
    (dead : live (s.ctl t) = false) (run : call s (.taskInit t stack) = .ok s') :
    Begins s s' t := by
  obtain ⟨⟨k, id⟩, started, rfl⟩ := map_ok run
  obtain ⟨clock, zero, others, -, curr⟩ := init_time started
  have other : t ≠ .dispatcherTask := by
    rintro rfl
    rw [alive] at dead
    cases dead
  refine ⟨clock, zero, others, curr, ?_⟩
  exact (Function.update_of_ne user.symm _ _).trans (Function.update_of_ne other.symm _ _)

theorem exit_leaves (user : s.curr ≠ .dispatcherTask) {code : Int}
    (run : call s (.taskExit code) = .ok s') :
    s'.kernel.sysclock = s.kernel.sysclock ∧
      (∀ t, (s'.kernel.task t).processorTime = (s.kernel.task t).processorTime) ∧
      s'.curr = .dispatcherTask ∧ s'.ctl .dispatcherTask = s.ctl .dispatcherTask := by
  obtain ⟨k, ended, rfl⟩ := map_ok run
  obtain ⟨clock, times, curr, -⟩ := exit_time ended
  exact ⟨clock, times, curr, Function.update_of_ne user.symm _ _⟩

/-- disk_mgr_init starts the driver or leaves it alone. -/
theorem manager_time {live' : Tcb N → Bool} (p : Placed live' s.kernel)
    (user : s.curr ≠ .dispatcherTask) (other : s.curr ≠ .diskDriverTask) {host stack : Bool}
    (permitted : Permitted s (.call (.diskMgrInit host stack)))
    (run : diskMgrInit s host stack = .ok s') :
    Untimed s s' ∧ s'.ctl .diskDriverTask = s.ctl .diskDriverTask ∨
    s.device.status = .unknown ∧ live (s'.ctl .diskDriverTask) = true ∧
      Begins s s' .diskDriverTask := by
  rcases manager_acts p permitted run with acts | ⟨unknown, j, id, quiet, started, r, ctl⟩
  · refine Or.inl ⟨acts_untimed user acts, ?_⟩
    obtain ⟨-, c, -, ctl⟩ := acts
    rw [ctl, Function.update_of_ne other.symm]
  · obtain ⟨clock, zero, others, -, curr⟩ := init_time started
    refine Or.inr ⟨unknown, ?_, clock.trans quiet.clock, zero, ?_, curr.trans quiet.curr, ?_⟩
    · rw [ctl, Function.update_of_ne other.symm, Function.update_self]
      rfl
    · intro a ne
      rw [others a ne, quiet.time a]
    · rw [ctl, Function.update_of_ne user.symm, Function.update_of_ne (by simp)]

end Steps
end ProcessorTime
