import PingPong.StepViews
import PingPong.TaskConservation

/-!
The quantum of a task. It grows by the ticks of the timer alone, and the dispatcher, the handler
and task_init set it back; a task_switch made by the program itself does not.
-/
namespace QuantumLimit
open MachineModel CircularList QueueModel KernelModel KernelEffects SystemModel
open SystemFrames TransitionRuns TaskConservation KernelViews StepViews
variable {N : Type} [DecidableEq N]

section Kernel
variable {k j k' : Kernel N}

def quanta (k : Kernel N) (t : Tcb N) : Int := (k.task t).quantum

theorem quanta_apart : Apart (quanta : Kernel N → Tcb N → Int) := apart_field fun _ _ _ _ => rfl

theorem quanta_setTask (k : Kernel N) (t : Tcb N) {f : Task → Task}
    (keeps : ∀ d, (f d).quantum = d.quantum) : quanta (k.setTask t f) = quanta k :=
  setTask_field k t keeps

theorem setTask_zero (k : Kernel N) (t : Tcb N) {f : Task → Task}
    (zero : ∀ d, (f d).quantum = 0) :
    ((k.setTask t f).task t).quantum = 0 ∧
      ∀ a, a ≠ t → ((k.setTask t f).task a).quantum = (k.task a).quantum := by
  constructor
  · simp [Kernel.setTask, zero]
  · intro a other
    simp [Kernel.setTask, other]

/-- The handler adds one tick to the quantum of curr, or ends it and yields. -/
theorem tick_quantum (run : interruptionHandler k = .ok k') :
    (∀ t, t ≠ k.curr → (k'.task t).quantum = (k.task t).quantum) ∧
    (toInt ((k.task k.curr).quantum + 1) = quantumLimit ∧ k'.curr = .dispatcherTask ∧
        (k'.task k.curr).quantum = 0 ∨
      toInt ((k.task k.curr).quantum + 1) ≠ quantumLimit ∧ k'.curr = k.curr ∧
        (k'.task k.curr).quantum = toInt ((k.task k.curr).quantum + 1)) := by
  simp only [interruptionHandler] at run
  split at run
  · rename_i limit
    have same := switch_apart quanta_apart run
    constructor
    · intro t other
      refine (congrFun same t).trans ?_
      simp [quanta, Kernel.setTask, other]
    · refine Or.inl ⟨by simpa [Kernel.setTask] using limit,
        (Option.some.inj (switch_dest run)).symm, (congrFun same _).trans ?_⟩
      simp [quanta, Kernel.setTask]
  · rename_i limit
    cases run
    constructor
    · intro t other
      simp [Kernel.setTask, other]
    · exact Or.inr ⟨by simpa [Kernel.setTask] using limit, rfl, by simp [Kernel.setTask]⟩

theorem init_quantum {t : Tcb N} {stack : Bool} {id : Int}
    (run : taskInit k t stack = .ok (k', id)) :
    (k'.task t).quantum = 0 ∧ (∀ a, a ≠ t → (k'.task a).quantum = (k.task a).quantum) ∧
      k'.lastTaskId = k.lastTaskId + 1 := by
  simp only [taskInit] at run
  split at run
  · cases run
  · obtain ⟨⟨m, code⟩, -, run⟩ := bind_ok run
    cases run
    obtain ⟨zero, others⟩ := setTask_zero { k with lastTaskId := k.lastTaskId + 1 } t
      (f := fun _ => initialTask (idOf (k.lastTaskId + 1)) (systime k)) fun _ => rfl
    split
    · exact ⟨zero, others, rfl⟩
    · exact ⟨zero, others, rfl⟩

variable [Fintype N]

theorem exit_quanta {code : Int} (run : taskExit k code = .ok k') : quanta k' = quanta k := by
  obtain ⟨j, resumed, run⟩ := bind_ok run
  have woken := resumeWhere_blind quanta_apart.toBlind (fun _ => rfl) resumed
  split at run
  · cases run
  · obtain ⟨⟨m, code'⟩, -, run⟩ := bind_ok run
    cases run
    refine Eq.trans woken ?_
    funext t
    by_cases own : t = k.curr
    · subst own
      simp [quanta, Kernel.setStatus, Kernel.setTask]
    · simp [quanta, Kernel.setStatus, Kernel.setTask, own]

end Kernel

section Steps
variable [Fintype N] {s s' : System N}

theorem dispatcher_quantum {point : DispatcherPoint N} (run : dispatcherStep s point = .ok s') :
    match point with
    | .dispatch _ next => (s'.kernel.task next).quantum = 0 ∧
        ∀ a, a ≠ next → (s'.kernel.task a).quantum = (s.kernel.task a).quantum
    | _ => quanta s'.kernel = quanta s.kernel := by
  cases point with
  | top =>
    simp only [dispatcherStep] at run
    split at run
    · cases run
      rfl
    · obtain ⟨k, ended, rfl⟩ := map_ok run
      exact exit_quanta ended
  | wake start =>
    obtain ⟨k, woken, rfl⟩ := map_ok run
    exact wake_blind quanta_apart.toBlind woken
  | schedule start =>
    obtain ⟨⟨next, k⟩, picked, same⟩ := map_ok run
    have kept : quanta k = quanta s.kernel := scheduler_blind
      (fun k t _ ages => quanta_setTask k t fun d => by rw [ages d]) picked
    dsimp only at same
    split at same
    · subst same
      exact kept
    · subst same
      exact (quanta_setTask k .dispatcherTask
        (f := fun d => { d with processorTime := d.processorTime + (systime k - start) })
        fun _ => rfl).trans kept
  | dispatch start next =>
    simp only [dispatcherStep] at run
    obtain ⟨k, switched, rfl⟩ := map_ok run
    have kept := congrFun (switch_apart quanta_apart switched)
    have turned := quanta_setTask s.kernel .dispatcherTask
      (f := fun d => { d with activations := d.activations + 1 }) fun _ => rfl
    have counted := (quanta_setTask _ next
      (f := fun d => { d with activations := d.activations + 1 }) fun _ => rfl).trans turned
    have charged := (quanta_setTask _ .dispatcherTask
      (f := fun d => { d with processorTime := d.processorTime + (systime s.kernel - start) })
      fun _ => rfl).trans counted
    obtain ⟨zero, others⟩ := setTask_zero _ next (f := fun d => { d with quantum := 0 })
      fun _ => rfl
    exact ⟨(kept next).trans zero, fun a other =>
      (kept a).trans ((others a other).trans (congrFun charged a))⟩
  | back next start =>
    cases run
    have charged := quanta_setTask s.kernel next
      (f := fun d => { d with processorTime := d.processorTime + (systime s.kernel - start) })
      fun _ => rfl
    exact (quanta_setTask _ .dispatcherTask (f := fun d => { d with processorTime :=
      d.processorTime + (systime s.kernel - systime s.kernel) }) fun _ => rfl).trans charged

theorem advance_quantum {m₁ m₂ : Bool} (run : advance s m₁ m₂ = some (.ok s')) :
    match s.ctl s.curr with
    | .dispatcher (.dispatch _ next) => (s'.kernel.task next).quantum = 0 ∧
        ∀ a, a ≠ next → (s'.kernel.task a).quantum = (s.kernel.task a).quantum
    | _ => quanta s'.kernel = quanta s.kernel := by
  by_cases loop : ∃ point, s.ctl s.curr = .dispatcher point
  · obtain ⟨point, here⟩ := loop
    simp only [advance, here, Option.some.injEq] at run ⊢
    have quantum := dispatcher_quantum run
    cases point <;> exact quantum
  · have same := advance_apart quanta_apart (fun point here => loop ⟨point, here⟩) run
    split
    · rename_i here
      exact absurd ⟨_, here⟩ loop
    · exact same

omit [Fintype N] in
theorem manager_quantum {host stack : Bool} (run : diskMgrInit s host stack = .ok s') :
    (∀ a, a ≠ .diskDriverTask →
      (s'.kernel.task a).quantum = (s.kernel.task a).quantum) ∧
    (s'.kernel.lastTaskId = s.kernel.lastTaskId ∧
        (s'.kernel.task .diskDriverTask).quantum = (s.kernel.task .diskDriverTask).quantum ∨
      s'.kernel.lastTaskId = s.kernel.lastTaskId + 1 ∧
        (s'.kernel.task .diskDriverTask).quantum = 0) := by
  simp only [diskMgrInit] at run
  split at run
  · cases run
    exact ⟨fun _ _ => rfl, Or.inl ⟨rfl, rfl⟩⟩
  · split at run
    · cases run
    · split at run
      · cases run
        exact ⟨fun _ _ => rfl, Or.inl ⟨rfl, rfl⟩⟩
      · obtain ⟨⟨k, id⟩, started, after⟩ := map_ok run
        obtain ⟨zero, others, last⟩ := init_quantum started
        have kernel : s'.kernel = k := by
          dsimp only at after
          split at after
          · rw [← after]
            rfl
          · rw [← after]
            rfl
        rw [kernel]
        exact ⟨others, Or.inr ⟨last, zero⟩⟩

theorem call_quanta {c : Call N} (init : ∀ t stack, c ≠ .taskInit t stack)
    (manager : ∀ host stack, c ≠ .diskMgrInit host stack) (run : call s c = .ok s') :
    quanta s'.kernel = quanta s.kernel := by
  cases c with
  | taskExit code =>
    obtain ⟨k, ended, rfl⟩ := map_ok run
    exact exit_quanta ended
  | taskSetprio t prio =>
    cases run
    exact quanta_setTask s.kernel (t.getD s.kernel.curr)
      (f := fun d => { d with staticPriority := toShort prio, dynamicPriority := toShort prio })
      fun _ => rfl
  | _ => exact call_apart quanta_apart init manager (by simp) (by simp) run

end Steps

section Watches

/-- What can happen: a step of the system, a task's own call of task_suspend or task_resume, and
    the return from task_exit of an ended task that somebody has switched to. -/
inductive Event (N : Type) where
  | step (l : Label N)
  | suspend (queue : Option TaskQueue)
  | resume (task : Option (Tcb N)) (queue : Option TaskQueue)
  | exitReturns

/-- The ticks handled with each task as curr since it was last dispatched, preempted or
    initialised. -/
structure Watch (N : Type) where
  system : System N
  ticks : Tcb N → Nat

/-- The handler has yielded if curr has changed. -/
def watched (w : Watch N) (e : Event N) (s' : System N) : Tcb N → Nat :=
  match e with
  | .step .tick => Function.update w.ticks w.system.curr
      (if s'.curr = w.system.curr then w.ticks w.system.curr + 1 else 0)
  | .step (.call (.taskInit t _)) => Function.update w.ticks t 0
  | .step (.call (.diskMgrInit _ _)) =>
    if s'.kernel.lastTaskId = w.system.kernel.lastTaskId then w.ticks
    else Function.update w.ticks .diskDriverTask 0
  | .step (.run _ _) => match w.system.ctl w.system.curr with
      | .dispatcher (.dispatch _ next) => Function.update w.ticks next 0
      | _ => w.ticks
  | _ => w.ticks

variable [Fintype N]

def next (s : System N) : Event N → Option (Except Halt (System N))
  | .step l => step s l
  | .suspend queue => match s.ctl s.curr with
      | .body _ => some ((taskSuspend s.kernel queue).map fun k =>
          (s.withKernel k).goto s.curr (.body 0))
      | _ => none
  | .resume task queue => match s.ctl s.curr with
      | .body _ => some ((taskResume s.kernel task queue).map fun k => (s.withKernel k).answer 0)
      | _ => none
  | .exitReturns => match s.ctl s.curr with
      | .terminated => some (.ok (s.goto s.curr (.body 0)))
      | _ => none

def Runs (w : Watch N) (e : Event N) (w' : Watch N) : Prop :=
  next w.system e = some (.ok w'.system) ∧ w'.ticks = watched w e w'.system

structure Started (w : Watch N) : Prop where
  booted : Booted w.system
  ticks : ∀ t, w.ticks t = 0

/-- The quantum of a task counts its ticks and stays below the limit. -/
def Limited (w : Watch N) : Prop :=
  ∀ t, t ≠ .dispatcherTask → 0 ≤ (w.system.kernel.task t).quantum ∧
    (w.system.kernel.task t).quantum < quantumLimit ∧
    (w.ticks t : Int) = (w.system.kernel.task t).quantum

variable {w w' : Watch N} {e : Event N}

omit [DecidableEq N] [Fintype N] in
theorem limited_same (inv : Limited w) (same : quanta w'.system.kernel = quanta w.system.kernel)
    (ticks : w'.ticks = w.ticks) : Limited w' := by
  intro t user
  have kept : (w'.system.kernel.task t).quantum = (w.system.kernel.task t).quantum :=
    congrFun same t
  rw [kept, ticks]
  exact inv t user

omit [Fintype N] in
theorem limited_reset (inv : Limited w) (t : Tcb N)
    (zero : (w'.system.kernel.task t).quantum = 0)
    (others : ∀ a, a ≠ t →
      (w'.system.kernel.task a).quantum = (w.system.kernel.task a).quantum)
    (ticks : w'.ticks = Function.update w.ticks t 0) : Limited w' := by
  intro a user
  rw [ticks, Function.update_apply]
  split
  · rename_i same
    rw [same, zero]
    decide
  · rename_i other
    rw [others a other]
    exact inv a user

omit [Fintype N] in
theorem limited_tick (inv : Limited w)
    (run : interruptionHandler w.system.kernel = .ok w'.system.kernel)
    (ticks : w'.ticks = watched w (.step .tick) w'.system) : Limited w' := by
  obtain ⟨others, own⟩ := tick_quantum run
  intro t user
  rw [ticks]
  simp only [watched]
  by_cases same : t = w.system.curr
  · subst same
    obtain ⟨low, high, count⟩ := inv _ user
    rw [Function.update_self]
    rcases own with ⟨-, yields, zero⟩ | ⟨goesOn, stays, counted⟩
    · have gone : w'.system.curr ≠ w.system.curr := by
        intro same
        exact user (same.symm.trans yields)
      rw [if_neg gone]
      have zero' : (w'.system.kernel.task w.system.curr).quantum = 0 := zero
      rw [zero']
      decide
    · have here : w'.system.curr = w.system.curr := stays
      have exact : toInt ((w.system.kernel.task w.system.curr).quantum + 1) =
          (w.system.kernel.task w.system.curr).quantum + 1 :=
        toInt_eq_self (by simp only [intMin]; omega)
          (by simp only [intMax, quantumLimit] at *; omega)
      have counted' : (w'.system.kernel.task w.system.curr).quantum =
          (w.system.kernel.task w.system.curr).quantum + 1 := counted.trans exact
      have below : (w.system.kernel.task w.system.curr).quantum + 1 ≠ quantumLimit :=
        fun limit => goesOn (exact.trans limit)
      rw [if_pos here, counted']
      push_cast
      omega
  · rw [Function.update_of_ne same, others t same]
    exact inv t user

theorem limited_step (inv : Limited w) (go : Runs w e w') : Limited w' := by
  obtain ⟨run, ticks⟩ := go
  cases e with
  | suspend queue =>
    simp only [next] at run
    split at run
    · obtain ⟨k, suspended, same⟩ := map_ok (Option.some.inj run)
      refine limited_same inv ?_ ticks
      rw [← same]
      exact suspend_apart quanta_apart suspended
    · cases run
  | resume task queue =>
    simp only [next] at run
    split at run
    · obtain ⟨k, resumed, same⟩ := map_ok (Option.some.inj run)
      refine limited_same inv ?_ ticks
      rw [← same]
      exact resume_apart quanta_apart resumed
    · cases run
  | exitReturns =>
    simp only [next] at run
    split at run
    · refine limited_same inv ?_ ticks
      rw [← Except.ok.inj (Option.some.inj run)]
      rfl
    · cases run
  | step l =>
    simp only [next] at run
    cases l with
    | tick =>
      obtain ⟨k, handled, same⟩ := map_ok (Option.some.inj run)
      refine limited_tick inv ?_ ticks
      rw [← same]
      exact handled
    | completion => exact limited_same inv (completion_apart quanta_apart run) ticks
    | call c =>
      obtain ⟨-, -, run⟩ := call_runs run
      cases c with
      | taskInit t stack =>
        obtain ⟨⟨k, id⟩, started, same⟩ := map_ok run
        obtain ⟨zero, others, -⟩ := init_quantum started
        refine limited_reset inv t ?_ ?_ ticks
        · rw [← same]
          exact zero
        · rw [← same]
          exact others
      | diskMgrInit host stack =>
        obtain ⟨others, ⟨last, same⟩ | ⟨last, zero⟩⟩ := manager_quantum run
        · refine limited_same inv (funext fun a => ?_) (ticks.trans (if_pos last))
          by_cases driver : a = .diskDriverTask
          · rw [driver]
            exact same
          · exact others a driver
        · refine limited_reset inv .diskDriverTask zero others (ticks.trans (if_neg ?_))
          rw [last]
          grind
      | _ => exact limited_same inv (call_quanta (by simp) (by simp) run) ticks
    | run malloc₁ malloc₂ =>
      have quantum := advance_quantum run
      simp only [watched] at ticks
      split at quantum
      · rename_i start task here
        rw [here] at ticks
        exact limited_reset inv task quantum.1 quantum.2 ticks
      · rename_i other
        refine limited_same inv quantum (ticks.trans ?_)
        split
        · rename_i start task here
          exact absurd here (other start task)
        · rfl

omit [Fintype N] in
theorem started_limited (started : Started w) : Limited w := by
  obtain ⟨sem, run⟩ := started.booted.kernel
  rw [pposInit_boot, Except.ok.injEq] at run
  intro t user
  have zero : (w.system.kernel.task t).quantum = 0 := by
    rw [← run]
    cases t with
    | dispatcherTask => exact absurd rfl user
    | mainTask | diskDriverTask | user n => rfl
  rw [started.ticks, zero]
  decide

/-- Between two ticks the quantum of a task is below the limit, and the tick that fills it gives
    the processor to the dispatcher. -/
theorem quantum_is_enforced {w w' : Watch N} {events : List (Event N)} (started : Started w)
    (run : Run Runs w events w') :
    (∀ t, t ≠ .dispatcherTask → 0 ≤ (w'.system.kernel.task t).quantum ∧
      (w'.system.kernel.task t).quantum < quantumLimit ∧ (w'.ticks t : Int) < quantumLimit) ∧
    ∀ w'', Runs w' (.step .tick) w'' → w'.system.curr ≠ .dispatcherTask →
      (w''.system.curr = .dispatcherTask ↔
        (w'.ticks w'.system.curr : Int) + 1 = quantumLimit) := by
  have inv : Limited w' := run_invariant Limited (fun _ _ _ => limited_step) run
    (started_limited started)
  constructor
  · intro t user
    obtain ⟨low, high, count⟩ := inv t user
    exact ⟨low, high, by omega⟩
  · rintro w'' ⟨go, -⟩ user
    obtain ⟨low, high, count⟩ := inv _ user
    obtain ⟨k, handled, same⟩ := map_ok (Option.some.inj go)
    obtain ⟨-, own⟩ := tick_quantum handled
    have curr : w''.system.curr = k.curr := by
      rw [← same]
      rfl
    have exact : toInt ((w'.system.kernel.task w'.system.curr).quantum + 1) =
        (w'.system.kernel.task w'.system.curr).quantum + 1 :=
      toInt_eq_self (by simp only [intMin]; omega)
        (by simp only [intMax, quantumLimit] at *; omega)
    rw [curr, count, ← exact]
    rcases own with ⟨limit, yields, -⟩ | ⟨goesOn, stays, -⟩
    · exact iff_of_true yields limit
    · exact iff_of_false (fun gone => user (stays.symm.trans gone)) goesOn

def watchStep (w : Watch N) (e : Event N) : Option (Watch N) :=
  match next w.system e with
  | some (.ok s') => some ⟨s', watched w e s'⟩
  | _ => none

theorem watchStep_runs {w w' : Watch N} {e : Event N} (done : watchStep w e = some w') :
    Runs w e w' := by
  unfold watchStep at done
  split at done
  · rename_i run
    cases done
    exact ⟨run, rfl⟩
  · cases done

def begun : Watch (Fin 1) := ⟨bootSystem, fun _ => 0⟩

/-- After four ticks main switches to a task of its own accord. -/
def leavesEarly : List (Event (Fin 1)) :=
  [Event.step (.call (.taskInit (.user 0) true))] ++ List.replicate 4 (Event.step .tick) ++
  [Event.step (.call (.taskSwitch (some (.user 0))))] ++ List.replicate 9 (Event.step .tick)

theorem tenth_tick_yields : ∃ w w' : Watch (Fin 1), Run Runs begun leavesEarly w ∧
    Runs w (.step .tick) w' ∧ w.system.curr = .user 0 ∧ w.ticks .mainTask = 4 ∧
    w'.system.curr = .dispatcherTask := by
  obtain ⟨w, found, ticked, curr, main, nine⟩ := exec_reaches watchStep begun leavesEarly
    (fun w => (watchStep w (.step .tick)).isSome = true ∧ w.system.curr = .user 0 ∧
      w.ticks .mainTask = 4 ∧ w.ticks (.user 0) = 9) (by decide +kernel)
  obtain ⟨w', tick⟩ := Option.isSome_iff_exists.mp ticked
  have run : Run Runs begun leavesEarly w :=
    run_mono (fun _ _ _ done => watchStep_runs done) (exec_run found)
  have enforced := (quantum_is_enforced ⟨boot_booted, fun _ => rfl⟩ run).2 w' (watchStep_runs tick)
    (by rw [curr]; decide)
  refine ⟨w, w', run, watchStep_runs tick, curr, main, enforced.mpr ?_⟩
  rw [curr, nine]
  rfl

end Watches

end QuantumLimit
