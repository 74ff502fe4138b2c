import PingPong.DiskGuarantees
import PingPong.WaitingTasks

/-!
task_wait and task_exit statement by statement. The timer may take the processor from a task
that has tested the status of another one and is not in suspended_tasks yet, and from a task
that has marked itself as terminated and still has to wake those that wait for it. All other
calls are steps of the system as before.
-/
namespace TerminationRaces
open MachineModel CircularList QueueModel KernelModel KernelEffects TaskPlacement SystemModel
open SystemFrames TransitionRuns TaskConservation TaskEvents WaitingTasks DiskGuarantees
variable {N : Type} [DecidableEq N] [Fintype N]

section Statements

/-- The next statement of a task inside task_wait or task_exit. -/
inductive Partway (N : Type) where
  | waits (task : Tcb N)
  | blocks (task : Tcb N)
  | records (exitCode : Int)
  | wakes
  | leaves
  | switches
  deriving DecidableEq

structure Split (N : Type) where
  system : System N
  point : Tcb N → Option (Partway N)

def Split.goto (a : Split N) (s : System N) (next : Option (Partway N)) : Split N :=
  ⟨s, Function.update a.point a.system.curr next⟩

/-- if (!task || task->status == TERMINATED) return -1 -/
def taskWaitTest (a : Split N) (t : Tcb N) : Split N :=
  if (a.system.kernel.task t).status = .terminated then { a with system := a.system.answer (-1) }
  else a.goto (a.system.goto a.system.curr (.waitReturn t)) (some (.waits t))

/-- curr->status = TERMINATED -/
def taskExitMark (a : Split N) (exitCode : Int) : Split N :=
  a.goto (a.system.withKernel (a.system.kernel.setStatus a.system.curr .terminated))
    (some (.records exitCode))

/-- The last statements of task_exit, after which the dispatcher has the processor. -/
def departed (s : System N) : System N :=
  (s.withKernel { s.kernel with userTasksNum := toInt (s.kernel.userTasksNum - 1),
                                curr := .dispatcherTask }).goto s.curr .terminated

def partwayStep (a : Split N) : Partway N → Except Halt (Split N)
  | .waits t =>
    let k := a.system.kernel
    .ok (a.goto (a.system.withKernel (k.setTask k.curr fun d =>
      { d with waitingTask := (k.task t).id })) (some (.blocks t)))
  | .blocks _ => (taskSuspend a.system.kernel (some .suspendedTasks)).map fun k =>
      a.goto (a.system.withKernel k) none
  | .records exitCode =>
    let k := a.system.kernel
    let k := k.setTask k.curr fun d => { d with executionTime := systime k - d.executionTime }
    let k := k.setTask k.curr fun d => { d with exitCode := exitCode }
    let d := k.task k.curr
    let k := { k with stdout := k.stdout ++
      [⟨d.id, d.executionTime, d.processorTime, d.activations⟩] }
    .ok (a.goto (a.system.withKernel k) (some .wakes))
  | .wakes =>
    let k := a.system.kernel
    (resumeWhere k .suspendedTasks (fun d => d.waitingTask = (k.task k.curr).id)
      (fun d => { d with waitingTask := -1 })).map fun k =>
        a.goto (a.system.withKernel k) (some .leaves)
  | .leaves =>
    let k := a.system.kernel
    if (k.task k.curr).id = dispatcherPid then .error (.exit 0)
    else (queueRemove k.queues (some .readyTasks) (some k.curr)).map fun (queues, _) =>
      a.goto (a.system.withKernel { k with queues := queues }) (some .switches)
  | .switches => .ok (a.goto (departed a.system) none)

def wholeStep (a : Split N) (l : Label N) : Option (Except Halt (Split N)) :=
  (step a.system l).map fun result => result.map fun s => { a with system := s }

def splitStep (a : Split N) (l : Label N) : Option (Except Halt (Split N)) :=
  match l, a.point a.system.curr with
  | .run _ _, some p => some (partwayStep a p)
  | .call _, some _ => none
  | .call (.taskWait (some t)), none => match a.system.ctl a.system.curr with
      | .body _ => some (.ok (taskWaitTest a t))
      | _ => none
  | .call (.taskExit exitCode), none => match a.system.ctl a.system.curr with
      | .body _ => some (.ok (taskExitMark a exitCode))
      | _ => none
  | l, _ => wholeStep a l

theorem splitStep_partway {a : Split N} {p : Partway N} (here : a.point a.system.curr = some p)
    (m₁ m₂ : Bool) : splitStep a (.run m₁ m₂) = some (partwayStep a p) := by
  simp [splitStep, here]

/-- With nobody else in between, the statements make up the call. -/
theorem wait_in_one_piece (a : Split N) {s : System N} {code : Int} {t : Tcb N}
    (body : a.system.ctl a.system.curr = .body code) (here : a.point a.system.curr = none)
    (going : (a.system.kernel.task t).status ≠ .terminated)
    (run : step a.system (.call (.taskWait (some t))) = some (.ok s)) :
    Run (fun a l b => splitStep a l = some (.ok b)) a
      (.call (.taskWait (some t)) :: List.replicate 2 (.run true true)) { a with system := s } := by
  simp only [step, body, call, taskWait, going, if_false] at run
  obtain ⟨⟨k, r⟩, waited, ends⟩ := map_ok (Option.some.inj run)
  obtain ⟨k', suspended, same⟩ := map_ok waited
  cases same
  have begins : splitStep a (.call (.taskWait (some t))) = some (.ok (a.goto
      (a.system.goto a.system.curr (.waitReturn t)) (some (.waits t)))) := by
    simp [splitStep, here, body, taskWaitTest, going]
  refine run_cons begins (run_cons (splitStep_partway (p := .waits t) (Function.update_self _ _ _)
    true true) (run_one ((splitStep_partway (p := .blocks t) (Function.update_self _ _ _)
    true true).trans ?_)))
  have blocked : taskSuspend (a.system.kernel.setTask a.system.curr fun d =>
      { d with waitingTask := (a.system.kernel.task t).id }) (some .suspendedTasks) = .ok k :=
    suspended
  have whole : Function.update (Function.update (Function.update a.point a.system.curr
      (some (.waits t))) a.system.curr (some (.blocks t))) a.system.curr none = a.point := by
    rw [Function.update_idem, Function.update_idem, ← here, Function.update_eq_self]
  change some ((taskSuspend _ _).map _) = _
  refine (congrArg some (congrArg (Except.map _) blocked)).trans ?_
  subst ends
  exact congrArg (fun p => some (Except.ok (Split.mk _ p))) whole

theorem exit_in_one_piece (a : Split N) {s : System N} {code exitCode : Int}
    (c : Conserved a.system) (body : a.system.ctl a.system.curr = .body code)
    (here : a.point a.system.curr = none)
    (run : step a.system (.call (.taskExit exitCode)) = some (.ok s)) :
    Run (fun a l b => splitStep a l = some (.ok b)) a
      (.call (.taskExit exitCode) :: List.replicate 4 (.run true true)) { a with system := s } := by
  simp only [step, body] at run
  obtain ⟨k, ended, rfl⟩ := map_ok (Option.some.inj run)
  obtain ⟨k₄, resume, same, _⟩ := exit_resumes c.placed exitCode
  rw [taskExit_eq, resume] at ended
  simp only [Except.bind] at ended
  split at ended
  · cases ended
  · rename_i other
    rcases removed : queueRemove k₄.queues (some .readyTasks) (some a.system.kernel.curr) with
      _ | ⟨m, r⟩
    · rw [removed] at ended; cases ended
    · rw [removed] at ended
      cases ended
      have removed' : queueRemove k₄.queues (some .readyTasks) (some k₄.curr) = .ok (m, r) := by
        rw [same]; exact removed
      let reached (k : Kernel N) (p : Option (Partway N)) : Split N :=
        ⟨a.system.withKernel k, Function.update a.point a.system.curr p⟩
      have go : ∀ {k : Kernel N} {s : System N} {p n}, k.curr = a.system.curr →
          partwayStep (reached k (some p)) p = .ok ((reached k (some p)).goto s n) →
          splitStep (reached k (some p)) (.run true true) =
            some (.ok ⟨s, Function.update a.point a.system.curr n⟩) := by
        intro k s p n curr next
        have point : (reached k (some p)).point (reached k (some p)).system.curr = some p := by
          change Function.update a.point a.system.curr (some p) k.curr = some p
          rw [curr, Function.update_self]
        rw [splitStep_partway point, next]
        change some (Except.ok
          (⟨s, Function.update (Function.update _ _ _) k.curr n⟩ : Split N)) = _
        rw [curr, Function.update_idem]
      have begins : splitStep a (.call (.taskExit exitCode)) =
          some (.ok (taskExitMark a exitCode)) := by
        simp [splitStep, here, body]
      have records := go (k := a.system.kernel.setStatus a.system.curr .terminated)
        (p := .records exitCode) rfl rfl
      have wakes := go (k := exitRecord a.system.kernel exitCode) (p := .wakes)
        (s := a.system.withKernel k₄) (n := some .leaves) rfl (by
          simp only [partwayStep]
          exact congrArg (Except.map _) resume)
      have leaves := go (k := k₄) (p := .leaves)
        (s := a.system.withKernel { k₄ with queues := m }) (n := some .switches) same (by
          simp only [partwayStep]
          change (if (k₄.task k₄.curr).id = dispatcherPid then _ else
            (queueRemove k₄.queues _ (some k₄.curr)).map _) = _
          rw [if_neg (by rw [same]; exact other), removed']
          rfl)
      have switches := go (k := { k₄ with queues := m }) (p := .switches)
        (n := none) same rfl
      have whole : Function.update a.point a.system.curr none = a.point := by
        rw [← here, Function.update_eq_self]
      have ends : departed (a.system.withKernel { k₄ with queues := m }) =
          (a.system.withKernel { k₄ with
            queues := m
            userTasksNum := toInt (k₄.userTasksNum - 1)
            curr := .dispatcherTask }).goto a.system.curr .terminated := by
        simp only [departed, System.curr, System.withKernel_kernel, same]
        rfl
      rw [whole] at switches
      refine run_cons begins (run_cons records (run_cons wakes (run_cons leaves (run_one ?_))))
      exact switches.trans (by rw [← ends])

inductive Moves (a : Split N) (l : Label N) : Split N → Prop where
  | whole (s' : System N) : step a.system l = some (.ok s') →
      (l = .tick ∨ l = .completion ∨ a.point a.system.curr = none) →
      (∀ t, taskEvent a.system l ≠ .wait t) → (∀ code, taskEvent a.system l ≠ .exit code) →
      Moves a l ⟨s', a.point⟩
  | tests (t : Tcb N) (code : Int) : a.system.ctl a.system.curr = .body code →
      (a.system.kernel.task t).status ≠ .terminated → a.point a.system.curr = none →
      l = .call (.taskWait (some t)) →
      Moves a l (a.goto (a.system.goto a.system.curr (.waitReturn t)) (some (.waits t)))
  | marks (exitCode code : Int) : a.system.ctl a.system.curr = .body code →
      a.point a.system.curr = none → l = .call (.taskExit exitCode) →
      Moves a l (taskExitMark a exitCode)
  | next {b : Split N} (p : Partway N) : a.point a.system.curr = some p →
      partwayStep a p = .ok b → ∀ m₁ m₂, l = .run m₁ m₂ → Moves a l b

theorem wholeStep_moves {a b : Split N} {l : Label N} (run : wholeStep a l = some (.ok b))
    (outside : l = .tick ∨ l = .completion ∨ a.point a.system.curr = none)
    (waits : ∀ t, taskEvent a.system l ≠ .wait t)
    (exits : ∀ code, taskEvent a.system l ≠ .exit code) : Moves a l b := by
  simp only [wholeStep, Option.map_eq_some_iff] at run
  obtain ⟨result, went, mapped⟩ := run
  obtain ⟨s', rfl, rfl⟩ := map_ok mapped
  exact .whole s' went outside waits exits

theorem splitStep_moves {a b : Split N} {l : Label N} (run : splitStep a l = some (.ok b)) :
    Moves a l b := by
  cases l with
  | tick =>
    exact wholeStep_moves run (by simp) (fun _ event => by cases event)
      fun _ event => by cases event
  | completion =>
    exact wholeStep_moves run (by simp) (fun _ event => by cases event)
      fun _ event => by cases event
  | run m₁ m₂ =>
    cases here : a.point a.system.curr with
    | none =>
      simp only [splitStep, here] at run
      exact wholeStep_moves run (by simp [here]) (fun t event => by cases label_of event)
        fun code event => by cases label_of event
    | some p =>
      rw [splitStep_partway here] at run
      exact .next p here (Option.some.inj run) m₁ m₂ rfl
  | call c =>
    cases here : a.point a.system.curr with
    | some p => simp [splitStep, here] at run
    | none =>
      have other : splitStep a (.call c) = wholeStep a (.call c) →
          (∀ t, c ≠ .taskWait (some t)) → (∀ code, c ≠ .taskExit code) → Moves a (.call c) b := by
        intro same waits exits
        refine wholeStep_moves (same ▸ run) (by simp [here])
          (fun t event => ?_) fun code event => ?_
        · exact waits t (Label.call.inj (label_of event))
        · exact exits code (Label.call.inj (label_of event))
      cases c with
      | taskWait task =>
        cases task with
        | none => exact other (by simp [splitStep, here]) (by simp) (by simp)
        | some t =>
          simp only [splitStep, here] at run
          split at run
          · rename_i code body
            cases run
            rw [taskWaitTest]
            split
            · rename_i ended
              refine wholeStep_moves ?_ (by simp [here]) (fun _ => by simp [taskEvent, ended])
                fun _ => by simp [taskEvent, ended]
              simp [wholeStep, step, body, call, taskWait, ended, Except.map]
              rfl
            · rename_i going
              exact .tests t code body going here rfl
          · cases run
      | taskExit exitCode =>
        simp only [splitStep, here] at run
        split at run
        · rename_i code body
          cases run
          exact .marks exitCode code body here rfl
        · cases run
      | _ => exact other (by simp [splitStep, here]) (by simp) (by simp)

end Statements

section Conditions

def exiting : Option (Partway N) → Bool
  | some (.waits _) | some (.blocks _) | none => false
  | some _ => true

def Distinct (s : System N) : Prop :=
  ∀ t u, s.ctl t ≠ .unborn → s.ctl u ≠ .unborn → (s.kernel.task t).id = (s.kernel.task u).id →
    t = u

/-- No quantum ends inside task_exit. -/
def ExitsWhole (a : Split N) : Label N → Prop
  | .tick => exiting (a.point a.system.curr) = true → ¬ Expires a.system
  | _ => True

/-- A task that exits wakes its waiters while nobody is about to become one. -/
def ScansAlone (a : Split N) : Label N → Prop
  | .run _ _ => a.point a.system.curr = some .wakes →
      ∀ w, a.point w ≠ some (.waits a.system.curr) ∧ a.point w ≠ some (.blocks a.system.curr)
  | _ => True

/-- Tasks wait for tasks that have been initialised. -/
def Knows (a : Split N) : Label N → Prop
  | .call (.taskWait (some t)) => a.system.ctl t ≠ .unborn
  | _ => True

def Splits (a : Split N) (l : Label N) (b : Split N) : Prop :=
  splitStep a l = some (.ok b) ∧ Permitted a.system l ∧ Knows a l

def Unraced (a : Split N) (l : Label N) (b : Split N) : Prop :=
  Splits a l b ∧ ExitsWhole a l ∧ ScansAlone a l ∧ Distinct b.system

/-- The task has left task_exit, says so, and nobody is blocked on it. -/
structure Rests (t : Tcb N) (a : Split N) : Prop where
  left : a.system.ctl t = .terminated
  status : (a.system.kernel.task t).status = .terminated
  unawaited : ∀ w ∈ tasks a.system.kernel .suspendedTasks,
    (a.system.kernel.task w).waitingTask ≠ (a.system.kernel.task t).id

end Conditions

section Steady

/-- The task can still be waited for: if it exits, it will look for its waiters. -/
structure Awaitable (s : System N) (point : Tcb N → Option (Partway N)) (t : Tcb N) : Prop where
  born : s.ctl t ≠ .unborn
  going : s.ctl t ≠ .terminated
  unscanned : point t ≠ some .leaves

def AtPoint (s : System N) (point : Tcb N → Option (Partway N)) (runner w : Tcb N) :
    Partway N → Prop
  | .waits t => s.ctl w = .waitReturn t ∧ w ∉ tasks s.kernel .suspendedTasks ∧
      Awaitable s point t
  | .blocks t => s.ctl w = .waitReturn t ∧ w ∉ tasks s.kernel .suspendedTasks ∧
      Awaitable s point t ∧ (s.kernel.task w).waitingTask = (s.kernel.task t).id
  | .records _ | .wakes | .leaves => s.curr = runner ∧ ∃ code, s.ctl w = .body code
  | .switches => s.curr = .dispatcherTask ∧ s.ctl w = .terminated

/-- What holds between any two statements; runner is the task that executes them. -/
structure Steady (s : System N) (point : Tcb N → Option (Partway N)) (runner : Tcb N) :
    Prop where
  conserved : Conserved s
  marked : ∀ t, (s.kernel.task t).status = .terminated ↔
    waitPoint (s.ctl t) = .ended ∨ exiting (point t) = true
  exits : ∀ t, exiting (point t) = true → t = runner
  inside : ∀ w p, point w = some p → AtPoint s point runner w p
  distinct : Distinct s
  blocked : ∀ w ∈ tasks s.kernel .suspendedTasks, ∃ t, Awaitable s point t ∧
    (s.kernel.task w).waitingTask = (s.kernel.task t).id

/-- The system as the last statements of task_exit will leave it. -/
def settled (a : Split N) : System N :=
  if a.point a.system.curr = some .switches then departed a.system else a.system

variable {s s' : System N} {point : Tcb N → Option (Partway N)} {runner : Tcb N} {l : Label N}

theorem steady_still (steady : Steady s point runner) (conserved : Conserved s')
    (ctl : s'.ctl = s.ctl) (curr : s'.curr = s.curr)
    (status : ∀ t, (s'.kernel.task t).status = .terminated ↔
      (s.kernel.task t).status = .terminated)
    (id : ∀ t, (s'.kernel.task t).id = (s.kernel.task t).id)
    (waiting : ∀ t, (s'.kernel.task t).waitingTask = (s.kernel.task t).waitingTask)
    (suspended : tasks s'.kernel .suspendedTasks = tasks s.kernel .suspendedTasks) :
    Steady s' point runner := by
  have awaitable : ∀ {t}, Awaitable s point t → Awaitable s' point t := by
    intro t ⟨born, going, unscanned⟩
    exact ⟨by rw [ctl]; exact born, by rw [ctl]; exact going, unscanned⟩
  refine ⟨conserved, ?_, steady.exits, ?_, ?_, ?_⟩
  · intro t
    rw [status, ctl]
    exact steady.marked t
  · intro w p here
    have before := steady.inside w p here
    cases p with
    | waits t =>
      exact ⟨by rw [ctl]; exact before.1, by rw [suspended]; exact before.2.1,
        awaitable before.2.2⟩
    | blocks t =>
      exact ⟨by rw [ctl]; exact before.1, by rw [suspended]; exact before.2.1,
        awaitable before.2.2.1, by rw [waiting, id]; exact before.2.2.2⟩
    | records code => exact ⟨curr.trans before.1, by rw [ctl]; exact before.2⟩
    | wakes => exact ⟨curr.trans before.1, by rw [ctl]; exact before.2⟩
    | leaves => exact ⟨curr.trans before.1, by rw [ctl]; exact before.2⟩
    | switches => exact ⟨curr.trans before.1, by rw [ctl]; exact before.2⟩
  · intro t u
    rw [ctl, id, id]
    exact steady.distinct t u
  · intro w mem
    rw [suspended] at mem
    obtain ⟨t, can, same⟩ := steady.blocked w mem
    exact ⟨t, awaitable can, by rw [waiting, id]; exact same⟩

/-- What Steady says of waiting tasks, seen in the view; nobody is inside task_exit. -/
structure Held (v : TaskView N) (point : Tcb N → Option (Partway N)) : Prop where
  blocked : ∀ w ∈ v.suspended, ∃ t, Alive (v.point t) ∧ v.waitingTask w = v.id t
  waits : ∀ w t, point w = some (.waits t) →
    v.point w = .awaits t ∧ w ∉ v.suspended ∧ Alive (v.point t)
  blocks : ∀ w t, point w = some (.blocks t) →
    v.point w = .awaits t ∧ w ∉ v.suspended ∧ Alive (v.point t) ∧ v.waitingTask w = v.id t

omit [DecidableEq N] [Fintype N] in
theorem alive_ctl (c : Ctl N) : Alive (waitPoint c) ↔ c ≠ .unborn ∧ c ≠ .terminated := by
  rw [Alive, ne_eq, ne_eq, unborn_iff, ended_iff]

theorem steady_held (steady : Steady s point runner) : Held (taskView s) point := by
  refine ⟨fun w mem => ?_, fun w t here => ?_, fun w t here => ?_⟩
  · obtain ⟨t, can, same⟩ := steady.blocked w mem
    exact ⟨t, (alive_ctl _).mpr ⟨can.born, can.going⟩, same⟩
  · obtain ⟨there, out, can⟩ := steady.inside w _ here
    exact ⟨(awaits_iff _ _).mpr there, out, (alive_ctl _).mpr ⟨can.born, can.going⟩⟩
  · obtain ⟨there, out, can, same⟩ := steady.inside w _ here
    exact ⟨(awaits_iff _ _).mpr there, out, (alive_ctl _).mpr ⟨can.born, can.going⟩, same⟩

theorem held_steady (held : Held (taskView s) point) (conserved : Conserved s)
    (marked : Marked s) (distinct : Distinct s) (calm : ∀ t, exiting (point t) = false) :
    Steady s point runner := by
  have can : ∀ {t}, Alive (waitPoint (s.ctl t)) → Awaitable s point t := by
    intro t alive
    refine ⟨((alive_ctl _).mp alive).1, ((alive_ctl _).mp alive).2, fun here => ?_⟩
    have off := calm t
    rw [here] at off
    cases off
  refine ⟨conserved, ?_, ?_, ?_, distinct, ?_⟩
  · intro t
    rw [marked t, calm]
    simp
  · intro t on
    rw [calm] at on
    cases on
  · intro w p here
    have off := calm w
    rw [here] at off
    cases p with
    | waits t =>
      obtain ⟨there, out, alive⟩ := held.waits w t here
      exact ⟨(awaits_iff _ _).mp there, out, can alive⟩
    | blocks t =>
      obtain ⟨there, out, alive, same⟩ := held.blocks w t here
      exact ⟨(awaits_iff _ _).mp there, out, can alive, same⟩
    | _ => cases off
  · intro w mem
    obtain ⟨t, alive, same⟩ := held.blocked w mem
    exact ⟨t, can alive, same⟩

omit [Fintype N] in
theorem held_move {v v' : TaskView N} {me : Tcb N} {e : TaskEvent N} (held : Held v point)
    (move : TaskMove me v e v') (waits : ∀ t, e ≠ .wait t) (exits : ∀ code, e ≠ .exit code)
    (awake : me ∉ v.suspended) (free : ∀ t, e = .finish t → point me = none)
    (suspended : ∀ w ∈ v.suspended, Alive (v.point w)) : Held v' point := by
  cases move with
  | other => exact held
  | tick => exact ⟨held.blocked, held.waits, held.blocks⟩
  | wake => exact ⟨held.blocked, held.waits, held.blocks⟩
  | sleep d => exact ⟨held.blocked, held.waits, held.blocks⟩
  | wait t _ _ => exact absurd rfl (waits t)
  | exit code _ => exact absurd rfl (exits code)
  | finish u here =>
    have still : ∀ {t}, Alive (v.point t) → Alive (Function.update v.point me .active t) := by
      intro t alive
      rw [Function.update_apply]
      split
      · exact ⟨by simp, by simp⟩
      · exact alive
    have other : ∀ {w p}, point w = some p → w ≠ me := by
      rintro w p there rfl
      rw [free u rfl] at there
      cases there
    refine ⟨fun w mem => ?_, fun w t there => ?_, fun w t there => ?_⟩
    · obtain ⟨t, alive, same⟩ := held.blocked w mem
      exact ⟨t, still alive, same⟩
    · obtain ⟨awaits, out, alive⟩ := held.waits w t there
      exact ⟨(Function.update_of_ne (other there) _ _).trans awaits, out, still alive⟩
    · obtain ⟨awaits, out, alive, same⟩ := held.blocks w t there
      exact ⟨(Function.update_of_ne (other there) _ _).trans awaits, out, still alive, same⟩
  | init u id idle =>
    have old : ∀ {t}, Alive (v.point t) → t ≠ u := by
      rintro t alive rfl
      exact idle.elim alive.1 alive.2
    have still : ∀ {t}, Alive (v.point t) → Alive (Function.update v.point u .active t) := by
      intro t alive
      rw [Function.update_of_ne (old alive)]
      exact alive
    have awaiter : ∀ {w t}, v.point w = .awaits t → w ≠ u := by
      intro w t here
      exact old ⟨by rw [here]; simp, by rw [here]; simp⟩
    have same' : ∀ {w t}, w ≠ u → Alive (v.point t) → v.waitingTask w = v.id t →
        Function.update v.waitingTask u (-1) w = Function.update v.id u id t := by
      intro w t other alive same
      rw [Function.update_of_ne other, Function.update_of_ne (old alive)]
      exact same
    refine ⟨fun w mem => ?_, fun w t there => ?_, fun w t there => ?_⟩
    · obtain ⟨t, alive, same⟩ := held.blocked w mem
      exact ⟨t, still alive, same' (old (suspended w mem)) alive same⟩
    · obtain ⟨awaits, out, alive⟩ := held.waits w t there
      exact ⟨(Function.update_of_ne (awaiter awaits) _ _).trans awaits, out, still alive⟩
    · obtain ⟨awaits, out, alive, same⟩ := held.blocks w t there
      exact ⟨(Function.update_of_ne (awaiter awaits) _ _).trans awaits, out, still alive,
        same' (awaiter awaits) alive same⟩

theorem steady_whole (steady : Steady s point s.curr) (calm : ∀ t, exiting (point t) = false)
    (go : Operates s l s') (distinct : Distinct s')
    (free : ∀ m₁ m₂, l = .run m₁ m₂ → point s.curr = none)
    (waits : ∀ t, taskEvent s l ≠ .wait t) (exits : ∀ code, taskEvent s l ≠ .exit code) :
    Steady s' point s'.curr := by
  have marked : Marked s := by
    intro t
    rw [steady.marked t, calm]
    simp
  have placed := steady.conserved.placed
  have outcome := step_outcome steady.conserved marked go
  refine held_steady (held_move (steady_held steady) outcome.move waits exits
    (current_nowhere_else placed (by simp)) (fun t event => ?_) fun w mem => ?_)
    (step_kept steady.conserved go.2 go.1).conserved outcome.marked distinct calm
  · obtain ⟨_, m₁, m₂, here⟩ := label_of event
    exact free m₁ m₂ here
  · exact (live_point _).mp ((placed.queued w).mp ⟨_, mem⟩).1

/-- A statement of task_wait or task_exit by the runner, by what it changes. -/
theorem steady_entry (steady : Steady s point runner) {next : Option (Partway N)}
    {runner' : Tcb N} (conserved : Conserved s')
    (ctl : ∀ t, t ≠ runner → s'.ctl t = s.ctl t)
    (born : s.ctl runner ≠ .unborn)
    (id : ∀ t, (s'.kernel.task t).id = (s.kernel.task t).id)
    (waiting : ∀ w, w ≠ runner → w ∉ tasks s.kernel .suspendedTasks →
      (s'.kernel.task w).waitingTask = (s.kernel.task w).waitingTask)
    (status : ∀ t, t ≠ runner → ((s'.kernel.task t).status = .terminated ↔
      (s.kernel.task t).status = .terminated))
    (mark : (s'.kernel.task runner).status = .terminated ↔
      waitPoint (s'.ctl runner) = .ended ∨ exiting next = true)
    (runs : exiting next = true → runner' = runner)
    (inside : ∀ p, next = some p →
      AtPoint s' (Function.update point runner next) runner' runner p)
    (awaited : Awaitable s point runner →
      Awaitable s' (Function.update point runner next) runner ∨
      ∀ w, point w ≠ some (.waits runner) ∧ point w ≠ some (.blocks runner))
    (blocked : ∀ w ∈ tasks s'.kernel .suspendedTasks,
      w ∈ tasks s.kernel .suspendedTasks ∧
        (s'.kernel.task w).waitingTask = (s.kernel.task w).waitingTask ∧
        (Awaitable s point runner → (s.kernel.task w).waitingTask = (s.kernel.task runner).id →
          Awaitable s' (Function.update point runner next) runner) ∨
      w = runner ∧ ∃ t, Awaitable s' (Function.update point runner next) t ∧
        (s'.kernel.task w).waitingTask = (s'.kernel.task t).id) :
    Steady s' (Function.update point runner next) runner' := by
  have others : ∀ {t}, t ≠ runner → exiting (point t) = false := by
    intro t other
    by_contra on
    exact other (steady.exits t (by simpa using on))
  have can : ∀ {t}, t ≠ runner → Awaitable s point t →
      Awaitable s' (Function.update point runner next) t := by
    intro t other ⟨born', going, unscanned⟩
    refine ⟨by rw [ctl t other]; exact born', by rw [ctl t other]; exact going, ?_⟩
    rw [Function.update_of_ne other]
    exact unscanned
  refine ⟨conserved, ?_, ?_, ?_, ?_, ?_⟩
  · intro t
    by_cases own : t = runner
    · subst own
      rw [Function.update_self]
      exact mark
    · rw [Function.update_of_ne own, status t own, ctl t own]
      exact steady.marked t
  · intro t on
    by_cases own : t = runner
    · subst own
      rw [Function.update_self] at on
      exact (runs on).symm
    · rw [Function.update_of_ne own, others own] at on
      cases on
  · intro w p here
    by_cases own : w = runner
    · subst own
      rw [Function.update_self] at here
      exact inside p here
    · rw [Function.update_of_ne own] at here
      have before := steady.inside w p here
      have quiet := others own
      rw [here] at quiet
      -- whoever is inside task_wait stays there, and its task can still be awaited
      have awake : w ∉ tasks s.kernel .suspendedTasks →
          w ∉ tasks s'.kernel .suspendedTasks := fun out mem =>
        (blocked w mem).elim (fun old => out old.1) fun joined => own joined.1
      have still : ∀ t, p = .waits t ∨ p = .blocks t → Awaitable s point t →
          Awaitable s' (Function.update point runner next) t := by
        intro t which alive
        by_cases target : t = runner
        · subst target
          refine (awaited alive).resolve_right fun none => ?_
          rcases which with rfl | rfl
          · exact (none w).1 here
          · exact (none w).2 here
        · exact can target alive
      cases p with
      | waits t =>
        exact ⟨by rw [ctl w own]; exact before.1, awake before.2.1, still t (Or.inl rfl) before.2.2⟩
      | blocks t =>
        exact ⟨by rw [ctl w own]; exact before.1, awake before.2.1,
          still t (Or.inr rfl) before.2.2.1,
          by rw [waiting w own before.2.1, id]; exact before.2.2.2⟩
      | _ => cases quiet
  · intro t u bornT bornU
    have old : ∀ {v}, s'.ctl v ≠ .unborn → s.ctl v ≠ .unborn := by
      intro v born'
      by_cases own : v = runner
      · rw [own]
        exact born
      · rw [← ctl v own]
        exact born'
    rw [id, id]
    exact steady.distinct t u (old bornT) (old bornU)
  · intro w mem
    rcases blocked w mem with ⟨old, same, stays⟩ | ⟨_, found⟩
    · obtain ⟨t, alive, named⟩ := steady.blocked w old
      refine ⟨t, ?_, by rw [same, id]; exact named⟩
      by_cases target : t = runner
      · subst target
        exact stays alive named
      · exact can target alive
    · exact found

theorem conserved_fields (c : Conserved s) (task : Tcb N → Task) (stdout : List ExitReport)
    (clock : UInt32) (ids : ∀ t, (task t).id = (s.kernel.task t).id)
    (dormant : ∀ t, liveTasks s t = false → (task t).status = (s.kernel.task t).status) :
    Conserved (s.withKernel { s.kernel with
      task := task, stdout := stdout, sysclock := clock }) := by
  have kept : Kept (liveTasks s) [] [] s.kernel { s.kernel with
      task := task, stdout := stdout, sysclock := clock } :=
    kept_fields c.placed rfl rfl (fun _ _ => rfl) ⟨rfl, rfl⟩ ids dormant
  have ok : StepOk .plain s (s.withKernel { s.kernel with
      task := task, stdout := stdout, sysclock := clock }) :=
    same_ctl_ok c kept rfl c.chosen rfl (by simp) (by simp)
      fun d _ => by apply same_data <;> rfl
  exact ok.conserved

theorem current_awake (c : Conserved s) : s.curr ∉ tasks s.kernel .suspendedTasks :=
  current_nowhere_else c.placed (by simp)

section Waits
variable {t : Tcb N} {code : Int}

theorem steady_test (steady : Steady s point s.curr) (calm : ∀ u, exiting (point u) = false)
    (body : s.ctl s.curr = .body code) (born : s.ctl t ≠ .unborn)
    (going : (s.kernel.task t).status ≠ .terminated) :
    Steady (s.goto s.curr (.waitReturn t))
      (Function.update point s.curr (some (.waits t))) s.curr := by
  have c := steady.conserved
  have alive : s.ctl t ≠ .terminated := fun ended =>
    going ((steady.marked t).mpr (Or.inl (ended_iff.mpr ended)))
  have can : ∀ {u}, (u = s.curr ∨ Awaitable s point u) →
      Awaitable (s.goto s.curr (.waitReturn t))
        (Function.update point s.curr (some (.waits t))) u := by
    intro u which
    by_cases own : u = s.curr
    · subst own
      exact ⟨by simp, by simp, by simp⟩
    · obtain ⟨born', going', unscanned⟩ := which.resolve_left own
      refine ⟨?_, ?_, ?_⟩
      · rw [System.goto_ctl, Function.update_of_ne own]; exact born'
      · rw [System.goto_ctl, Function.update_of_ne own]; exact going'
      · rw [Function.update_of_ne own]; exact unscanned
  have unscanned : point t ≠ some .leaves := fun scanned => by
    have off := calm t
    rw [scanned] at off
    cases off
  have ok : StepOk .plain s (s.goto s.curr (.waitReturn t)) :=
    goto_ok c body rfl rfl (Or.inl rfl) (Or.inl rfl)
  refine steady_entry steady ok.conserved (fun u other => Function.update_of_ne other _ _)
    (by rw [body]; simp)
    (fun _ => rfl) (fun _ _ _ => rfl) (fun _ _ => Iff.rfl) ?_ (by simp [exiting]) ?_
    (fun _ => Or.inl (can (Or.inl rfl))) fun w mem => Or.inl ⟨mem, rfl, fun _ _ => can (Or.inl rfl)⟩
  · rw [System.goto_ctl, Function.update_self]
    change (s.kernel.task s.curr).status = _ ↔ _
    rw [steady.marked, body, calm]
    simp [waitPoint, exiting]
  · rintro p same
    cases same
    exact ⟨Function.update_self _ _ _, current_awake (s := s) c,
      can (Or.inr ⟨born, alive, unscanned⟩)⟩

end Waits

def assigned (s : System N) (d : Task) (stdout : List ExitReport) : System N :=
  s.withKernel { s.kernel with task := Function.update s.kernel.task s.curr d, stdout := stdout }

theorem steady_assign (steady : Steady s point s.curr) {next : Option (Partway N)} {d : Task}
    (stdout : List ExitReport) (id : d.id = (s.kernel.task s.curr).id)
    (mark : d.status = .terminated ↔ exiting next = true) (unscanned : next ≠ some .leaves)
    (inside : ∀ p, next = some p →
      (∀ u, Awaitable s point u →
        Awaitable (assigned s d stdout) (Function.update point s.curr next) u) →
      AtPoint (assigned s d stdout) (Function.update point s.curr next) s.curr s.curr p) :
    Steady (assigned s d stdout) (Function.update point s.curr next) s.curr := by
  have c := steady.conserved
  have alive : live (s.ctl s.curr) = true := current_live c.placed
  have same : ∀ {u}, u ≠ s.curr → (assigned s d stdout).kernel.task u = s.kernel.task u :=
    fun other => Function.update_of_ne other _ _
  have own : (assigned s d stdout).kernel.task s.curr = d := Function.update_self _ _ _
  have still : ∀ u, Awaitable s point u →
      Awaitable (assigned s d stdout) (Function.update point s.curr next) u := by
    intro u ⟨born, going, before⟩
    refine ⟨born, going, ?_⟩
    rw [Function.update_apply]
    split
    · exact unscanned
    · exact before
  have ids : ∀ u, ((assigned s d stdout).kernel.task u).id = (s.kernel.task u).id := by
    intro u
    by_cases mine : u = s.curr
    · rw [mine, own, id]
    · rw [same mine]
  refine steady_entry steady (conserved_fields c _ _ _ ids fun u off => ?_) (fun _ _ => rfl) ?_
    ids (fun w other _ => by rw [same other]) (fun u other => by rw [same other]) ?_ (fun _ => rfl)
    (fun p here => inside p here still) (fun can => Or.inl (still _ can)) fun w mem => ?_
  · have other : u ≠ s.curr := by
      rintro rfl
      rw [liveTasks, alive] at off
      cases off
    exact congrArg Task.status (same other)
  · intro unborn
    rw [unborn] at alive
    cases alive
  · rw [own, mark]
    have going : waitPoint (s.ctl s.curr) ≠ .ended := live_not_ended alive
    exact ⟨Or.inr, fun either => either.resolve_left going⟩
  · have other : w ≠ s.curr := by
      rintro rfl
      exact current_awake c mem
    exact Or.inl ⟨mem, by rw [same other], fun can _ => still _ can⟩

section Assignments
variable {t : Tcb N} {code exitCode : Int}

theorem steady_waits (steady : Steady s point s.curr) (here : point s.curr = some (.waits t)) :
    Steady (assigned s { s.kernel.task s.curr with waitingTask := (s.kernel.task t).id }
        s.kernel.stdout) (Function.update point s.curr (some (.blocks t))) s.curr := by
  obtain ⟨there, out, can⟩ := steady.inside _ _ here
  have going := steady.marked s.curr
  rw [there, here] at going
  refine steady_assign steady _ rfl (by simpa [exiting, waitPoint] using going) (by simp) ?_
  rintro p same still
  cases same
  refine ⟨there, out, still t can, ?_⟩
  by_cases own : t = s.curr
  · subst own
    simp [assigned]
  · simp [assigned, own]

theorem steady_mark (steady : Steady s point s.curr) (body : s.ctl s.curr = .body code) :
    Steady (assigned s { s.kernel.task s.curr with status := .terminated } s.kernel.stdout)
      (Function.update point s.curr (some (.records exitCode))) s.curr := by
  refine steady_assign steady _ rfl (by simp [exiting]) (by simp) ?_
  rintro p same _
  cases same
  exact ⟨rfl, code, body⟩

theorem steady_records (steady : Steady s point s.curr)
    (here : point s.curr = some (.records exitCode)) (stdout : List ExitReport) {d : Task}
    (id : d.id = (s.kernel.task s.curr).id) (status : d.status = (s.kernel.task s.curr).status) :
    Steady (assigned s d stdout) (Function.update point s.curr (some .wakes)) s.curr := by
  have mark := steady.marked s.curr
  rw [here] at mark
  refine steady_assign steady stdout id ?_ (by simp) ?_
  · rw [status, mark]
    simp [exiting]
  · rintro p same _
    cases same
    exact steady.inside _ _ here

end Assignments

section Moves
variable {t : Tcb N} {code : Int} {k : Kernel N}

theorem steady_blocks (steady : Steady s point s.curr) (here : point s.curr = some (.blocks t))
    (run : taskSuspend s.kernel (some .suspendedTasks) = .ok k) :
    Steady (s.withKernel k) (Function.update point s.curr none) k.curr := by
  have c := steady.conserved
  obtain ⟨there, out, can, named⟩ := steady.inside _ _ here
  have user := not_dispatcher c (t := s.curr) (by rw [there]; simp [role])
  obtain ⟨m, known, lists, kept⟩ := suspend_kept c.placed user .suspendedTasks
  cases known.symm.trans run
  have fields := givenUp_fields s.kernel m
  have still : ∀ {u}, Awaitable s point u →
      Awaitable (s.withKernel (givenUp s.kernel m)) (Function.update point s.curr none) u := by
    rintro u ⟨born, going, unscanned⟩
    refine ⟨born, going, ?_⟩
    rw [Function.update_apply]
    split
    · simp
    · exact unscanned
  have ok : StepOk .plain s (s.withKernel (givenUp s.kernel m)) :=
    same_ctl_ok c kept rfl (fun start next picked => absurd (c.chosen start next picked).1 user) rfl
      (by simp [queueClient]) (by simp) fun d _ => by apply same_data <;> rfl
  refine steady_entry steady ok.conserved (fun _ _ => rfl) (by rw [there]; simp)
    (fun u => (fields u).1) (fun w _ _ => (fields w).2.1) ?_ ?_ (by simp [exiting])
    (fun p impossible => by cases impossible) (fun can => Or.inl (still can)) ?_
  · intro u other
    have other' : u ≠ s.kernel.curr := other
    by_cases dispatcher : u = .dispatcherTask
    · subst dispatcher
      have alive := live_not_ended c.placed.dispatcher
      have quiet : exiting (point .dispatcherTask) = false := by
        by_contra on
        exact other (steady.exits _ (by simpa using on))
      have going := steady.marked .dispatcherTask
      rw [quiet] at going
      have before : (s.kernel.task .dispatcherTask).status ≠ .terminated :=
        fun ended => alive ((going.mp ended).resolve_right (by simp))
      simp [givenUp, withStatus, before]
    · simp [givenUp, withStatus, dispatcher, other']
  · change ((givenUp s.kernel m).task s.kernel.curr).status = _ ↔ waitPoint (s.ctl s.curr) = _ ∨ _
    have user' : s.kernel.curr ≠ .dispatcherTask := user
    rw [there]
    simp [givenUp, withStatus, user', waitPoint, exiting]
  · intro w mem
    have mem' : w ∈ elems m .suspendedTasks := mem
    rw [lists, moveTask_target _ (by simp)] at mem'
    rcases List.mem_append.mp mem' with old | new
    · exact Or.inl ⟨old, (fields w).2.1, fun can _ => still can⟩
    · obtain rfl := List.mem_singleton.mp new
      exact Or.inr ⟨rfl, t, still can, by
        rw [show ((s.withKernel (givenUp s.kernel m)).kernel.task _).waitingTask = _ from
          (fields _).2.1, show ((s.withKernel (givenUp s.kernel m)).kernel.task t).id = _ from
          (fields t).1]
        exact named⟩

/-- The loop of task_exit; nobody is about to wait for the task that ends. -/
theorem steady_wakes (steady : Steady s point s.curr) (here : point s.curr = some .wakes)
    (alone : ∀ w, point w ≠ some (.waits s.curr) ∧ point w ≠ some (.blocks s.curr))
    (run : resumeWhere s.kernel .suspendedTasks
      (fun d => d.waitingTask = (s.kernel.task s.kernel.curr).id)
      (fun d => { d with waitingTask := -1 }) = .ok k) :
    Steady (s.withKernel k) (Function.update point s.curr (some .leaves)) s.curr ∧
      k.curr = s.curr := by
  have c := steady.conserved
  obtain ⟨_, code, body⟩ := steady.inside _ _ here
  have user := not_dispatcher c (t := s.curr) (by rw [body]; simp [role])
  obtain ⟨m, resumed, lists, kept⟩ := resumeWhere_kept c.placed (q := .suspendedTasks) (by decide)
    (fun d => d.waitingTask = (s.kernel.task s.kernel.curr).id)
    (fun d => { d with waitingTask := -1 }) fun _ => rfl
  cases resumed.symm.trans run
  have each := resumed_fields s.kernel (fun d => d.waitingTask = (s.kernel.task s.kernel.curr).id)
    (fun d => { d with waitingTask := -1 }) (tasks s.kernel .suspendedTasks)
  have ok : StepOk .plain s (s.withKernel { s.kernel with
      queues := m, task := resumedTasks s.kernel
        (fun d => d.waitingTask = (s.kernel.task s.kernel.curr).id)
        (fun d => { d with waitingTask := -1 }) (tasks s.kernel .suspendedTasks) }) :=
    same_ctl_ok c kept rfl
    (fun start next picked => absurd (c.chosen start next picked).1 user) rfl
    (by simp [queueClient]) (by simp) fun d _ => by apply same_data <;> rfl
  have awake : s.curr ∉ tasks s.kernel .suspendedTasks := current_awake c
  refine ⟨?_, rfl⟩
  refine steady_entry steady ok.conserved (fun _ _ => rfl) (by rw [body]; simp) (fun u => ?_)
    (fun w _ out => ?_) (fun u other => ?_) ?_ (fun _ => rfl) ?_ (fun _ => Or.inr alone) ?_
  · change (resumedTasks _ _ _ _ u).id = _
    rcases each u with ⟨stays, _⟩ | ⟨moved, _⟩
    · rw [stays]
    · rw [moved]
  · change (resumedTasks _ _ _ _ w).waitingTask = _
    rcases each w with ⟨stays, _⟩ | ⟨_, mem, _⟩
    · rw [stays]
    · exact absurd mem out
  · change (resumedTasks _ _ _ _ u).status = _ ↔ _
    rcases each u with ⟨stays, _⟩ | ⟨moved, mem, _⟩
    · rw [stays]
    · have alive := live_not_ended ((c.placed.queued u).mp ⟨_, mem⟩).1
      have quiet : exiting (point u) = false := by
        by_contra on
        exact other (steady.exits u (by simpa using on))
      rw [moved, steady.marked u, quiet]
      simp [alive]
  · change (resumedTasks _ _ _ _ s.curr).status = _ ↔ _
    rcases each s.curr with ⟨stays, _⟩ | ⟨_, mem, _⟩
    · rw [stays, steady.marked, here]
      simp [exiting]
    · exact absurd mem awake
  · rintro p same
    cases same
    exact ⟨rfl, code, body⟩
  · intro w mem
    have mem' : w ∈ elems m .suspendedTasks := mem
    rw [lists, resumeLists_source _ _ _ (by simp), List.append_nil] at mem'
    obtain ⟨old, stays⟩ := List.mem_filter.mp mem'
    have different : (s.kernel.task w).waitingTask ≠ (s.kernel.task s.curr).id := by
      simpa [System.curr] using stays
    refine Or.inl ⟨old, ?_, fun _ named => absurd named different⟩
    change (resumedTasks _ _ _ _ w).waitingTask = _
    rcases each w with ⟨same, _⟩ | ⟨_, _, yes⟩
    · rw [same]
    · exact absurd (by simpa [System.curr] using yes) different

/-- queue_remove(&ready_tasks, prev); what is left to do is already counted. -/
theorem steady_leaves (steady : Steady s point s.curr) (here : point s.curr = some .leaves)
    {m : Queues TaskQueue (Tcb N)} {r : Int}
    (run : queueRemove s.kernel.queues (some .readyTasks) (some s.kernel.curr) = .ok (m, r)) :
    Steady (departed (s.withKernel { s.kernel with queues := m }))
      (Function.update point s.curr (some .switches)) s.curr := by
  have c := steady.conserved
  obtain ⟨_, code, body⟩ := steady.inside _ _ here
  have user := not_dispatcher c (t := s.curr) (by rw [body]; simp [role])
  obtain ⟨m', r', removed, lists, moved⟩ := removal_moved c.placed user
    (toInt (s.kernel.userTasksNum - 1))
  cases removed.symm.trans run
  have ok := departure_ok c body rfl moved (by simp)
  have scanned : ¬ Awaitable s point s.curr := fun can => can.unscanned here
  have suspended : elems m .suspendedTasks = tasks s.kernel .suspendedTasks := by
    rw [lists, listRemove_other _ _ (by simp)]
  refine steady_entry steady ok.conserved (fun u other => Function.update_of_ne other _ _)
    (by rw [body]; simp) (fun _ => rfl) (fun _ _ _ => rfl) (fun _ _ => Iff.rfl) ?_ (fun _ => rfl) ?_
    (fun can => absurd can scanned) fun w mem => ?_
  · change (s.kernel.task s.curr).status = _ ↔ _
    rw [steady.marked, here]
    simp [exiting]
  · rintro p same
    cases same
    exact ⟨rfl, Function.update_self _ _ _⟩
  · have old : w ∈ elems m .suspendedTasks := mem
    rw [suspended] at old
    exact Or.inl ⟨old, rfl, fun can => absurd can scanned⟩

theorem steady_switches (steady : Steady s point runner) (here : point runner = some .switches) :
    Steady s (Function.update point runner none) s.curr := by
  obtain ⟨_, ended⟩ := steady.inside _ _ here
  have gone : ¬ Awaitable s point runner := fun can => can.going ended
  refine steady_entry steady steady.conserved (fun _ _ => rfl) (by rw [ended]; simp) (fun _ => rfl)
    (fun _ _ _ => rfl) (fun _ _ => Iff.rfl) ?_ (by simp [exiting])
    (fun p impossible => by cases impossible) (fun can => absurd can gone)
    fun w mem => Or.inl ⟨mem, rfl, fun can => absurd can gone⟩
  rw [steady.marked, ended]
  simp [waitPoint]

end Moves

section Interrupts
variable {k k' : Kernel N} {a b : Split N}

omit [Fintype N] in
theorem settled_of_ne (other : a.point a.system.curr ≠ some .switches) : settled a = a.system :=
  if_neg other

omit [Fintype N] in
theorem settled_departed (here : a.point a.system.curr = some .switches) :
    settled a = departed a.system := if_pos here

omit [Fintype N] in
theorem tick_counts (still : ¬ Expires s) (run : interruptionHandler s.kernel = .ok k) :
    k = { s.kernel with
      sysclock := s.kernel.sysclock + 1
      task := Function.update s.kernel.task s.curr { s.kernel.task s.curr with
        quantum := toInt ((s.kernel.task s.curr).quantum + 1) } } := by
  simp only [interruptionHandler] at run
  split at run
  · rename_i limit
    refine absurd ?_ still
    rw [Expires, ← limit]
    simp [Kernel.setTask, System.curr]
  · cases run
    rfl

theorem resume_fields {t : Tcb N} {q : TaskQueue}
    (run : taskResume k (some t) (some q) = .ok k') :
    k' = { k with queues := k'.queues, task := withStatus k.task t .ready } := by
  simp only [taskResume, bind, Except.bind] at run
  split at run
  · cases run
  · split at run
    · cases run
    · cases run
      rfl

theorem resume_departed {t : Tcb N} {q : TaskQueue} (num : Int) (curr : Tcb N)
    (run : taskResume k (some t) (some q) = .ok k') :
    taskResume { k with userTasksNum := num, curr := curr } (some t) (some q) =
      .ok { k' with userTasksNum := num, curr := curr } := by
  simp only [taskResume, bind, Except.bind] at run ⊢
  split at run
  · cases run
  · rename_i removed found
    simp only [Kernel.setStatus, Kernel.setTask] at run ⊢
    split at run
    · cases run
    · rename_i appended found'
      cases run
      rfl

theorem sighandle_departed {op : Operation} (run : diskSighandle s op = .ok s') :
    diskSighandle (departed s) op = .ok (departed s') ∧ s'.curr = s.curr := by
  cases op with
  | read | write =>
    simp only [diskSighandle] at run ⊢
    split at run
    · cases run
    · rename_i on
      obtain ⟨k, resumed, rfl⟩ := map_ok run
      have fields := resume_fields resumed
      refine ⟨?_, by rw [fields]; rfl⟩
      have here := resume_departed (toInt (s.kernel.userTasksNum - 1)) .dispatcherTask resumed
      refine (if_neg on).trans ((congrArg (Except.map _) here).trans ?_)
      rw [fields]
      rfl

theorem sighandle_fields {op : Operation} (run : diskSighandle s op = .ok s') :
    s.disk.handler = true ∧ s'.ctl = s.ctl ∧ s'.curr = s.curr ∧
      s'.kernel.task = withStatus s.kernel.task .diskDriverTask .ready := by
  obtain ⟨on, resumed, ctl, -⟩ := sighandle_returns run
  have fields := resume_fields resumed
  have curr : s'.kernel.curr = s.kernel.curr := by rw [fields]
  have task : s'.kernel.task = withStatus s.kernel.task .diskDriverTask .ready := by rw [fields]
  exact ⟨on, ctl, curr, task⟩

theorem steady_completion (steady : Steady s point runner) {op : Operation}
    (run : diskSighandle s op = .ok s') : Steady s' point runner := by
  have c := steady.conserved
  obtain ⟨on, ctl, curr, task⟩ := sighandle_fields run
  have calm := (quiet_sighandle c run).calm
  have alive := c.handler on
  -- the driver is in its own loop, so it does not exit
  have quiet : exiting (point .diskDriverTask) = false := by
    cases here : point .diskDriverTask with
    | none => rfl
    | some p =>
      have inside := steady.inside _ _ here
      have own := c.driverOnly
      cases p with
      | waits t => rfl
      | blocks t => rfl
      | switches => rw [inside.2] at alive; cases alive
      | _ =>
        obtain ⟨_, code, body⟩ := inside
        rw [body] at own
        rcases own with own | own <;> cases own
  refine steady_still steady (diskSighandle_ok c run).conserved ctl curr (fun t => ?_) calm.id
    calm.waiting calm.suspended
  rw [task]
  by_cases driver : t = .diskDriverTask
  · subst driver
    rw [steady.marked, quiet]
    simp [withStatus, live_not_ended alive]
  · simp [withStatus, driver]

theorem steady_tick (steady : Steady s point runner) (clock : UInt32) (t : Tcb N) (quantum : Int) :
    Steady (s.withKernel { s.kernel with
      task := Function.update s.kernel.task t { s.kernel.task t with quantum := quantum }
      stdout := s.kernel.stdout
      sysclock := clock }) point runner := by
  have field : ∀ u, (Function.update s.kernel.task t { s.kernel.task t with quantum := quantum }
      u).id = (s.kernel.task u).id ∧
      (Function.update s.kernel.task t { s.kernel.task t with quantum := quantum } u).status =
        (s.kernel.task u).status ∧
      (Function.update s.kernel.task t { s.kernel.task t with quantum := quantum }
        u).waitingTask = (s.kernel.task u).waitingTask := by
    intro u
    by_cases own : u = t
    · subst own
      simp
    · simp [own]
  exact steady_still steady (conserved_fields steady.conserved _ _ _ (fun u => (field u).1)
    fun u _ => (field u).2.1) rfl rfl (fun u => iff_of_eq (congrArg (· = _) (field u).2.1))
    (fun u => (field u).1) (fun u => (field u).2.2) rfl

end Interrupts

section Runs
variable {a b : Split N}

def Settled (a : Split N) : Prop := Steady (settled a) a.point a.system.curr

theorem settled_last (here : a.point a.system.curr = some .switches)
    (steady : Steady (departed a.system) a.point a.system.curr) : Settled a := by
  rw [Settled, settled_departed here]
  exact steady

theorem settled_before (other : a.point a.system.curr ≠ some .switches)
    (steady : Steady a.system a.point a.system.curr) : Settled a := by
  rw [Settled, settled_of_ne other]
  exact steady

omit [Fintype N] in
theorem settled_quiet (calm : ∀ t, exiting (a.point t) = false) : settled a = a.system := by
  refine settled_of_ne fun here => ?_
  have off := calm a.system.curr
  rw [here] at off
  cases off

theorem settled_goto {s : System N} {next : Option (Partway N)} (curr : s.curr = a.system.curr)
    (other : next ≠ some .switches)
    (steady : Steady s (Function.update a.point a.system.curr next) a.system.curr) :
    Settled (a.goto s next) := by
  refine settled_before ?_ ?_
  · change Function.update a.point a.system.curr next s.curr ≠ _
    rw [curr, Function.update_self]
    exact other
  · change Steady s _ s.curr
    rw [curr]
    exact steady

theorem nobody_exits (inv : Settled a) (off : exiting (a.point a.system.curr) = false)
    (t : Tcb N) : exiting (a.point t) = false := by
  by_contra on
  have runner := inv.exits t (by simpa using on)
  rw [runner, off] at on
  exact on rfl

theorem settled_calm (inv : Settled a) (go : Unraced a l b)
    (off : exiting (a.point a.system.curr) = false) : Settled b := by
  obtain ⟨⟨run, permitted, knows⟩, _, _, distinct⟩ := go
  have calm := nobody_exits inv off
  rw [Settled, settled_quiet calm] at inv
  -- after a statement of task_wait nobody is inside task_exit either
  have back : ∀ {s : System N} {p : Option (Partway N)}, exiting p = false →
      Steady s (Function.update a.point a.system.curr p) s.curr → Settled (a.goto s p) := by
    intro s p off' next
    have calm' : ∀ t, exiting ((a.goto s p).point t) = false := by
      intro t
      simp only [Split.goto, Function.update_apply]
      split
      · exact off'
      · exact calm t
    rw [Settled, settled_quiet calm']
    exact next
  cases splitStep_moves run with
  | whole s' went outside waits exits =>
    have next := steady_whole inv calm ⟨went, permitted⟩ distinct
      (fun m₁ m₂ same => (outside.resolve_left (by simp [same])).resolve_left (by simp [same]))
      waits exits
    rw [Settled, settled_quiet (a := ⟨s', a.point⟩) calm]
    exact next
  | tests t code body going _ same =>
    subst same
    exact back rfl (steady_test inv calm body knows going)
  | marks exitCode code body => exact settled_goto rfl (by simp) (steady_mark inv body)
  | next p here ran =>
    rw [here] at off
    cases p with
    | waits t =>
      cases ran
      exact back rfl (steady_waits inv here)
    | blocks t =>
      obtain ⟨k, suspended, rfl⟩ := map_ok ran
      exact back rfl (steady_blocks inv here suspended)
    | _ => cases off

theorem settled_interrupt (inv : Settled a) {s' : System N}
    (went : step a.system l = some (.ok s')) (whole : ExitsWhole a l)
    (interrupt : l = .tick ∨ l = .completion) (on : exiting (a.point a.system.curr) = true) :
    Settled ⟨s', a.point⟩ := by
  rcases interrupt with rfl | rfl
  · obtain ⟨k, handled, rfl⟩ := map_ok (Option.some.inj went)
    have counts := tick_counts (whole on) handled
    subst counts
    by_cases last : a.point a.system.curr = some .switches
    · rw [Settled, settled_departed last] at inv
      exact settled_last last (steady_tick inv _ _ _)
    · rw [Settled, settled_of_ne last] at inv
      exact settled_before last (steady_tick inv _ _ _)
  · obtain ⟨op, handled⟩ := completion_runs went
    have curr := (sighandle_fields handled).2.2.1
    by_cases last : a.point a.system.curr = some .switches
    · rw [Settled, settled_departed last] at inv
      have next := steady_completion inv (sighandle_departed handled).1
      exact settled_last (curr.symm ▸ last) (curr.symm ▸ next)
    · rw [Settled, settled_of_ne last] at inv
      have next := steady_completion inv handled
      exact settled_before (curr.symm ▸ last) (curr.symm ▸ next)

theorem records_assigned (a : Split N) (exitCode : Int) : ∃ d stdout,
    d.id = (a.system.kernel.task a.system.curr).id ∧
    d.status = (a.system.kernel.task a.system.curr).status ∧
    partwayStep a (.records exitCode) =
      .ok (a.goto (assigned a.system d stdout) (some .wakes)) := by
  let k := a.system.kernel
  let d := k.task k.curr
  let time := systime k - d.executionTime
  refine ⟨{ d with executionTime := time, exitCode := exitCode },
    k.stdout ++ [⟨d.id, time, d.processorTime, d.activations⟩], rfl, rfl, ?_⟩
  simp only [partwayStep, Kernel.setTask, Function.update_self, Function.update_idem]
  rfl

theorem settled_exit (inv : Settled a) (go : Unraced a l b)
    (on : exiting (a.point a.system.curr) = true) : Settled b := by
  obtain ⟨⟨run, _, _⟩, whole, alone, _⟩ := go
  have busy : a.point a.system.curr ≠ none := fun none => by
    rw [none] at on
    cases on
  cases splitStep_moves run with
  | whole s' went outside _ _ =>
    have interrupt : l = .tick ∨ l = .completion := by
      rcases outside with tick | completion | none
      · exact Or.inl tick
      · exact Or.inr completion
      · exact absurd none busy
    exact settled_interrupt inv went whole interrupt on
  | tests t code _ _ none => exact absurd none busy
  | marks exitCode code _ none => exact absurd none busy
  | next p here ran m₁ m₂ same =>
    subst same
    by_cases last : p = .switches
    · subst last
      cases ran
      rw [Settled, settled_departed here] at inv
      have outside : Function.update a.point a.system.curr none .dispatcherTask ≠
          some .switches := by
        rw [Function.update_apply]
        split
        · simp
        · rename_i other
          intro there
          exact other (inv.exits _ (by rw [there]; rfl))
      exact settled_before outside (steady_switches inv here)
    · rw [Settled, settled_of_ne (by rw [here]; simpa using last)] at inv
      cases p with
      | waits t => rw [here] at on; cases on
      | blocks t => rw [here] at on; cases on
      | switches => exact absurd rfl last
      | records exitCode =>
        obtain ⟨d, stdout, id, status, recorded⟩ := records_assigned a exitCode
        cases recorded.symm.trans ran
        exact settled_goto rfl (by simp) (steady_records inv here stdout id status)
      | wakes =>
        obtain ⟨k, woken, rfl⟩ := map_ok ran
        obtain ⟨next, curr⟩ := steady_wakes inv here (alone here) woken
        exact settled_goto curr (by simp) next
      | leaves =>
        simp only [partwayStep] at ran
        split at ran
        · cases ran
        · obtain ⟨⟨m, r⟩, removed, rfl⟩ := map_ok ran
          exact settled_last (Function.update_self _ _ _) (steady_leaves inv here removed)

theorem settled_step (inv : Settled a) (go : Unraced a l b) : Settled b := by
  cases on : exiting (a.point a.system.curr) with
  | false => exact settled_calm inv go on
  | true => exact settled_exit inv go on

theorem settled_boot (boot : Booted a.system) (outside : ∀ t, a.point t = none) : Settled a := by
  have calm : ∀ t, exiting (a.point t) = false := by
    intro t
    rw [outside]
    rfl
  rw [Settled, settled_quiet calm]
  have born : ∀ t, a.system.ctl t ≠ .unborn → live (a.system.ctl t) = true := by
    intro t here
    refine (boot_live boot t).mpr ?_
    cases t with
    | mainTask => exact Or.inl rfl
    | dispatcherTask => exact Or.inr rfl
    | diskDriverTask => exact absurd boot.driver here
    | user n => exact absurd (boot.user n) here
  have waiting := boot_waiting boot
  refine held_steady ⟨fun w mem => ?_, ?_, ?_⟩ waiting.sound.conserved waiting.sound.marked
    (fun t u bornT bornU same => waiting.distinct t u (born t bornT) (born u bornU) same) calm
  · obtain ⟨t, _, alive, named⟩ := waiting.blocked w mem
    exact ⟨t, alive, named⟩
  · intro w t here
    rw [outside] at here
    cases here
  · intro w t here
    rw [outside] at here
    cases here

variable {t : Tcb N}

theorem settled_rests (inv : Settled a) (left : a.system.ctl t = .terminated) : Rests t a := by
  obtain ⟨task, ids, ended⟩ : (settled a).kernel.task = a.system.kernel.task ∧
      tasks (settled a).kernel .suspendedTasks = tasks a.system.kernel .suspendedTasks ∧
      (settled a).ctl t = .terminated := by
    by_cases last : a.point a.system.curr = some .switches
    · rw [settled_departed last]
      refine ⟨rfl, rfl, ?_⟩
      simp only [departed, System.goto_ctl, Function.update_apply]
      split
      · rfl
      · exact left
    · rw [settled_of_ne last]
      exact ⟨rfl, rfl, left⟩
  refine ⟨left, ?_, fun w mem named => ?_⟩
  · rw [← task]
    exact (inv.marked t).mpr (Or.inl (ended_iff.mpr ended))
  · rw [← ids] at mem
    obtain ⟨u, can, same⟩ := inv.blocked w mem
    rw [task, named] at same
    rw [← task] at same
    have own := inv.distinct t u (by rw [ended]; simp) can.born same
    rw [own] at ended
    exact can.going ended

theorem left_step (inv : Settled a) (go : Unraced a l b) (spares : Spares t l)
    (left : a.system.ctl t = .terminated) : b.system.ctl t = .terminated := by
  obtain ⟨⟨run, permitted, _⟩, _⟩ := go
  cases splitStep_moves run with
  | whole s' went outside _ _ =>
    by_cases off : exiting (a.point a.system.curr) = false
    · have calm := nobody_exits inv off
      rw [Settled, settled_quiet calm] at inv
      have marked : Marked a.system := by
        intro u
        rw [inv.marked u, calm]
        simp
      exact ended_iff.mp (ended_stays ⟨inv.conserved, marked⟩ ⟨went, permitted⟩ spares
        (ended_iff.mpr left))
    · rcases outside with rfl | rfl | none
      · obtain ⟨k, _, rfl⟩ := map_ok (Option.some.inj went)
        exact left
      · obtain ⟨op, handled⟩ := completion_runs went
        rw [(sighandle_fields handled).2.1]
        exact left
      · rw [none] at off
        exact absurd rfl off
  | tests u code body _ =>
    have other : t ≠ a.system.curr := by
      rintro rfl
      rw [body] at left
      cases left
    exact (Function.update_of_ne other _ _).trans left
  | marks exitCode code _ => exact left
  | next p here ran =>
    cases p with
    | waits u =>
      cases ran
      exact left
    | blocks u =>
      obtain ⟨k, _, rfl⟩ := map_ok ran
      exact left
    | records exitCode =>
      cases ran
      exact left
    | wakes =>
      obtain ⟨k, _, rfl⟩ := map_ok ran
      exact left
    | leaves =>
      simp only [partwayStep] at ran
      split at ran
      · cases ran
      · obtain ⟨_, _, rfl⟩ := map_ok ran
        exact left
    | switches =>
      cases ran
      change Function.update a.system.ctl a.system.curr .terminated t = _
      rw [Function.update_apply]
      split
      · rfl
      · exact left

theorem ended_tasks_rest (a b c : Split N) (labels more : List (Label N)) (t : Tcb N)
    (boot : Booted a.system) (outside : ∀ u, a.point u = none) (run : Run Unraced a labels b)
    (left : b.system.ctl t = .terminated)
    (later : Run (fun a l b => Unraced a l b ∧ Spares t l) b more c) : Rests t c := by
  have inv : Settled b := run_invariant Settled (fun _ _ _ inv go => settled_step inv go) run
    (settled_boot boot outside)
  have last : Settled c ∧ c.system.ctl t = .terminated :=
    run_invariant (fun a => Settled a ∧ a.system.ctl t = .terminated)
      (fun _ _ _ ⟨inv, left⟩ ⟨go, spares⟩ => ⟨settled_step inv go, left_step inv go spares left⟩)
      later ⟨inv, left⟩
  exact settled_rests last.1 last.2

end Runs

end Steady

section Examples

instance (s : System N) : Decidable (Distinct s) :=
  inferInstanceAs (Decidable (∀ _ _, _))

instance (a : Split N) (l : Label N) : Decidable (Knows a l) := by
  unfold Knows
  rcases l with _ | _ | c | _ <;> try infer_instance
  rcases c with _ | _ <;> try infer_instance
  case taskWait o => rcases o with _ | _ <;> infer_instance

instance (a : Split N) (l : Label N) : Decidable (ExitsWhole a l) := by
  unfold ExitsWhole Expires
  rcases l with _ | _ | _ | _ <;> infer_instance

instance (a : Split N) (l : Label N) : Decidable (ScansAlone a l) := by
  unfold ScansAlone
  rcases l with _ | _ | _ | _ <;> infer_instance

def splitNext (a : Split N) (l : Label N) : Option (Split N) :=
  match splitStep a l with
  | some (.ok b) => some b
  | _ => none

theorem splitNext_eq {a b : Split N} {l : Label N} (next : splitNext a l = some b) :
    splitStep a l = some (.ok b) := by
  unfold splitNext at next
  split at next
  · rename_i reached
    rw [← Option.some.inj next]
    exact reached
  · cases next

abbrev legal (a : Split N) (l : Label N) (b : Split N) : Prop :=
  (Permitted a.system l ∧ Knows a l) ∧ Distinct b.system

abbrev unraced (a : Split N) (l : Label N) (b : Split N) : Prop :=
  legal a l b ∧ ExitsWhole a l ∧ ScansAlone a l

theorem unraced_step {a b : Split N} {l : Label N} (next : splitNext a l = some b)
    (allowed : unraced a l b) : Unraced a l b :=
  ⟨⟨splitNext_eq next, allowed.1.1⟩, allowed.2.1, allowed.2.2, allowed.1.2⟩

def bootSplit : Split (Fin 1) := ⟨bootSystem, fun _ => none⟩

/-- main waits for a task, which is not interrupted in task_exit. -/
def awaitedExit : List (Label (Fin 1)) :=
  [Label.call (.taskInit (.user 0) true), .call (.taskWait (some (.user 0)))] ++
  List.replicate 6 (Label.run true true) ++ [Label.call (.taskExit 7)] ++
  List.replicate 4 (Label.run true true)

theorem awaited_task_rests : ∃ b c : Split (Fin 1), Run Unraced bootSplit awaitedExit b ∧
    b.system.ctl (.user 0) = .terminated ∧
    Run (fun a l b => Unraced a l b ∧ Spares (.user 0) l) b (List.replicate 5 (.run true true)) c ∧
    c.system.curr = .mainTask ∧ Rests (.user 0) c := by
  let after (b : Split (Fin 1)) : Option (Split (Fin 1)) :=
    exec (guarded (fun a l b => unraced a l b ∧ Spares (.user 0) l) splitNext) b
      (List.replicate 5 (.run true true))
  obtain ⟨b, found, left, more⟩ := exec_reaches (guarded unraced splitNext) bootSplit awaitedExit
    (fun b => b.system.ctl (.user 0) = .terminated ∧
      (after b).any (fun c => decide (c.system.curr = .mainTask)) = true) (by decide +kernel)
  obtain ⟨c, reached, back⟩ := exec_reaches _ b _ (fun c => c.system.curr = .mainTask) more
  have run : Run Unraced bootSplit awaitedExit b :=
    run_mono (fun _ _ _ next => unraced_step next.1 next.2) (guarded_run found)
  have later : Run (fun a l b => Unraced a l b ∧ Spares (.user 0) l) b _ c :=
    run_mono (fun _ _ _ next => ⟨unraced_step next.1 next.2.1, next.2.2⟩) (guarded_run reached)
  exact ⟨b, c, run, left, later, back,
    ended_tasks_rest bootSplit b c _ _ _ boot_booted (fun _ => rfl) run left later⟩

/-- main has found that the task has not ended, and loses the processor twice before it is in
    suspended_tasks. The task exits in between. -/
def lateWaiter : List (Label (Fin 1)) :=
  [Label.call (.taskInit (.user 0) true), .call (.taskWait (some (.user 0)))] ++
  List.replicate 10 Label.tick ++ List.replicate 4 (Label.run true true) ++
  List.replicate 10 Label.tick ++ List.replicate 5 (Label.run true true) ++
  [Label.call (.taskExit 7)] ++ List.replicate 11 (Label.run true true)

/-- A task loses the processor when it has just marked itself as terminated. -/
def interruptedExit : List (Label (Fin 1)) :=
  [Label.call (.taskInit (.user 0) true), .call (.taskSwitch (some (.user 0))),
    .call (.taskExit 7)] ++
  List.replicate 10 Label.tick ++ List.replicate 4 (Label.run true true) ++
  [Label.call (.taskSwitch (some (.user 0)))] ++ List.replicate 4 (Label.run true true)

/-- Neither condition on the timer can be left out. -/
theorem preemption_strands_a_waiter :
    (¬ ∀ (a b : Split (Fin 1)) (labels : List (Label (Fin 1))) (t : Tcb (Fin 1)),
      Booted a.system → (∀ u, a.point u = none) →
      Run (fun a l b => Splits a l b ∧ ExitsWhole a l ∧ Distinct b.system) a labels b →
      b.system.ctl t = .terminated → Rests t b) ∧
    ¬ ∀ (a b : Split (Fin 1)) (labels : List (Label (Fin 1))) (t : Tcb (Fin 1)),
      Booted a.system → (∀ u, a.point u = none) →
      Run (fun a l b => Splits a l b ∧ ScansAlone a l ∧ Distinct b.system) a labels b →
      b.system.ctl t = .terminated → Rests t b := by
  constructor
  · intro claim
    obtain ⟨b, found, left, suspended, named⟩ := exec_reaches
      (guarded (fun a l b => legal a l b ∧ ExitsWhole a l) splitNext) bootSplit lateWaiter
      (fun b => b.system.ctl (.user 0) = .terminated ∧
        tasks b.system.kernel .suspendedTasks = [.mainTask] ∧
        (b.system.kernel.task .mainTask).waitingTask = (b.system.kernel.task (.user 0)).id)
      (by decide +kernel)
    have run : Run (fun a l b => Splits a l b ∧ ExitsWhole a l ∧ Distinct b.system)
        bootSplit lateWaiter b := by
      refine run_mono (fun a l b next => ?_) (guarded_run found)
      obtain ⟨stepped, ⟨allowed, distinct⟩, whole⟩ := next
      exact ⟨⟨splitNext_eq stepped, allowed⟩, whole, distinct⟩
    have rests := claim _ _ _ _ boot_booted (fun _ => rfl) run left
    exact rests.unawaited .mainTask (by rw [suspended]; simp) named
  · intro claim
    obtain ⟨b, found, left, status⟩ := exec_reaches
      (guarded (fun a l b => legal a l b ∧ ScansAlone a l) splitNext) bootSplit interruptedExit
      (fun b => b.system.ctl (.user 0) = .terminated ∧
        (b.system.kernel.task (.user 0)).status = .running) (by decide +kernel)
    have run : Run (fun a l b => Splits a l b ∧ ScansAlone a l ∧ Distinct b.system)
        bootSplit interruptedExit b := by
      refine run_mono (fun a l b next => ?_) (guarded_run found)
      obtain ⟨stepped, ⟨allowed, distinct⟩, alone⟩ := next
      exact ⟨⟨splitNext_eq stepped, allowed⟩, alone, distinct⟩
    have rests := claim _ _ _ _ boot_booted (fun _ => rfl) run left
    rw [rests.status] at status
    cases status

end Examples

end TerminationRaces
