import PingPong.TaskConservation

/-! What a step of the system means for waiting, sleeping and ended tasks. Every step is one
of a few events; the others leave the view of this module as it was. -/
namespace TaskEvents
open MachineModel CircularList QueueModel KernelModel KernelEffects TaskPlacement SystemModel
open SystemFrames TaskConservation
variable {N : Type} [DecidableEq N] [Fintype N]

section Calm

/-- disk_driver is resumed by its status, which tells whether it sleeps in disk_queue. -/
def Dozing (k : Kernel N) : Prop := ∀ t ∈ tasks k .diskQueue, (k.task t).status = .suspended

/-- Nothing that a waiting or a sleeping task depends on has changed, and no live task has been
    marked as terminated. -/
structure Calm (live : Tcb N → Bool) (k k' : Kernel N) : Prop where
  id : ∀ t, (k'.task t).id = (k.task t).id
  waiting : ∀ t, (k'.task t).waitingTask = (k.task t).waitingTask
  code : ∀ t, (k'.task t).exitCode = (k.task t).exitCode
  alarm : ∀ t, (k'.task t).wakeUpTime = (k.task t).wakeUpTime
  status : ∀ t, (k'.task t).status = (k.task t).status ∨
    (live t = true ∧ (k'.task t).status ≠ .terminated)
  sleeping : tasks k' .sleepingTasks = tasks k .sleepingTasks
  suspended : tasks k' .suspendedTasks = tasks k .suspendedTasks
  clock : k'.sysclock = k.sysclock
  dozing : Dozing k → Dozing k'

variable {live : Tcb N → Bool} {k k' k'' : Kernel N}

theorem calm_refl (k : Kernel N) : Calm live k k :=
  ⟨fun _ => rfl, fun _ => rfl, fun _ => rfl, fun _ => rfl, fun _ => Or.inl rfl, rfl, rfl, rfl,
    id⟩

theorem calm_trans (first : Calm live k k') (second : Calm live k' k'') : Calm live k k'' := by
  refine ⟨fun t => (second.id t).trans (first.id t),
    fun t => (second.waiting t).trans (first.waiting t),
    fun t => (second.code t).trans (first.code t),
    fun t => (second.alarm t).trans (first.alarm t), ?_, second.sleeping.trans first.sleeping,
    second.suspended.trans first.suspended, second.clock.trans first.clock,
    fun dozing => second.dozing (first.dozing dozing)⟩
  intro t
  rcases second.status t with same | changed
  · rw [same]
    exact first.status t
  · exact Or.inr changed

theorem dozing_update (dozing : Dozing k)
    (lists : ∀ t ∈ tasks k' .diskQueue, t ∈ tasks k .diskQueue)
    (status : ∀ t ∈ tasks k .diskQueue, t ∈ tasks k' .diskQueue →
      (k'.task t).status = (k.task t).status ∨ (k'.task t).status = .suspended) :
    Dozing k' := by
  intro t mem
  rcases status t (lists t mem) mem with same | suspended
  · exact same.trans (dozing t (lists t mem))
  · exact suspended

/-- Queues, clock and curr aside, nothing that matters here is written. -/
theorem calm_tasks {task : Tcb N → Task} (queues : k'.queues = k.queues)
    (clock : k'.sysclock = k.sysclock) (tasks' : k'.task = task)
    (fields : ∀ t, (task t).id = (k.task t).id ∧
      (task t).waitingTask = (k.task t).waitingTask ∧
      (task t).exitCode = (k.task t).exitCode ∧ (task t).wakeUpTime = (k.task t).wakeUpTime ∧
      (task t).status = (k.task t).status) :
    Calm live k k' := by
  subst tasks'
  have lists : tasks k' = tasks k := by rw [tasks, queues]
  refine ⟨fun t => (fields t).1, fun t => (fields t).2.1, fun t => (fields t).2.2.1,
    fun t => (fields t).2.2.2.1, fun t => Or.inl (fields t).2.2.2.2, by rw [lists],
    by rw [lists], clock, fun dozing => ?_⟩
  exact dozing_update dozing (fun t mem => by rwa [lists] at mem)
    fun t _ _ => Or.inl (fields t).2.2.2.2

theorem calm_setTask (k : Kernel N) (t : Tcb N) {f : Task → Task} (id : ∀ d, (f d).id = d.id)
    (waiting : ∀ d, (f d).waitingTask = d.waitingTask) (code : ∀ d, (f d).exitCode = d.exitCode)
    (alarm : ∀ d, (f d).wakeUpTime = d.wakeUpTime) (status : ∀ d, (f d).status = d.status) :
    Calm live k (k.setTask t f) := by
  refine calm_tasks rfl rfl rfl fun a => ?_
  by_cases same : a = t
  · subst same
    simp [Kernel.setTask, id, waiting, code, alarm, status]
  · simp [Kernel.setTask, same]

theorem calm_sems (queues : k'.queues = k.queues) (clock : k'.sysclock = k.sysclock)
    (tasks' : k'.task = k.task) : Calm live k k' :=
  calm_tasks queues clock tasks' fun _ => ⟨rfl, rfl, rfl, rfl, rfl⟩

theorem calm_setSem (k : Kernel N) (s : SemAddr) (f : Semaphore → Semaphore) :
    Calm live k (k.setSem s f) := calm_sems rfl rfl rfl

omit [Fintype N] in
theorem withStatus_fields (task : Tcb N → Task) {t : Tcb N} {status : TaskState}
    (alive : live t = true) (going : status ≠ .terminated) (a : Tcb N) :
    (withStatus task t status a).id = (task a).id ∧
      (withStatus task t status a).waitingTask = (task a).waitingTask ∧
      (withStatus task t status a).exitCode = (task a).exitCode ∧
      (withStatus task t status a).wakeUpTime = (task a).wakeUpTime ∧
      ((withStatus task t status a).status = (task a).status ∨
        live a = true ∧ (withStatus task t status a).status ≠ .terminated) := by
  by_cases same : a = t
  · subst same
    simp [withStatus, alive, going]
  · simp [withStatus, same]

/-- A task of disk_queue is only marked as suspended. -/
theorem calm_mark (k : Kernel N) {t : Tcb N} (alive : live t = true) {status : TaskState}
    (going : status ≠ .terminated) {queues : Queues TaskQueue (Tcb N)}
    (sleeping : elems queues .sleepingTasks = tasks k .sleepingTasks)
    (suspended : elems queues .suspendedTasks = tasks k .suspendedTasks)
    (parked : ∀ a ∈ elems queues .diskQueue, a ≠ t → a ∈ tasks k .diskQueue)
    (marked : t ∈ elems queues .diskQueue → status = .suspended) :
    Calm live k { k with queues := queues, task := withStatus k.task t status } := by
  have fields := withStatus_fields k.task alive going
  refine ⟨fun a => (fields a).1, fun a => (fields a).2.1, fun a => (fields a).2.2.1,
    fun a => (fields a).2.2.2.1, fun a => (fields a).2.2.2.2, sleeping, suspended, rfl,
    fun dozing a mem => ?_⟩
  by_cases own : a = t
  · subst own
    simpa [withStatus] using marked mem
  · simpa [withStatus, own] using dozing a (parked a mem own)

/-- The statuses of a task outside disk_queue are free. -/
theorem calm_status (k : Kernel N) {t : Tcb N} (alive : live t = true) {status : TaskState}
    (going : status ≠ .terminated)
    (marked : t ∈ tasks k .diskQueue → status = .suspended) :
    Calm live k (k.setStatus t status) :=
  calm_mark k alive going rfl rfl (fun _ mem _ => mem) marked

theorem calm_switch (p : Placed live k) {t : Tcb N}
    (target : t = .dispatcherTask ∨ t ∈ tasks k .readyTasks)
    (run : taskSwitch k (some t) = .ok k') : Calm live k k' := by
  cases run
  have alive : live t = true := by
    rcases target with rfl | mem
    · exact p.dispatcher
    · exact ((p.queued t).mp ⟨_, mem⟩).1
  have awake : t ∉ tasks k .diskQueue := by
    intro mem
    rcases target with rfl | ready
    · exact ((p.queued _).mp ⟨_, mem⟩).2 rfl
    · cases p.wellFormed.unique ready mem
  have left : Calm live k (k.setStatus k.curr .suspended) :=
    calm_status k (current_live p) (by simp) fun _ => rfl
  have taken : Calm live (k.setStatus k.curr .suspended)
      ((k.setStatus k.curr .suspended).setStatus t .running) :=
    calm_status _ alive (by simp) fun mem => absurd mem awake
  refine calm_trans left (calm_trans taken ?_)
  exact calm_tasks rfl rfl rfl fun _ => ⟨rfl, rfl, rfl, rfl, rfl⟩

theorem calm_suspend (p : Placed live k) (user : k.curr ≠ .dispatcherTask) {q : TaskQueue}
    (sleeping : q ≠ .sleepingTasks) (suspended : q ≠ .suspendedTasks)
    (run : taskSuspend k (some q) = .ok k') : Calm live k k' := by
  obtain ⟨m, known, lists, _⟩ := suspend_kept p user q
  cases known.symm.trans run
  have left : Calm live k { k with queues := m, task := withStatus k.task k.curr .suspended } := by
    refine calm_mark k (current_live p) (by simp) ?_ ?_ ?_ fun _ => rfl
    · rw [lists, moveTask_other _ (by simp) sleeping.symm]
    · rw [lists, moveTask_other _ (by simp) suspended.symm]
    · intro a mem other
      rw [lists, mem_moveTask p.wellFormed] at mem
      exact mem.elim And.left fun moved => absurd moved.2 other
  have awake : (.dispatcherTask : Tcb N) ∉ elems m .diskQueue := by
    rw [lists, mem_moveTask p.wellFormed]
    rintro (⟨mem, _⟩ | ⟨_, own⟩)
    · exact ((p.queued _).mp ⟨_, mem⟩).2 rfl
    · exact user own.symm
  refine calm_trans left (calm_trans (calm_status _ (t := .dispatcherTask) p.dispatcher
    (show TaskState.running ≠ .terminated by simp) fun mem => absurd mem awake) ?_)
  exact calm_tasks rfl rfl rfl fun _ => ⟨rfl, rfl, rfl, rfl, rfl⟩

theorem calm_resume (p : Placed live k) {t : Tcb N} (alive : live t = true)
    (other : t ≠ .dispatcherTask) {q : TaskQueue} (inside : t ∈ tasks k q ∨ q = .diskQueue)
    (sleeping : q ≠ .sleepingTasks) (suspended : q ≠ .suspendedTasks)
    (run : taskResume k (some t) (some q) = .ok k') :
    Calm live k k' := by
  obtain ⟨r, mem⟩ := (p.queued t).mpr ⟨alive, other⟩
  by_cases here : r = q
  · subst here
    obtain ⟨m, known, lists, _⟩ := resume_kept p mem
    cases known.symm.trans run
    refine calm_mark k alive (by simp) ?_ ?_ ?_ ?_
    · rw [lists, moveTask_other _ sleeping.symm (by simp)]
    · rw [lists, moveTask_other _ suspended.symm (by simp)]
    · intro a moved different
      rw [lists, mem_moveTask p.wellFormed] at moved
      exact moved.elim And.left fun own => absurd own.2 different
    · intro moved
      rw [lists, mem_moveTask p.wellFormed] at moved
      rcases moved with ⟨old, stays⟩ | ⟨same, _⟩
      · exact absurd ⟨p.wellFormed.unique old mem, rfl⟩ stays
      · cases same
  · cases (resume_elsewhere_kept p mem here).1.symm.trans run
    refine calm_status k alive (by simp) fun old => ?_
    rcases inside with there | rfl
    · exact absurd (p.wellFormed.unique mem there) here
    · exact absurd (p.wellFormed.unique mem old) here

theorem calm_drain (p : Placed live k) {q : TaskQueue} (ready : q ≠ .readyTasks)
    (disk : q ≠ .diskQueue) (sleeping : q ≠ .sleepingTasks) (suspended : q ≠ .suspendedTasks)
    (run : drainQueue q (Fintype.card (Tcb N)) k = .ok k') : Calm live k k' := by
  obtain ⟨m, known, lists, _⟩ := drain_kept p ready
  cases known.symm.trans run
  have fields : ∀ t, resumedTasks k (fun _ => true) id (tasks k q) t =
      if t ∈ tasks k q then { k.task t with status := .ready } else k.task t := by
    intro t
    by_cases mem : t ∈ tasks k q <;> simp [resumedTasks, mem]
  refine ⟨?_, ?_, ?_, ?_, ?_, ?_, ?_, rfl, ?_⟩
  · intro t; dsimp only; rw [fields]; split <;> rfl
  · intro t; dsimp only; rw [fields]; split <;> rfl
  · intro t; dsimp only; rw [fields]; split <;> rfl
  · intro t; dsimp only; rw [fields]; split <;> rfl
  · intro t
    dsimp only
    rw [fields]
    split
    · rename_i mem
      exact Or.inr ⟨((p.queued t).mp ⟨q, mem⟩).1, by simp⟩
    · exact Or.inl rfl
  · change elems m _ = _
    rw [lists, resumeLists_other _ _ _ sleeping.symm (by simp)]
  · change elems m _ = _
    rw [lists, resumeLists_other _ _ _ suspended.symm (by simp)]
  · have same : elems m .diskQueue = tasks k .diskQueue := by
      rw [lists, resumeLists_other _ _ _ disk.symm (by simp)]
    intro dozing
    refine dozing_update dozing (fun t mem => same ▸ mem) fun t mem _ => Or.inl ?_
    dsimp only
    rw [fields, if_neg fun moved => disk (p.wellFormed.unique moved mem)]

theorem calm_schedule (k : Kernel N) (c : Tcb N) :
    Calm live k { k with task := agedTasks k (tasks k .readyTasks) c } := by
  refine calm_tasks rfl rfl rfl fun t => ?_
  simp only [agedTasks]
  split
  · exact ⟨rfl, rfl, rfl, rfl, rfl⟩
  · split
    · exact ⟨rfl, rfl, rfl, rfl, rfl⟩
    · exact ⟨rfl, rfl, rfl, rfl, rfl⟩

theorem calm_semInit (p : Placed live k) {s : SemAddr} (idle : tasks k (.semQueue s) = [])
    (value : Int) : Calm live k (semInit k (some s) value).1 := by
  obtain ⟨_, lists, _, _⟩ := semInit_kept p idle value
  exact ⟨fun _ => rfl, fun _ => rfl, fun _ => rfl, fun _ => rfl, fun _ => Or.inl rfl,
    by rw [lists], by rw [lists], rfl,
    fun dozing => dozing_update dozing (fun t mem => by rwa [lists] at mem) fun _ _ _ => Or.inl rfl⟩

theorem calm_semDown (p : Placed live k) (user : k.curr ≠ .dispatcherTask) {s : SemAddr}
    {r : Option Int} (run : semDown k (some s) = .ok (k', r)) : Calm live k k' := by
  rcases semDown_effect run with rfl | ⟨v, rfl | suspended⟩
  · exact calm_refl k'
  · exact calm_setSem k s _
  · have here := kept_setSem p s fun x => ⟨v, 0, x.active⟩
    exact calm_trans (calm_setSem k s _)
      (calm_suspend here.placed user (by simp) (by simp) suspended)

theorem calm_semUp (p : Placed live k) {s : SemAddr} {r : Int}
    (run : semUp k (some s) = .ok (k', r)) : Calm live k k' := by
  rcases semUp_effect run with rfl | ⟨v, rfl | ⟨wakes, resumed⟩⟩
  · exact calm_refl k'
  · exact calm_setSem k s _
  · have here := kept_setSem p s fun x => ⟨v, 0, x.active⟩
    rw [p.wellFormed.head] at wakes resumed
    rcases waiting : tasks k (.semQueue s) with _ | ⟨t, rest⟩
    · rw [waiting] at wakes
      exact absurd rfl wakes
    · rw [waiting, List.head?_cons] at resumed
      have mem : t ∈ tasks k (.semQueue s) := by rw [waiting]; simp
      obtain ⟨alive, other⟩ := (p.queued t).mp ⟨_, mem⟩
      exact calm_trans (calm_setSem k s _)
        (calm_resume here.placed alive other (Or.inl mem) (by simp) (by simp) resumed)

theorem calm_semDestroy (p : Placed live k) {s : SemAddr} {r : Int}
    (run : semDestroy k (some s) = .ok (k', r)) : Calm live k k' := by
  rcases semDestroy_effect run with rfl | drained
  · exact calm_refl k'
  · have here := kept_setSem p s fun x => { x with active := 0 }
    exact calm_trans (calm_setSem k s _)
      (calm_drain here.placed (by simp) (by simp) (by simp) (by simp) drained)

end Calm

section Events

inductive WaitPoint (N : Type) where
  | unborn
  | ended
  | awaits (t : Tcb N)
  | active
  deriving DecidableEq

def waitPoint : Ctl N → WaitPoint N
  | .unborn => .unborn
  | .terminated => .ended
  | .waitReturn t => .awaits t
  | _ => .active

@[ext] structure TaskView (N : Type) where
  point : Tcb N → WaitPoint N
  id : Tcb N → Int
  waitingTask : Tcb N → Int
  exitCode : Tcb N → Int
  wakeUpTime : Tcb N → UInt32
  sleeping : List (Tcb N)
  suspended : List (Tcb N)
  clock : UInt32

def taskView (s : System N) : TaskView N where
  point t := waitPoint (s.ctl t)
  id t := (s.kernel.task t).id
  waitingTask t := (s.kernel.task t).waitingTask
  exitCode t := (s.kernel.task t).exitCode
  wakeUpTime t := (s.kernel.task t).wakeUpTime
  sleeping := tasks s.kernel .sleepingTasks
  suspended := tasks s.kernel .suspendedTasks
  clock := s.kernel.sysclock

/-- The int argument of task_sleep as it is added to the clock. -/
def ticksOf (t : Int) : UInt32 := UInt32.ofNat (t % 4294967296).toNat

inductive TaskEvent (N : Type) where
  | other
  | tick
  | wake
  | sleep (t : Int)
  | wait (awaited : Tcb N)
  | finish (awaited : Tcb N)
  | exit (code : Int)
  | init (t : Tcb N)
  deriving DecidableEq

/-- The event of a step; a second disk_mgr_init and one on an empty disk start no driver. -/
def taskEvent (s : System N) : Label N → TaskEvent N
  | .tick => .tick
  | .completion => .other
  | .call c => match c with
    | .taskInit t _ => .init t
    | .taskSleep t => .sleep t
    | .taskWait (some t) =>
      if (s.kernel.task t).status = .terminated then .other else .wait t
    | .taskExit code => .exit code
    | .diskMgrInit _ _ =>
      if s.device.status = .unknown ∧ 0 ≤ s.device.fileBlocks then .init .diskDriverTask
      else .other
    | _ => .other
  | .run _ _ => match s.ctl s.curr with
    | .waitReturn t => .finish t
    | .dispatcher (.wake _) => .wake
    | _ => .other

inductive TaskMove (me : Tcb N) (v : TaskView N) : TaskEvent N → TaskView N → Prop where
  | other : TaskMove me v .other v
  | tick : TaskMove me v .tick { v with clock := v.clock + 1 }
  | wake : TaskMove me v .wake
      { v with sleeping := v.sleeping.filter fun t => !decide (v.wakeUpTime t ≤ v.clock) }
  | sleep (t : Int) : TaskMove me v (.sleep t)
      { v with
        wakeUpTime := Function.update v.wakeUpTime me (v.clock + ticksOf t)
        sleeping := v.sleeping ++ [me] }
  | wait (t : Tcb N) (here : v.point me = .active) (going : v.point t ≠ .ended) :
      TaskMove me v (.wait t)
      { v with
        point := Function.update v.point me (.awaits t)
        waitingTask := Function.update v.waitingTask me (v.id t)
        suspended := v.suspended ++ [me] }
  | finish (t : Tcb N) (here : v.point me = .awaits t) : TaskMove me v (.finish t)
      { v with point := Function.update v.point me .active }
  | exit (code : Int) (here : v.point me = .active) : TaskMove me v (.exit code)
      { v with
        point := Function.update v.point me .ended
        exitCode := Function.update v.exitCode me code
        waitingTask := fun t =>
          if t ∈ v.suspended ∧ v.waitingTask t = v.id me then -1 else v.waitingTask t
        suspended := v.suspended.filter fun t => !decide (v.waitingTask t = v.id me) }
  | init (t : Tcb N) (id : Int) (idle : v.point t = .unborn ∨ v.point t = .ended) :
      TaskMove me v (.init t)
      { v with
        point := Function.update v.point t .active
        id := Function.update v.id t id
        waitingTask := Function.update v.waitingTask t (-1)
        exitCode := Function.update v.exitCode t 0
        wakeUpTime := Function.update v.wakeUpTime t 0 }

/-- A descriptor says TERMINATED exactly when its task has executed task_exit. -/
def Marked (s : System N) : Prop :=
  ∀ t, (s.kernel.task t).status = .terminated ↔ waitPoint (s.ctl t) = .ended

variable {s s' : System N}

omit [Fintype N] in
theorem point_update (s : System N) (t : Tcb N) (new : Ctl N) :
    (fun u => waitPoint (Function.update s.ctl t new u)) =
      Function.update (fun u => waitPoint (s.ctl u)) t (waitPoint new) := by
  funext u
  exact Function.apply_update (fun _ => waitPoint) s.ctl t new u

omit [DecidableEq N] [Fintype N] in
theorem ended_is_dead {c : Ctl N} (ended : waitPoint c = .ended) : live c = false := by
  cases c <;> first | rfl | cases ended

omit [DecidableEq N] [Fintype N] in
theorem idle_points {c : Ctl N} (idle : live c = false) :
    waitPoint c = .unborn ∨ waitPoint c = .ended := by
  cases c <;> first | exact Or.inl rfl | exact Or.inr rfl | cases idle

/-- A step that nobody who waits or sleeps can notice. -/
structure Quiet (s s' : System N) : Prop where
  calm : Calm (liveTasks s) s.kernel s'.kernel
  points : ∀ t, waitPoint (s'.ctl t) = waitPoint (s.ctl t)

theorem quiet_view (q : Quiet s s') : taskView s' = taskView s := by
  refine TaskView.ext (funext q.points) (funext q.calm.id) (funext q.calm.waiting)
    (funext q.calm.code) (funext q.calm.alarm) q.calm.sleeping q.calm.suspended q.calm.clock

theorem quiet_marked (q : Quiet s s') (marked : Marked s) : Marked s' := by
  intro t
  rw [q.points]
  rcases q.calm.status t with same | ⟨alive, going⟩
  · rw [same]
    exact marked t
  · constructor
    · exact fun ended => absurd ended going
    · intro ended
      rw [liveTasks, ended_is_dead ended] at alive
      cases alive

/-- The running task goes on in the same role, and the kernel is left calm. -/
theorem quiet_goto {c : Ctl N} (old : waitPoint (s.ctl s.curr) = .active)
    (calm : Calm (liveTasks s) s.kernel s'.kernel)
    (ctl : s'.ctl = Function.update s.ctl s.curr c) (new : waitPoint c = .active) :
    Quiet s s' := by
  refine ⟨calm, fun t => ?_⟩
  rw [ctl, Function.update_apply]
  split
  · rename_i same
    rw [same, old, new]
  · rfl

end Events

section Quiet
variable {s s' : System N}

theorem quiet_answer {code : Int} (here : waitPoint (s.ctl s.curr) = .active) :
    Quiet s (s.answer code) :=
  quiet_goto here (calm_refl _) rfl (by rfl)

theorem quiet_semDown (c : Conserved s) {n : Nat} {point : DownPoint}
    (here : s.ctl s.curr = .semDown n point) (run : semDownStep s n point = .ok s') :
    Quiet s s' := by
  have active : waitPoint (s.ctl s.curr) = .active := by rw [here]; rfl
  cases point with
  | enter =>
    simp only [semDownStep] at run
    split at run
    · cases run
      exact ⟨calm_refl _, fun _ => rfl⟩
    · cases run
      exact quiet_goto active (calm_sems rfl rfl rfl) rfl (by rfl)
  | update =>
    cases run
    exact quiet_goto active (calm_sems rfl rfl rfl) rfl (by rfl)
  | leave v =>
    simp only [semDownStep] at run
    cases run
    split
    · exact quiet_goto active (calm_sems rfl rfl rfl) rfl (by rfl)
    · exact quiet_goto active (calm_sems rfl rfl rfl) rfl (by rfl)
  | suspend =>
    obtain ⟨k, suspended, rfl⟩ := map_ok run
    have user := not_dispatcher c (t := s.curr) (by rw [here]; simp [role])
    exact quiet_goto active (calm_suspend c.placed user (by simp) (by simp) suspended) rfl (by rfl)
  | woken =>
    cases run
    exact quiet_goto active (calm_refl _) rfl (by rfl)

theorem quiet_semUp (c : Conserved s) {n : Nat} {point : UpPoint}
    (here : s.ctl s.curr = .semUp n point) (run : semUpStep s n point = .ok s') :
    Quiet s s' := by
  have active : waitPoint (s.ctl s.curr) = .active := by rw [here]; rfl
  cases point with
  | enter =>
    simp only [semUpStep] at run
    split at run
    · cases run
      exact ⟨calm_refl _, fun _ => rfl⟩
    · cases run
      exact quiet_goto active (calm_sems rfl rfl rfl) rfl (by rfl)
  | update =>
    cases run
    exact quiet_goto active (calm_sems rfl rfl rfl) rfl (by rfl)
  | leave v =>
    cases run
    exact quiet_goto active (calm_sems rfl rfl rfl) rfl (by rfl)
  | test v =>
    simp only [semUpStep] at run
    split at run
    · split at run
      · cases run
        exact quiet_goto active (calm_refl _) rfl (by rfl)
      · cases run
        exact quiet_goto active (calm_refl _) rfl (by rfl)
    · cases run
      exact quiet_answer active
  | resume =>
    obtain ⟨k, resumed, rfl⟩ := map_ok run
    rw [c.placed.wellFormed.head] at resumed
    rcases waiting : tasks s.kernel (.semQueue (.user n)) with _ | ⟨t, rest⟩
    · rw [waiting] at resumed
      cases resumed
    · rw [waiting, List.head?_cons] at resumed
      have mem : t ∈ tasks s.kernel (.semQueue (.user n)) := by rw [waiting]; simp
      obtain ⟨alive, other⟩ := (c.placed.queued t).mp ⟨_, mem⟩
      obtain ⟨m, known, _⟩ := resume_kept c.placed mem
      cases known.symm.trans resumed
      have calm := calm_resume c.placed alive other (Or.inl mem) (by simp) (by simp) resumed
      exact quiet_goto active calm rfl (by rfl)

/-- The two whole calls on a semaphore of the kernel. -/
theorem quiet_down (c : Conserved s) {old new : Ctl N} {a : SemAddr}
    (here : s.ctl s.curr = old) (task : role old ≠ .dispatcher)
    (active : waitPoint old = .active) (active' : waitPoint new = .active)
    (run : ((semDown s.kernel (some a)).map fun (k, _) => (s.withKernel k).goto s.curr new) =
      .ok s') : Quiet s s' := by
  obtain ⟨⟨k, r⟩, down, rfl⟩ := map_ok run
  have user := not_dispatcher c (t := s.curr) (by rw [here]; exact task)
  exact quiet_goto (by rw [here, active]) (calm_semDown c.placed user down) rfl active'

theorem quiet_up (c : Conserved s) {old new : Ctl N} {a : SemAddr}
    (here : s.ctl s.curr = old) (active : waitPoint old = .active)
    (active' : waitPoint new = .active)
    (run : ((semUp s.kernel (some a)).map fun (k, _) => (s.withKernel k).goto s.curr new) =
      .ok s') : Quiet s s' := by
  obtain ⟨⟨k, r⟩, up, rfl⟩ := map_ok run
  exact quiet_goto (by rw [here, active]) (calm_semUp c.placed up) rfl active'

theorem quiet_send (c : Conserved s) {q a : Nat} {point : SendPoint}
    (here : s.ctl s.curr = .send q a point) {malloc₁ malloc₂ : Bool}
    (run : mqueueSendStep s q a malloc₁ malloc₂ point = .ok s') : Quiet s s' := by
  have active : waitPoint (s.ctl s.curr) = .active := by rw [here]; rfl
  cases point with
  | vaga => exact quiet_down c here (by simp [role]) rfl rfl run
  | buffer => exact quiet_down c here (by simp [role]) rfl rfl run
  | check =>
    cases run
    split
    · exact quiet_answer active
    · exact quiet_goto active (calm_refl _) rfl (by rfl)
  | store =>
    simp only [mqueueSendStep] at run
    split at run
    · cases run
      exact quiet_answer active
    · split at run
      · cases run
        exact quiet_answer active
      · cases run
        exact quiet_goto active (calm_refl _) rfl (by rfl)
  | upBuffer => exact quiet_up c here rfl rfl run
  | upItem =>
    obtain ⟨⟨k, r⟩, up, rfl⟩ := map_ok run
    have same := (semUp_any c.placed up).1
    refine quiet_goto (c := .body 0) active (calm_semUp c.placed up) ?_ rfl
    simp only [System.answer, System.curr, System.withKernel_kernel, same, System.goto_ctl,
      System.withKernel_ctl]

theorem quiet_recv (c : Conserved s) {q a : Nat} {point : RecvPoint}
    (here : s.ctl s.curr = .recv q a point) (run : mqueueRecvStep s q a point = .ok s') :
    Quiet s s' := by
  have active : waitPoint (s.ctl s.curr) = .active := by rw [here]; rfl
  cases point with
  | item => exact quiet_down c here (by simp [role]) rfl rfl run
  | buffer => exact quiet_down c here (by simp [role]) rfl rfl run
  | check =>
    cases run
    split
    · exact quiet_answer active
    · exact quiet_goto active (calm_refl _) rfl (by rfl)
  | take =>
    simp only [mqueueRecvStep] at run
    split at run
    · cases run
    · cases run
      exact quiet_goto active (calm_refl _) rfl (by rfl)
  | upBuffer => exact quiet_up c here rfl rfl run
  | upVaga =>
    obtain ⟨⟨k, r⟩, up, rfl⟩ := map_ok run
    have same := (semUp_any c.placed up).1
    refine quiet_goto (c := .body 0) active (calm_semUp c.placed up) ?_ rfl
    simp only [System.answer, System.curr, System.withKernel_kernel, same, System.goto_ctl,
      System.withKernel_ctl]

theorem quiet_destroy (c : Conserved s) {q : Nat} {point : DestroyPoint}
    (here : s.ctl s.curr = .destroy q point) (run : mqueueDestroyStep s q point = .ok s') :
    Quiet s s' := by
  have active : waitPoint (s.ctl s.curr) = .active := by rw [here]; rfl
  have drained : ∀ {a : SemAddr} {p : DestroyPoint},
      ((semDestroy s.kernel (some a)).map fun (k, _) =>
        (s.withKernel k).goto s.curr (.destroy q p)) = .ok s' → Quiet s s' := by
    intro a p run
    obtain ⟨⟨k, r⟩, destroyed, rfl⟩ := map_ok run
    exact quiet_goto active (calm_semDestroy c.placed destroyed) rfl (by rfl)
  cases point with
  | buffer => exact drained run
  | item => exact drained run
  | vaga => exact drained run
  | drain =>
    simp only [mqueueDestroyStep] at run
    split at run
    · cases run
      exact quiet_goto active (calm_refl _) rfl (by rfl)
    · cases run
      exact ⟨calm_refl _, fun _ => rfl⟩
  | close =>
    cases run
    exact quiet_goto active (calm_refl _) rfl (by rfl)

theorem quiet_blockOp (c : Conserved s) {block : Int} {buffer : Option Nat} {op : Operation}
    {point : BlockOpPoint} (here : s.ctl s.curr = .blockOp block buffer op point)
    {malloc : Bool} (run : diskBlockOpStep s block buffer op malloc point = .ok s') :
    Quiet s s' := by
  have active : waitPoint (s.ctl s.curr) = .active := by rw [here]; rfl
  cases point with
  | enqueue =>
    simp only [diskBlockOpStep] at run
    split at run
    · cases run
      exact quiet_goto active (calm_refl _) rfl (by rfl)
    · cases run
      exact quiet_goto active (calm_refl _) rfl (by rfl)
  | resume =>
    simp only [diskBlockOpStep] at run
    split at run
    · rename_i suspended
      have alive := suspended_driver_lives c suspended
      obtain ⟨k, resumed, rfl⟩ := map_ok run
      exact quiet_goto active (calm_resume c.placed alive (by simp) (Or.inr rfl) (by simp) (by simp)
        resumed) rfl (by rfl)
    · cases run
      exact quiet_goto active (calm_refl _) rfl (by rfl)
  | up => exact quiet_up c here rfl rfl run
  | suspend =>
    obtain ⟨k, suspended, rfl⟩ := map_ok run
    have user := not_dispatcher c (t := s.curr) (by rw [here]; simp [role])
    exact quiet_goto active (calm_suspend c.placed user (by simp) (by simp) suspended) rfl (by rfl)
  | finish =>
    cases run
    exact quiet_answer active

theorem quiet_driver (c : Conserved s) {point : DriverPoint}
    (here : s.ctl s.curr = .driver point) (run : diskDriverStep s point = .ok s') :
    Quiet s s' := by
  have active : waitPoint (s.ctl s.curr) = .active := by rw [here]; rfl
  cases point with
  | down => exact quiet_down c here (by simp [role]) rfl rfl run
  | test =>
    simp only [diskDriverStep, diskDriverTest] at run
    split at run
    · obtain ⟨k, resumed, rfl⟩ := map_ok run
      rw [c.placed.wellFormed.head] at resumed
      rcases waiting : tasks s.kernel .diskQueue with _ | ⟨t, rest⟩
      · rw [waiting] at resumed
        cases resumed
      · rw [waiting, List.head?_cons] at resumed
        have mem : t ∈ tasks s.kernel .diskQueue := by rw [waiting]; simp
        obtain ⟨alive, other⟩ := (c.placed.queued t).mp ⟨_, mem⟩
        have calm := calm_resume c.placed alive other (Or.inl mem) (by simp) (by simp) resumed
        exact quiet_goto active calm rfl (by rfl)
    · cases run
      exact quiet_goto active (calm_refl _) rfl (by rfl)
  | issue =>
    cases run
    have kernel : (diskDriverIssue s).kernel = s.kernel := by
      simp only [diskDriverIssue]
      split
      · split <;> rfl
      · rfl
    refine quiet_goto (c := .driver .up) active (by rw [kernel]; exact calm_refl _) ?_ rfl
    · simp only [diskDriverIssue]
      split
      · split
        · rfl
        · rfl
      · rfl
  | up => exact quiet_up c here rfl rfl run
  | suspend =>
    obtain ⟨k, suspended, rfl⟩ := map_ok run
    have user := not_dispatcher c (t := s.curr) (by rw [here]; simp [role])
    exact quiet_goto active (calm_suspend c.placed user (by simp) (by simp) suspended) rfl (by rfl)

theorem quiet_sighandle (c : Conserved s) {op : Operation}
    (run : diskSighandle s op = .ok s') : Quiet s s' := by
  obtain ⟨on, resumed, ctl, -⟩ := sighandle_returns run
  have calm := calm_resume c.placed (c.handler on) (by simp) (Or.inr rfl) (by simp) (by simp)
    resumed
  exact ⟨calm, fun t => by rw [ctl]⟩

end Quiet

section Effects
variable {live : Tcb N → Bool} {k k' : Kernel N}

theorem calm_tick (p : Placed live k) (run : interruptionHandler k = .ok k') :
    Calm live { k with sysclock := k.sysclock + 1 } k' := by
  have older : Calm live { k with sysclock := k.sysclock + 1 }
      ({ k with sysclock := k.sysclock + 1 }.setTask k.curr
        fun d => { d with quantum := toInt (d.quantum + 1) }) :=
    calm_setTask _ _ (fun _ => rfl) (fun _ => rfl) (fun _ => rfl) (fun _ => rfl) fun _ => rfl
  simp only [interruptionHandler] at run
  split at run
  · refine calm_trans older (calm_trans (calm_setTask _ k.curr (f := fun d =>
      { d with quantum := 0 }) (fun _ => rfl) (fun _ => rfl) (fun _ => rfl) (fun _ => rfl)
      fun _ => rfl) ?_)
    refine calm_switch ?_ (Or.inl rfl) run
    exact ⟨p.wellFormed, p.queued, p.running, p.dispatcher⟩
  · cases run
    exact older

theorem sleep_exact (p : Placed live k) (user : k.curr ≠ .dispatcherTask) (t : Int) :
    ∃ m, taskSleep k t = .ok (givenUp
        (k.setTask k.curr fun d => { d with wakeUpTime := systime k + ticksOf t }) m) ∧
      elems m = moveTask (tasks k) .readyTasks .sleepingTasks k.curr := by
  have alarm := kept_setTask p k.curr (f := fun d => { d with
    wakeUpTime := systime k + ticksOf t }) (fun _ => rfl) fun _ => rfl
  obtain ⟨m, run, lists, _⟩ := suspend_kept alarm.placed user .sleepingTasks
  exact ⟨m, run, lists⟩

theorem wait_exact (p : Placed live k) (user : k.curr ≠ .dispatcherTask) {t : Tcb N}
    (going : (k.task t).status ≠ .terminated) :
    ∃ m, taskWait k (some t) = .ok (givenUp
        (k.setTask k.curr fun d => { d with waitingTask := (k.task t).id }) m, none) ∧
      elems m = moveTask (tasks k) .readyTasks .suspendedTasks k.curr := by
  have waiting := kept_setTask p k.curr (f := fun d => { d with
    waitingTask := (k.task t).id }) (fun _ => rfl) fun _ => rfl
  obtain ⟨m, run, lists, _⟩ := suspend_kept waiting.placed user .suspendedTasks
  refine ⟨m, ?_, lists⟩
  simp only [taskWait, going, ↓reduceIte, run]
  rfl

theorem wake_exact (p : Placed live k) :
    ∃ m, wakeTasks k = .ok { k with
        queues := m
        task := resumedTasks k (fun d => d.wakeUpTime ≤ systime k) id
          (tasks k .sleepingTasks) } ∧
      elems m = resumeLists (tasks k) .sleepingTasks
        (fun t => (k.task t).wakeUpTime ≤ systime k) (tasks k .sleepingTasks) [] := by
  obtain ⟨m, run, lists, _⟩ := resumeWhere_kept p (q := .sleepingTasks) (by decide)
    (fun d => d.wakeUpTime ≤ systime k) id fun _ => rfl
  exact ⟨m, run, lists⟩

theorem exit_exact (p : Placed live k) (user : k.curr ≠ .dispatcherTask) {code : Int}
    (run : taskExit k code = .ok k') :
    k'.sysclock = k.sysclock ∧
    k'.task = resumedTasks (exitRecord k code)
      (fun d => d.waitingTask = (k.task k.curr).id) (fun d => { d with waitingTask := -1 })
      (tasks k .suspendedTasks) ∧
    tasks k' = listRemove (resumeLists (tasks k) .suspendedTasks
      (fun t => (k.task t).waitingTask = (k.task k.curr).id) (tasks k .suspendedTasks) [])
      .readyTasks k.curr := by
  obtain ⟨m, resume, lists, kept⟩ := resumeWhere_kept (exitRecord_placed p code)
    (q := .suspendedTasks) (by decide)
    (fun d => d.waitingTask = ((exitRecord k code).task k.curr).id)
    (fun d => { d with waitingTask := -1 }) fun _ => rfl
  have id := exitRecord_id k code k.curr
  have waiting : ∀ t, ((exitRecord k code).task t).waitingTask = (k.task t).waitingTask := by
    intro t
    by_cases same : t = k.curr
    · subst same
      simp [exitRecord, Kernel.setStatus, Kernel.setTask]
    · rw [exitRecord_other k code same]
  rw [taskExit_eq, resume] at run
  simp only [Except.bind] at run
  split at run
  · cases run
  · have mem : k.curr ∈ elems m .readyTasks := by
      rw [lists]
      have ready := current_ready p user
      have ready' : k.curr ∈ tasks (exitRecord k code) .readyTasks := ready
      simp [resumeLists, ready']
    obtain ⟨m', remove, r, _⟩ := kept.placed.wellFormed.remove_mem mem
    rw [remove] at run
    simp only [Except.ok.injEq] at run
    rw [← run]
    refine ⟨rfl, ?_, ?_⟩
    · simp only [id]
      rfl
    · rw [tasks, r.elems_eq]
      change listRemove (elems m) _ _ = _
      rw [lists]
      simp only [id, waiting]
      rfl

theorem init_exact (p : Placed live k) {t : Tcb N} (idle : live t = false) :
    ∃ m, taskInit k t true = .ok ({ k with
        queues := m, task := Function.update k.task t (initialTask (nextId k) k.sysclock),
        lastTaskId := k.lastTaskId + 1, userTasksNum := initCount k t }, nextId k) ∧
      elems m = listAppend (tasks k) .readyTasks t := by
  have fresh : ∀ q, t ∉ tasks k q := fun q mem => by
    rw [((p.queued t).mp ⟨q, mem⟩).1] at idle
    cases idle
  have cleared : Function.update k.queues.link t Links.free = k.queues.link := by
    rw [← p.wellFormed.free t fresh, Function.update_eq_self]
  obtain ⟨m, append, r⟩ := p.wellFormed.append_free fresh .readyTasks
  exact ⟨m, taskInit_eq cleared append, r.elems_eq⟩

end Effects

section Steps
variable {s s' : System N}

omit [Fintype N] in
theorem boot_marked {s : System N} (boot : Booted s) : Marked s := by
  obtain ⟨sem, run⟩ := boot.kernel
  rw [pposInit_boot, Except.ok.injEq] at run
  intro t
  rw [← run]
  cases t with
  | mainTask => rw [boot.main]; simp [bootKernel, zeroedTask, waitPoint]
  | dispatcherTask => rw [boot.dispatcher]; simp [bootKernel, waitPoint]
  | diskDriverTask => rw [boot.driver]; simp [bootKernel, zeroedTask, waitPoint]
  | user n => rw [boot.user]; simp [bootKernel, zeroedTask, waitPoint]

structure Outcome (s : System N) (l : Label N) (s' : System N) : Prop where
  marked : Marked s'
  dozing : Dozing s.kernel → Dozing s'.kernel
  move : TaskMove s.curr (taskView s) (taskEvent s l) (taskView s')

theorem quiet_outcome {l : Label N} (marked : Marked s) (event : taskEvent s l = .other)
    (q : Quiet s s') : Outcome s l s' := by
  refine ⟨quiet_marked q marked, q.calm.dozing, ?_⟩
  rw [event, quiet_view q]
  exact .other

omit [Fintype N] in
theorem move_to {me : Tcb N} {v v₁ v₂ : TaskView N} {e : TaskEvent N}
    (move : TaskMove me v e v₁) (same : v₂ = v₁) : TaskMove me v e v₂ := same ▸ move

theorem tick_outcome (c : Conserved s) (marked : Marked s)
    (go : step s .tick = some (.ok s')) : Outcome s .tick s' := by
  obtain ⟨k, ran, rfl⟩ := map_ok (Option.some.inj go)
  have q : Quiet (s.withKernel { s.kernel with sysclock := s.kernel.sysclock + 1 })
      (s.withKernel k) := ⟨calm_tick c.placed ran, fun _ => rfl⟩
  refine ⟨quiet_marked q marked, q.calm.dozing, ?_⟩
  rw [quiet_view q]
  exact .tick

omit [DecidableEq N] [Fintype N] in
theorem live_not_ended {c : Ctl N} (alive : live c = true) : waitPoint c ≠ .ended := by
  intro ended
  rw [ended_is_dead ended] at alive
  cases alive

omit [DecidableEq N] [Fintype N] in
theorem marked_update (marked : Marked s)
    (each : ∀ t, ((s'.kernel.task t).status = (s.kernel.task t).status ∧ s'.ctl t = s.ctl t) ∨
      ((s'.kernel.task t).status ≠ .terminated ∧ waitPoint (s'.ctl t) ≠ .ended)) :
    Marked s' := by
  intro t
  rcases each t with ⟨status, same⟩ | ⟨going, active⟩
  · rw [status, same]
    exact marked t
  · exact ⟨fun ended => absurd ended going, fun ended => absurd ended active⟩

/-- The running task blocks itself in a queue after writing a field of its descriptor. -/
theorem suspended_marked (marked : Marked s) (c : Conserved s) {f : Task → Task}
    {m : Queues TaskQueue (Tcb N)} (new : Ctl N) (awake : live new = true)
    (kernel : s'.kernel = givenUp (s.kernel.setTask s.kernel.curr f) m)
    (ctl : s'.ctl = Function.update s.ctl s.curr new) : Marked s' := by
  refine marked_update marked fun t => ?_
  rw [kernel, ctl]
  by_cases own : t = s.curr
  · subst own
    refine Or.inr ⟨?_, by rw [Function.update_self]; exact live_not_ended awake⟩
    simp only [givenUp, withStatus, Kernel.setTask, System.curr, Function.update_apply]
    split <;> simp
  · have own' : t ≠ s.kernel.curr := own
    rw [Function.update_of_ne own]
    by_cases dispatcher : t = .dispatcherTask
    · subst dispatcher
      exact Or.inr ⟨by simp [givenUp, withStatus], live_not_ended c.placed.dispatcher⟩
    · exact Or.inl ⟨by simp [givenUp, withStatus, Kernel.setTask, dispatcher, own'], rfl⟩

/-- The running task blocks itself in a queue other than disk_queue. -/
theorem suspended_dozing (c : Conserved s) {f : Task → Task} {m : Queues TaskQueue (Tcb N)}
    (kernel : s'.kernel = givenUp (s.kernel.setTask s.kernel.curr f) m)
    (lists : elems m .diskQueue = tasks s.kernel .diskQueue) (dozing : Dozing s.kernel) :
    Dozing s'.kernel := by
  have same : tasks s'.kernel .diskQueue = tasks s.kernel .diskQueue := by
    rw [kernel]
    exact lists
  refine dozing_update dozing (fun t mem => same ▸ mem) fun t mem _ => ?_
  have other : t ≠ .dispatcherTask := by
    rintro rfl
    exact ((c.placed.queued _).mp ⟨_, mem⟩).2 rfl
  rw [kernel]
  by_cases own : t = s.kernel.curr
  · subst own
    right
    simp [givenUp, withStatus, Kernel.setTask, other]
  · left
    simp [givenUp, withStatus, Kernel.setTask, other, own]

omit [Fintype N] in
theorem givenUp_fields (k : Kernel N) (m : Queues TaskQueue (Tcb N)) (t : Tcb N) :
    ((givenUp k m).task t).id = (k.task t).id ∧
      ((givenUp k m).task t).waitingTask = (k.task t).waitingTask ∧
      ((givenUp k m).task t).exitCode = (k.task t).exitCode ∧
      ((givenUp k m).task t).wakeUpTime = (k.task t).wakeUpTime := by
  simp only [givenUp, withStatus, Function.update_apply]
  by_cases own : t = k.curr
  · subst own
    split <;> simp_all
  · split <;> simp_all

theorem sleep_outcome (c : Conserved s) (marked : Marked s) {code t : Int}
    (body : s.ctl s.curr = .body code) (run : call s (.taskSleep t) = .ok s') :
    Outcome s (.call (.taskSleep t)) s' := by
  have user := not_dispatcher c (t := s.curr) (by rw [body]; simp [role])
  obtain ⟨k, slept, rfl⟩ := map_ok run
  obtain ⟨m, known, lists⟩ := sleep_exact c.placed user t
  cases known.symm.trans slept
  refine ⟨suspended_marked marked c (.body 0) rfl rfl rfl,
    suspended_dozing c rfl (by rw [lists, moveTask_other _ (by simp) (by simp)]), ?_⟩
  have fields := givenUp_fields (s.kernel.setTask s.kernel.curr fun d =>
    { d with wakeUpTime := systime s.kernel + ticksOf t }) m
  refine move_to (.sleep t) (TaskView.ext ?_ ?_ ?_ ?_ ?_ ?_ ?_ rfl)
  · change (fun u => waitPoint (Function.update s.ctl s.curr (.body 0) u)) = _
    rw [point_update]
    exact Function.update_eq_self_iff.mpr (by rw [body]; rfl)
  · funext a
    refine (fields a).1.trans ?_
    by_cases own : a = s.kernel.curr <;> simp [Kernel.setTask, taskView, own]
  · funext a
    refine (fields a).2.1.trans ?_
    by_cases own : a = s.kernel.curr <;> simp [Kernel.setTask, taskView, own]
  · funext a
    refine (fields a).2.2.1.trans ?_
    by_cases own : a = s.kernel.curr <;> simp [Kernel.setTask, taskView, own]
  · funext a
    refine (fields a).2.2.2.trans ?_
    by_cases own : a = s.kernel.curr <;>
      simp [Kernel.setTask, taskView, own, System.curr, systime]
  · change elems m _ = _
    rw [lists, moveTask_target _ (by simp)]
    rfl
  · change elems m _ = _
    rw [lists, moveTask_other _ (by simp) (by simp)]
    rfl

theorem wait_outcome (c : Conserved s) (marked : Marked s) {code : Int} {t : Tcb N}
    (body : s.ctl s.curr = .body code) (run : call s (.taskWait (some t)) = .ok s') :
    Outcome s (.call (.taskWait (some t))) s' := by
  have user := not_dispatcher c (t := s.curr) (by rw [body]; simp [role])
  by_cases ended : (s.kernel.task t).status = .terminated
  · obtain ⟨⟨k, r⟩, waited, rfl⟩ := map_ok run
    have known : taskWait s.kernel (some t) = .ok (s.kernel, some (-1)) := by
      simp [taskWait, ended]
    cases known.symm.trans waited
    exact quiet_outcome marked (by simp [taskEvent, ended])
      (quiet_goto (c := .body (-1)) (by rw [body]; rfl) (calm_refl _) rfl rfl)
  · obtain ⟨⟨k, r⟩, waited, rfl⟩ := map_ok run
    obtain ⟨m, known, lists⟩ := wait_exact c.placed user ended
    cases known.symm.trans waited
    refine ⟨suspended_marked marked c (.waitReturn t) rfl rfl rfl,
      suspended_dozing c rfl (by rw [lists, moveTask_other _ (by simp) (by simp)]), ?_⟩
    have fields := givenUp_fields (s.kernel.setTask s.kernel.curr fun d =>
      { d with waitingTask := (s.kernel.task t).id }) m
    have here : (taskView s).point s.curr = .active := by
      change waitPoint (s.ctl s.curr) = _
      rw [body]
      rfl
    have event : taskEvent s (.call (.taskWait (some t))) = .wait t := by
      simp [taskEvent, ended]
    rw [event]
    refine move_to (.wait t here fun out => ended ((marked t).mpr out))
      (TaskView.ext ?_ ?_ ?_ ?_ ?_ ?_ ?_ rfl)
    · exact point_update s s.curr (.waitReturn t)
    · funext a
      refine (fields a).1.trans ?_
      by_cases own : a = s.kernel.curr <;> simp [Kernel.setTask, taskView, own]
    · funext a
      refine (fields a).2.1.trans ?_
      by_cases own : a = s.kernel.curr <;> simp [Kernel.setTask, taskView, own, System.curr]
    · funext a
      refine (fields a).2.2.1.trans ?_
      by_cases own : a = s.kernel.curr <;> simp [Kernel.setTask, taskView, own]
    · funext a
      refine (fields a).2.2.2.trans ?_
      by_cases own : a = s.kernel.curr <;> simp [Kernel.setTask, taskView, own]
    · change elems m _ = _
      rw [lists, moveTask_other _ (by simp) (by simp)]
      rfl
    · change elems m _ = _
      rw [lists, moveTask_target _ (by simp)]
      rfl

omit [Fintype N] in
theorem resumed_fields (k : Kernel N) (condition : Task → Bool) (after : Task → Task)
    (l : List (Tcb N)) (t : Tcb N) :
    (resumedTasks k condition after l t = k.task t ∧
      ¬ (t ∈ l ∧ condition (k.task t) = true)) ∨
    (resumedTasks k condition after l t = after { k.task t with status := .ready } ∧
      t ∈ l ∧ condition (k.task t) = true) := by
  simp only [resumedTasks]
  split
  · rename_i moved
    exact Or.inr ⟨rfl, moved⟩
  · rename_i stays
    exact Or.inl ⟨rfl, stays⟩

theorem wake_outcome (c : Conserved s) (marked : Marked s) {start : UInt32} {m₁ m₂ : Bool}
    (here : s.ctl s.curr = .dispatcher (.wake start))
    (run : dispatcherStep s (.wake start) = .ok s') : Outcome s (.run m₁ m₂) s' := by
  have curr : s.curr = .dispatcherTask := (c.dispatcherRole _).mp (by rw [here]; rfl)
  obtain ⟨k, woken, rfl⟩ := map_ok run
  obtain ⟨m, known, lists⟩ := wake_exact c.placed
  cases known.symm.trans woken
  have each := resumed_fields s.kernel (fun d => d.wakeUpTime ≤ systime s.kernel) id
    (tasks s.kernel .sleepingTasks)
  have event : taskEvent s (.run m₁ m₂) = .wake := by simp [taskEvent, here]
  refine ⟨marked_update marked fun t => ?_, fun dozing => ?_, ?_⟩
  · by_cases own : t = .dispatcherTask
    · subst own
      have out : (.dispatcherTask : Tcb N) ∉ tasks s.kernel .sleepingTasks := fun mem =>
        ((c.placed.queued _).mp ⟨_, mem⟩).2 rfl
      refine Or.inr ⟨?_, by simp [waitPoint]⟩
      have going : (s.kernel.task .dispatcherTask).status ≠ .terminated := fun ended =>
        live_not_ended c.placed.dispatcher ((marked _).mp ended)
      simpa [resumedTasks, out] using going
    · rcases each t with ⟨same, _⟩ | ⟨same, mem, _⟩
      · refine Or.inl ⟨?_, by simp [own]⟩
        dsimp only [System.goto_kernel, System.withKernel_kernel]
        rw [same]
      · refine Or.inr ⟨?_, ?_⟩
        · dsimp only [System.goto_kernel, System.withKernel_kernel]
          rw [same]
          simp
        · have alive := ((c.placed.queued t).mp ⟨_, mem⟩).1
          simpa [own] using live_not_ended alive
  · have same : elems m .diskQueue = tasks s.kernel .diskQueue := by
      rw [lists, resumeLists_other _ _ _ (by simp) (by simp)]
    refine dozing_update dozing (fun t mem => same ▸ mem) fun t mem _ => Or.inl ?_
    rcases each t with ⟨stays, _⟩ | ⟨_, moved, _⟩
    · exact congrArg Task.status stays
    · cases c.placed.wellFormed.unique mem moved
  · rw [event]
    refine move_to .wake (TaskView.ext ?_ ?_ ?_ ?_ ?_ ?_ ?_ rfl)
    · change (fun u => waitPoint (Function.update s.ctl .dispatcherTask _ u)) = _
      rw [point_update]
      exact Function.update_eq_self_iff.mpr (by rw [← curr, here]; rfl)
    · funext t
      change (resumedTasks _ _ _ _ t).id = _
      rcases each t with ⟨same, _⟩ | ⟨same, _⟩ <;> rw [same] <;> rfl
    · funext t
      change (resumedTasks _ _ _ _ t).waitingTask = _
      rcases each t with ⟨same, _⟩ | ⟨same, _⟩ <;> rw [same] <;> rfl
    · funext t
      change (resumedTasks _ _ _ _ t).exitCode = _
      rcases each t with ⟨same, _⟩ | ⟨same, _⟩ <;> rw [same] <;> rfl
    · funext t
      change (resumedTasks _ _ _ _ t).wakeUpTime = _
      rcases each t with ⟨same, _⟩ | ⟨same, _⟩ <;> rw [same] <;> rfl
    · change elems m _ = _
      rw [lists, resumeLists_source _ _ _ (by simp), List.append_nil]
      rfl
    · change elems m _ = _
      rw [lists, resumeLists_other _ _ _ (by simp) (by simp)]
      rfl

theorem exit_outcome (c : Conserved s) (marked : Marked s) {returned code : Int}
    (body : s.ctl s.curr = .body returned) (run : call s (.taskExit code) = .ok s') :
    Outcome s (.call (.taskExit code)) s' := by
  have user := not_dispatcher c (t := s.curr) (by rw [body]; simp [role])
  obtain ⟨k, ended, rfl⟩ := map_ok run
  obtain ⟨clock, task, lists⟩ := exit_exact c.placed user ended
  have each := resumed_fields (exitRecord s.kernel code)
    (fun d => d.waitingTask = (s.kernel.task s.kernel.curr).id)
    (fun d => { d with waitingTask := -1 }) (tasks s.kernel .suspendedTasks)
  have record : ∀ t, t ≠ s.curr → (exitRecord s.kernel code).task t = s.kernel.task t :=
    fun t other => exitRecord_other _ _ other
  have own : ((exitRecord s.kernel code).task s.curr).status = .terminated ∧
      ((exitRecord s.kernel code).task s.curr).exitCode = code ∧
      ((exitRecord s.kernel code).task s.curr).waitingTask =
        (s.kernel.task s.curr).waitingTask ∧
      ((exitRecord s.kernel code).task s.curr).wakeUpTime =
        (s.kernel.task s.curr).wakeUpTime := by
    simp [exitRecord, Kernel.setStatus, Kernel.setTask, System.curr]
  -- the task that ends is ready, so it is not among those it wakes
  have awake : s.curr ∉ tasks s.kernel .suspendedTasks := current_nowhere_else c.placed (by simp)
  refine ⟨fun t => ?_, fun dozing => ?_, ?_⟩
  · dsimp only [System.goto_kernel, System.withKernel_kernel, System.goto_ctl,
      System.withKernel_ctl]
    rw [task]
    by_cases same : t = s.curr
    · subst same
      rw [Function.update_self]
      rcases each s.curr with ⟨stays, _⟩ | ⟨_, mem, _⟩
      · rw [stays]
        exact iff_of_true own.1 rfl
      · exact absurd mem awake
    · rw [Function.update_of_ne same]
      rcases each t with ⟨stays, _⟩ | ⟨moved, mem, _⟩
      · rw [stays, record t same]
        exact marked t
      · rw [moved]
        have alive := ((c.placed.queued t).mp ⟨_, mem⟩).1
        exact iff_of_false (by simp) (live_not_ended alive)
  · have same : tasks k .diskQueue = tasks s.kernel .diskQueue := by
      rw [lists, listRemove_other _ _ (by simp), resumeLists_other _ _ _ (by simp) (by simp)]
    refine dozing_update dozing (fun t mem => same ▸ mem) fun t mem _ => Or.inl ?_
    have other : t ≠ s.curr := by
      rintro rfl
      exact current_nowhere_else c.placed (by simp) mem
    change (k.task t).status = (s.kernel.task t).status
    rw [task]
    rcases each t with ⟨stays, _⟩ | ⟨_, moved, _⟩
    · rw [stays, record t other]
    · cases c.placed.wellFormed.unique mem moved
  · have here : (taskView s).point s.curr = .active := by
      change waitPoint (s.ctl s.curr) = _
      rw [body]
      rfl
    refine move_to (.exit code here) (TaskView.ext ?_ ?_ ?_ ?_ ?_ ?_ ?_ clock)
    · exact point_update s s.curr .terminated
    · funext t
      change (k.task t).id = (s.kernel.task t).id
      rw [task, ← exitRecord_id s.kernel code t]
      rcases each t with ⟨same, _⟩ | ⟨same, _⟩ <;> rw [same]
    · funext t
      change (k.task t).waitingTask = if t ∈ tasks s.kernel .suspendedTasks ∧
        (s.kernel.task t).waitingTask = (s.kernel.task s.curr).id then -1
        else (s.kernel.task t).waitingTask
      rw [task]
      by_cases same : t = s.curr
      · subst same
        rw [if_neg fun both => awake both.1]
        rcases each s.curr with ⟨stays, _⟩ | ⟨_, mem, _⟩
        · rw [stays]
          exact own.2.2.1
        · exact absurd mem awake
      · rcases each t with ⟨stays, no⟩ | ⟨moved, yes⟩
        · rw [record t same] at no stays
          rw [stays, if_neg (by simpa [System.curr] using no)]
        · rw [record t same] at yes
          rw [moved, if_pos (by simpa [System.curr] using yes)]
    · funext t
      change (k.task t).exitCode = Function.update (fun u => (s.kernel.task u).exitCode)
        s.curr code t
      rw [task]
      by_cases same : t = s.curr
      · subst same
        rw [Function.update_self]
        rcases each s.curr with ⟨stays, _⟩ | ⟨_, mem, _⟩
        · rw [stays]
          exact own.2.1
        · exact absurd mem awake
      · rw [Function.update_of_ne same]
        rcases each t with ⟨stays, _⟩ | ⟨moved, _⟩
        · rw [stays, record t same]
        · rw [moved, record t same]
    · funext t
      change (k.task t).wakeUpTime = (s.kernel.task t).wakeUpTime
      rw [task]
      by_cases same : t = s.curr
      · subst same
        rcases each s.curr with ⟨stays, _⟩ | ⟨_, mem, _⟩
        · rw [stays]
          exact own.2.2.2
        · exact absurd mem awake
      · rcases each t with ⟨stays, _⟩ | ⟨moved, _⟩
        · rw [stays, record t same]
        · rw [moved, record t same]
    · change tasks k _ = _
      rw [lists, listRemove_other _ _ (by simp), resumeLists_other _ _ _ (by simp) (by simp)]
      rfl
    · change tasks k _ = _
      rw [lists, listRemove_other _ _ (by simp), resumeLists_source _ _ _ (by simp),
        List.append_nil]
      rfl

/-- A new task: the descriptor of t is set up and joins the ready tasks. -/
theorem init_outcome (c : Conserved s) (marked : Marked s) {l : Label N} {t : Tcb N}
    (event : taskEvent s l = .init t) (idle : live (s.ctl t) = false) {old : Ctl N}
    (own new : Ctl N)
    (here : s.ctl s.curr = old) (active : waitPoint old = .active)
    (active' : waitPoint new = .active) (own' : waitPoint own = .active)
    (ctl : s'.ctl = Function.update (Function.update s.ctl t own) s.curr new)
    (clock : s'.kernel.sysclock = s.kernel.sysclock)
    (task : s'.kernel.task =
      Function.update s.kernel.task t (initialTask (nextId s.kernel) s.kernel.sysclock))
    (sleeping : tasks s'.kernel .sleepingTasks = tasks s.kernel .sleepingTasks)
    (suspended : tasks s'.kernel .suspendedTasks = tasks s.kernel .suspendedTasks)
    (disk : tasks s'.kernel .diskQueue = tasks s.kernel .diskQueue) : Outcome s l s' := by
  have other : s.curr ≠ t := by
    intro same
    rw [← same, here] at idle
    rcases idle_points idle with off | off <;> rw [active] at off <;> cases off
  have points : ∀ u, waitPoint (s'.ctl u) = if u = t then .active else waitPoint (s.ctl u) := by
    intro u
    rw [ctl, Function.update_apply, Function.update_apply]
    by_cases atCurr : u = s.curr
    · subst atCurr
      rw [if_pos rfl, if_neg other, active', here, active]
    · rw [if_neg atCurr]
      split
      · exact own'
      · rfl
  refine ⟨fun u => ?_, fun dozing => ?_, ?_⟩
  · rw [points u, task, Function.update_apply]
    split
    · simp [initialTask]
    · exact marked u
  · refine dozing_update dozing (fun u mem => disk ▸ mem) fun u mem _ => Or.inl ?_
    have old : u ≠ t := by
      rintro rfl
      have alive := ((c.placed.queued u).mp ⟨_, mem⟩).1
      rw [liveTasks, idle] at alive
      cases alive
    rw [task, Function.update_of_ne old]
  · rw [event]
    refine move_to (.init t (nextId s.kernel) (idle_points idle))
      (TaskView.ext ?_ ?_ ?_ ?_ ?_ sleeping suspended clock)
    · funext u
      change waitPoint (s'.ctl u) = Function.update (fun u => waitPoint (s.ctl u)) t .active u
      rw [points u, Function.update_apply]
    · funext u
      change (s'.kernel.task u).id =
        Function.update (fun u => (s.kernel.task u).id) t (nextId s.kernel) u
      rw [task, Function.update_apply, Function.update_apply]
      split <;> simp only [initialTask]
    · funext u
      change (s'.kernel.task u).waitingTask =
        Function.update (fun u => (s.kernel.task u).waitingTask) t _ u
      rw [task, Function.update_apply, Function.update_apply]
      split <;> rfl
    · funext u
      change (s'.kernel.task u).exitCode =
        Function.update (fun u => (s.kernel.task u).exitCode) t _ u
      rw [task, Function.update_apply, Function.update_apply]
      split <;> rfl
    · funext u
      change (s'.kernel.task u).wakeUpTime =
        Function.update (fun u => (s.kernel.task u).wakeUpTime) t 0 u
      rw [task, Function.update_apply, Function.update_apply]
      split <;> simp only [initialTask]

theorem taskInit_outcome (c : Conserved s) (marked : Marked s) {code : Int} {t : Tcb N}
    {stack : Bool} (body : s.ctl s.curr = .body code) (idle : live (s.ctl t) = false)
    (run : call s (.taskInit t stack) = .ok s') : Outcome s (.call (.taskInit t stack)) s' := by
  obtain ⟨⟨k, id⟩, born, rfl⟩ := map_ok run
  cases stack with
  | false => cases born
  | true =>
    obtain ⟨m, known, lists⟩ := init_exact c.placed idle
    cases known.symm.trans born
    refine init_outcome c marked rfl idle (.body 0) (.body (nextId s.kernel)) body
      rfl rfl rfl rfl rfl rfl ?_ ?_ ?_
    · change elems m _ = _
      rw [lists, listAppend_other _ _ (by simp)]
    · change elems m _ = _
      rw [lists, listAppend_other _ _ (by simp)]
    · change elems m _ = _
      rw [lists, listAppend_other _ _ (by simp)]

theorem diskMgrInit_outcome (c : Conserved s) (marked : Marked s) {code : Int}
    {host stack : Bool} (body : s.ctl s.curr = .body code)
    (permitted : Permitted s (.call (.diskMgrInit host stack)))
    (run : diskMgrInit s host stack = .ok s') :
    Outcome s (.call (.diskMgrInit host stack)) s' := by
  have active : waitPoint (s.ctl s.curr) = .active := by rw [body]; rfl
  by_cases fresh : s.device.status = .unknown
  · obtain ⟨idle, noWaiters⟩ := permitted fresh
    unfold diskMgrInit at run
    rw [if_neg (by simp [diskInit, fresh])] at run
    split at run
    · cases run
    · dsimp only at run
      have blocks : (diskInit s.device).1.numblocks = s.device.fileBlocks := by
        simp [diskInit, fresh]
      have bytes : (diskInit s.device).1.blocksize = diskBlockSize := by
        simp [diskInit, fresh]
      split at run
      · rename_i negative
        cases run
        rw [blocks, bytes] at negative
        have event : taskEvent s (.call (.diskMgrInit host stack)) = .other := by
          have empty : ¬ 0 ≤ s.device.fileBlocks := by
            rcases negative with few | few
            · omega
            · simp [diskBlockSize] at few
          simp [taskEvent, fresh, empty]
        exact quiet_outcome marked event (quiet_goto (c := .body (-1)) active (calm_refl _) rfl rfl)
      · rename_i some
        rw [blocks] at some
        obtain ⟨⟨k, id⟩, born, rfl⟩ := map_ok run
        obtain ⟨first, lists₁, _, _⟩ := semInit_kept c.placed noWaiters 1
        cases stack with
        | false => cases born
        | true =>
          obtain ⟨m, known, lists⟩ := init_exact first.placed idle
          cases known.symm.trans born
          have event : taskEvent s (.call (.diskMgrInit host true)) = .init .diskDriverTask := by
            have full : 0 ≤ s.device.fileBlocks := not_lt.mp fun few => some (Or.inl few)
            simp [taskEvent, fresh, full]
          have queues : ∀ q, q ≠ .readyTasks → elems m q = tasks s.kernel q := by
            intro q notReady
            rw [lists, listAppend_other _ _ notReady]
            exact congrFun lists₁ q
          dsimp only
          split
          · exact init_outcome c marked event idle (.driver .down) (.body (-1))
              body rfl rfl rfl rfl rfl rfl (queues _ (by simp)) (queues _ (by simp))
              (queues _ (by simp))
          · exact init_outcome c marked event idle (.driver .down) (.body 0)
              body rfl rfl rfl rfl rfl rfl (queues _ (by simp)) (queues _ (by simp))
              (queues _ (by simp))
  · unfold diskMgrInit at run
    rw [if_pos (by simp [diskInit, fresh])] at run
    cases run
    exact quiet_outcome marked (by simp [taskEvent, fresh]) (quiet_answer active)

theorem quiet_switch (c : Conserved s) {t : Tcb N} {code : Int} {k : Kernel N}
    (body : s.ctl s.curr = .body code)
    (target : t = .dispatcherTask ∨ t ∈ tasks s.kernel .readyTasks)
    (run : taskSwitch s.kernel (some t) = .ok k) :
    Quiet s ((s.withKernel k).goto s.curr (.body 0)) :=
  quiet_goto (by rw [body]; rfl) (calm_switch c.placed target run) rfl (by rfl)

theorem quiet_mqueueInit (c : Conserved s) {code : Int} (body : s.ctl s.curr = .body code)
    {q : Nat} {max size : Int}
    (permitted : Permitted s (.call (.mqueueInit (some q) max size))) :
    Quiet s (mqueueInit s (some q) max size) := by
  obtain ⟨noBuffer, noItem, noVaga⟩ := permitted
  obtain ⟨first, lists₁, _, _⟩ := semInit_kept c.placed noBuffer 1
  obtain ⟨second, lists₂, _, _⟩ := semInit_kept first.placed (s := .sItem q)
    (by rw [lists₁]; exact noItem) 0
  refine quiet_goto (c := .body 0) (by rw [body]; rfl) ?_ rfl rfl
  refine calm_trans (calm_semInit c.placed noBuffer 1) (calm_trans
    (calm_semInit first.placed (by rw [lists₁]; exact noItem) 0) ?_)
  exact calm_semInit second.placed (by rw [lists₂, lists₁]; exact noVaga) max

theorem call_outcome (c : Conserved s) (marked : Marked s) {code : Int}
    (body : s.ctl s.curr = .body code) {call' : Call N} (permitted : Permitted s (.call call'))
    (run : call s call' = .ok s') : Outcome s (.call call') s' := by
  have active : waitPoint (s.ctl s.curr) = .active := by rw [body]; rfl
  have user := not_dispatcher c (t := s.curr) (by rw [body]; simp [role])
  cases call' with
  | taskInit t stack => exact taskInit_outcome c marked body permitted.1 run
  | taskSleep t => exact sleep_outcome c marked body run
  | taskExit code => exact exit_outcome c marked body run
  | diskMgrInit host stack => exact diskMgrInit_outcome c marked body permitted run
  | taskWait t =>
    cases t with
    | some t => exact wait_outcome c marked body run
    | none =>
      cases run
      exact quiet_outcome marked rfl (quiet_goto active (calm_refl _) rfl (by rfl))
  | taskYield =>
    simp only [call, taskYield] at run
    obtain ⟨k, switched, rfl⟩ := map_ok run
    exact quiet_outcome marked rfl (quiet_switch c body (Or.inl rfl) switched)
  | taskSwitch t =>
    cases t with
    | none => cases run
    | some t =>
      simp only [call] at run
      obtain ⟨k, switched, rfl⟩ := map_ok run
      exact quiet_outcome marked rfl (quiet_switch c body permitted switched)
  | taskSetprio t prio =>
    cases run
    have calm : Calm (liveTasks s) s.kernel (taskSetprio s.kernel t prio) :=
      calm_setTask _ _ (fun _ => rfl) (fun _ => rfl) (fun _ => rfl) (fun _ => rfl) fun _ => rfl
    exact quiet_outcome marked rfl (quiet_goto active calm rfl (by rfl))
  | semInit n value =>
    cases n with
    | none =>
      cases run
      exact quiet_outcome marked rfl (quiet_goto active (calm_refl _) rfl (by rfl))
    | some n =>
      cases run
      exact quiet_outcome marked rfl
        (quiet_goto active (calm_semInit c.placed permitted value) rfl (by rfl))
  | semDown n =>
    cases run
    refine quiet_outcome marked rfl ?_
    cases n with
    | none => exact quiet_answer active
    | some n =>
      simp only [semDownCall]
      split
      · exact quiet_answer active
      · exact quiet_goto active (calm_refl _) rfl (by rfl)
  | semUp n =>
    cases run
    refine quiet_outcome marked rfl ?_
    cases n with
    | none => exact quiet_answer active
    | some n =>
      simp only [semUpCall]
      split
      · exact quiet_answer active
      · exact quiet_goto active (calm_refl _) rfl (by rfl)
  | semDestroy n =>
    obtain ⟨⟨k, r⟩, destroyed, rfl⟩ := map_ok run
    refine quiet_outcome marked rfl ?_
    cases n with
    | none =>
      cases destroyed
      exact quiet_goto active (calm_refl _) rfl (by rfl)
    | some n =>
      obtain ⟨k', r', known, curr, _⟩ := semDestroy_kept c.placed (.user n)
      cases known.symm.trans destroyed
      refine quiet_goto (c := .body r) active (calm_semDestroy c.placed destroyed) ?_ rfl
      simp only [System.answer, System.curr, System.withKernel_kernel, curr, System.goto_ctl,
        System.withKernel_ctl]
  | mqueueInit q max size =>
    cases run
    refine quiet_outcome marked rfl ?_
    cases q with
    | none => exact quiet_answer active
    | some q => exact quiet_mqueueInit c body permitted
  | mqueueSend q msg =>
    cases run
    refine quiet_outcome marked rfl ?_
    cases q with
    | none => exact quiet_answer active
    | some q =>
      cases msg with
      | none => exact quiet_answer active
      | some a =>
        simp only [mqueueSendCall]
        split
        · exact quiet_answer active
        · exact quiet_goto active (calm_refl _) rfl (by rfl)
  | mqueueRecv q msg =>
    cases run
    refine quiet_outcome marked rfl ?_
    cases q with
    | none => exact quiet_answer active
    | some q =>
      cases msg with
      | none => exact quiet_answer active
      | some a =>
        simp only [mqueueRecvCall]
        split
        · exact quiet_answer active
        · exact quiet_goto active (calm_refl _) rfl (by rfl)
  | mqueueDestroy q =>
    cases run
    refine quiet_outcome marked rfl ?_
    cases q with
    | none => exact quiet_answer active
    | some q => exact quiet_goto active (calm_refl _) rfl (by rfl)
  | taskGetprio task =>
    cases run
    exact quiet_outcome marked rfl (quiet_answer active)
  | mqueueMsgs q =>
    cases q with
    | none => cases run
    | some q =>
      cases run
      exact quiet_outcome marked rfl (quiet_answer active)
  | diskBlockRead block buffer =>
    obtain ⟨⟨k, r⟩, down, rfl⟩ := map_ok run
    exact quiet_outcome marked rfl
      (quiet_goto active (calm_semDown c.placed user down) rfl (by rfl))
  | diskBlockWrite block buffer =>
    obtain ⟨⟨k, r⟩, down, rfl⟩ := map_ok run
    exact quiet_outcome marked rfl
      (quiet_goto active (calm_semDown c.placed user down) rfl (by rfl))
  | store address byte =>
    cases run
    exact quiet_outcome marked rfl (quiet_goto active (calm_refl _) rfl (by rfl))

theorem dispatcher_outcome (c : Conserved s) (marked : Marked s) {point : DispatcherPoint N}
    (here : s.ctl s.curr = .dispatcher point) {m₁ m₂ : Bool}
    (run : dispatcherStep s point = .ok s') : Outcome s (.run m₁ m₂) s' := by
  have curr : s.curr = .dispatcherTask := (c.dispatcherRole _).mp (by rw [here]; rfl)
  have here' := here
  rw [curr] at here'
  have active : waitPoint (s.ctl s.curr) = .active := by rw [here]; rfl
  -- the loop stays inside the dispatcher
  have loops : ∀ {k : Kernel N} {p : DispatcherPoint N}, Calm (liveTasks s) s.kernel k →
      Quiet s ((s.withKernel k).goto .dispatcherTask (.dispatcher p)) := fun calm =>
    quiet_goto active calm (by rw [curr]; rfl) (by rfl)
  have charge : ∀ (k : Kernel N) (t : Tcb N) (f : Task → Task), (∀ d, (f d).id = d.id ∧
      (f d).waitingTask = d.waitingTask ∧ (f d).exitCode = d.exitCode ∧
      (f d).wakeUpTime = d.wakeUpTime ∧ (f d).status = d.status) →
      Calm (liveTasks s) k (k.setTask t f) := fun k t f same =>
    calm_setTask k t (fun d => (same d).1) (fun d => (same d).2.1) (fun d => (same d).2.2.1)
      (fun d => (same d).2.2.2.1) fun d => (same d).2.2.2.2
  cases point with
  | top =>
    simp only [dispatcherStep] at run
    split at run
    · cases run
      exact quiet_outcome marked (by simp [taskEvent, here]) (loops (calm_refl _))
    · obtain ⟨k, ended, _⟩ := map_ok run
      rw [taskExit_dispatcher c.placed curr c.dispatcherId] at ended
      cases ended
  | wake start => exact wake_outcome c marked here run
  | schedule start =>
    obtain ⟨⟨next, k⟩, picked, rfl⟩ := map_ok run
    refine quiet_outcome marked (by simp [taskEvent, here]) ?_
    rcases scheduler_kept c.placed with ⟨_, known⟩ | ⟨t, mem, known, kept⟩
    · rw [known, Except.ok.injEq, Prod.mk.injEq] at picked
      obtain ⟨rfl, rfl⟩ := picked
      exact loops (charge _ _ _ fun _ => ⟨rfl, rfl, rfl, rfl, rfl⟩)
    · rw [known, Except.ok.injEq, Prod.mk.injEq] at picked
      obtain ⟨rfl, rfl⟩ := picked
      exact loops (calm_schedule _ _)
  | dispatch start next =>
    simp only [dispatcherStep] at run
    obtain ⟨k, switched, rfl⟩ := map_ok run
    obtain ⟨_, mem⟩ := c.chosen start next here'
    have first := kept_setTask c.placed .dispatcherTask
      (f := fun d => { d with activations := d.activations + 1 }) (fun _ => rfl) fun _ => rfl
    have second := kept_trans first (kept_setTask first.placed next
      (f := fun d => { d with activations := d.activations + 1 }) (fun _ => rfl) fun _ => rfl)
    have third := kept_trans second (kept_setTask second.placed .dispatcherTask
      (f := fun d => { d with processorTime := d.processorTime + (systime s.kernel - start) })
      (fun _ => rfl) fun _ => rfl)
    have fourth := kept_trans third (kept_setTask third.placed next
      (f := fun d => { d with quantum := 0 }) (fun _ => rfl) fun _ => rfl)
    have calm := calm_switch fourth.placed (Or.inr mem) switched
    refine quiet_outcome marked (by simp [taskEvent, here]) (loops (calm_trans ?_ calm))
    have older := calm_trans (charge s.kernel .dispatcherTask
      (fun d => { d with activations := d.activations + 1 }) fun _ => ⟨rfl, rfl, rfl, rfl, rfl⟩)
      (charge _ next (fun d => { d with activations := d.activations + 1 })
        fun _ => ⟨rfl, rfl, rfl, rfl, rfl⟩)
    exact calm_trans (calm_trans older (charge _ .dispatcherTask (fun d =>
        { d with processorTime := d.processorTime + (systime s.kernel - start) })
        fun _ => ⟨rfl, rfl, rfl, rfl, rfl⟩))
      (charge _ next (fun d => { d with quantum := 0 }) fun _ => ⟨rfl, rfl, rfl, rfl, rfl⟩)
  | back next start =>
    cases run
    have first := charge s.kernel next
      (fun d => { d with processorTime := d.processorTime + (systime s.kernel - start) })
      fun _ => ⟨rfl, rfl, rfl, rfl, rfl⟩
    refine quiet_outcome marked (by simp [taskEvent, here]) (loops (calm_trans first ?_))
    exact charge _ .dispatcherTask (fun d =>
      { d with processorTime := d.processorTime + (systime s.kernel - systime s.kernel) })
      fun _ => ⟨rfl, rfl, rfl, rfl, rfl⟩

theorem advance_outcome (c : Conserved s) (marked : Marked s) {m₁ m₂ : Bool}
    (go : step s (.run m₁ m₂) = some (.ok s')) : Outcome s (.run m₁ m₂) s' := by
  simp only [step, advance] at go
  have quiet : ∀ {ctl : Ctl N}, s.ctl s.curr = ctl → (∀ t, ctl ≠ .waitReturn t) →
      (∀ p, ctl ≠ .dispatcher p) → Quiet s s' → Outcome s (.run m₁ m₂) s' := by
    intro ctl here noWait noDispatcher q
    refine quiet_outcome marked ?_ q
    simp only [taskEvent, here]
    cases ctl with
    | waitReturn t => exact absurd rfl (noWait t)
    | dispatcher p => exact absurd rfl (noDispatcher p)
    | _ => rfl
  cases here : s.ctl s.curr with
  | unborn => rw [here] at go; cases go
  | terminated => rw [here] at go; cases go
  | body code => rw [here] at go; cases go
  | waitReturn t =>
    rw [here] at go
    cases go
    refine ⟨marked_update marked fun u => ?_, id, ?_⟩
    · by_cases own : u = s.curr
      · subst own
        refine Or.inr ⟨fun ended => ?_, by simp [System.answer, waitPoint]⟩
        have out := (marked _).mp ended
        rw [here] at out
        cases out
      · exact Or.inl ⟨rfl, by simp [System.answer, own]⟩
    · have point : (taskView s).point s.curr = .awaits t := by
        change waitPoint (s.ctl s.curr) = _
        rw [here]
        rfl
      simp only [taskEvent, here]
      refine move_to (.finish t point) (TaskView.ext ?_ rfl rfl rfl rfl rfl rfl rfl)
      exact point_update s s.curr _
  | semDown n p =>
    rw [here] at go
    exact quiet here (by simp) (by simp) (quiet_semDown c here (Option.some.inj go))
  | semUp n p =>
    rw [here] at go
    exact quiet here (by simp) (by simp) (quiet_semUp c here (Option.some.inj go))
  | send q a p =>
    rw [here] at go
    exact quiet here (by simp) (by simp) (quiet_send c here (Option.some.inj go))
  | recv q a p =>
    rw [here] at go
    exact quiet here (by simp) (by simp) (quiet_recv c here (Option.some.inj go))
  | destroy q p =>
    rw [here] at go
    exact quiet here (by simp) (by simp) (quiet_destroy c here (Option.some.inj go))
  | blockOp block buffer op p =>
    rw [here] at go
    exact quiet here (by simp) (by simp) (quiet_blockOp c here (Option.some.inj go))
  | driver p =>
    rw [here] at go
    exact quiet here (by simp) (by simp) (quiet_driver c here (Option.some.inj go))
  | dispatcher p =>
    rw [here] at go
    exact dispatcher_outcome c marked here (Option.some.inj go)

theorem step_outcome (c : Conserved s) (marked : Marked s) {l : Label N}
    (go : Operates s l s') : Outcome s l s' := by
  obtain ⟨run, permitted⟩ := go
  cases l with
  | tick => exact tick_outcome c marked run
  | completion =>
    obtain ⟨op, handled⟩ := completion_runs run
    exact quiet_outcome marked rfl (quiet_sighandle c handled)
  | call call' =>
    obtain ⟨code, body, run⟩ := call_runs run
    exact call_outcome c marked body permitted run
  | run m₁ m₂ => exact advance_outcome c marked run

end Steps

end TaskEvents
