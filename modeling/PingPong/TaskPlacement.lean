import PingPong.KernelEffects

/-! Where the tasks are: each kernel operation keeps every live task in exactly one
   queue, and touches only the queues and semaphores it is about. -/
namespace TaskPlacement
open MachineModel CircularList QueueModel KernelModel KernelEffects
variable {N : Type} [DecidableEq N] [Fintype N]

abbrev tasks (k : Kernel N) : TaskLists N := elems k.queues

/-- Disjointness of the queues is part of Represents. -/
structure Placed (live : Tcb N → Bool) (k : Kernel N) : Prop where
  wellFormed : Represents k.queues (tasks k)
  queued : ∀ t, (∃ q, t ∈ tasks k q) ↔ live t = true ∧ t ≠ .dispatcherTask
  running : k.curr = .dispatcherTask ∨ k.curr ∈ tasks k .readyTasks
  dispatcher : live .dispatcherTask = true

/-- What an operation leaves alone besides ready_tasks and the queues and semaphores named; live and
    live' are the live tasks before and after it. -/
structure Moved (live live' : Tcb N → Bool) (touched : List TaskQueue) (sems : List SemAddr)
    (k k' : Kernel N) : Prop where
  placed : Placed live' k'
  lists : ∀ q, q ≠ .readyTasks → q ∉ touched → tasks k' q = tasks k q
  sem : ∀ a, a ∉ sems → k'.sem a = k.sem a
  counters : live' = live →
    k'.userTasksNum = k.userTasksNum ∧ k'.lastTaskId = k.lastTaskId
  ids : ∀ t, live' t = live t → (k'.task t).id = (k.task t).id
  dormant : ∀ t, live t = false → live' t = false → (k'.task t).status = (k.task t).status

/-- An operation that creates and ends no task. -/
abbrev Kept (live : Tcb N → Bool) (touched : List TaskQueue) (sems : List SemAddr)
    (k k' : Kernel N) : Prop := Moved live live touched sems k k'

section Lists

omit [Fintype N] in
theorem mem_moveTask {m : Queues TaskQueue (Tcb N)} {qs : TaskLists N} (r : Represents m qs)
    {p q p' : TaskQueue} {t a : Tcb N} :
    a ∈ moveTask qs p q t p' ↔ (a ∈ qs p' ∧ ¬ (p' = p ∧ a = t)) ∨ (p' = q ∧ a = t) := by
  rw [moveTask, mem_listAppend, r.mem_remove]

omit [Fintype N] in
theorem queued_moveTask {m : Queues TaskQueue (Tcb N)} {qs : TaskLists N}
    (r : Represents m qs) {p q : TaskQueue} {t : Tcb N} (mem : t ∈ qs p) (a : Tcb N) :
    (∃ p', a ∈ moveTask qs p q t p') ↔ ∃ p', a ∈ qs p' := by
  constructor
  · rintro ⟨p', inside⟩
    rcases (mem_moveTask r).mp inside with ⟨old, _⟩ | ⟨_, rfl⟩
    · exact ⟨p', old⟩
    · exact ⟨p, mem⟩
  · rintro ⟨p', old⟩
    by_cases same : a = t
    · exact ⟨q, (mem_moveTask r).mpr (Or.inr ⟨rfl, same⟩)⟩
    · exact ⟨p', (mem_moveTask r).mpr (Or.inl ⟨old, fun both => same both.2⟩)⟩

omit [DecidableEq N] [Fintype N] in
theorem queued_resumeLists {qs : TaskLists N} {q : TaskQueue} (notReady : q ≠ .readyTasks)
    (condition : Tcb N → Bool) (a : Tcb N) :
    (∃ p, a ∈ resumeLists qs q condition (qs q) [] p) ↔ ∃ p, a ∈ qs p := by
  have source : resumeLists qs q condition (qs q) [] q =
      (qs q).filter (fun t => !condition t) := by
    rw [resumeLists_source _ _ _ notReady, List.append_nil]
  have target : resumeLists qs q condition (qs q) [] .readyTasks =
      qs .readyTasks ++ (qs q).filter condition := resumeLists_target _ _ _
  constructor
  · rintro ⟨p, inside⟩
    by_cases pq : p = q
    · rw [pq, source] at inside
      exact ⟨q, (List.mem_filter.mp inside).1⟩
    · by_cases pr : p = .readyTasks
      · rw [pr, target, List.mem_append] at inside
        rcases inside with old | moved
        · exact ⟨.readyTasks, old⟩
        · exact ⟨q, (List.mem_filter.mp moved).1⟩
      · rw [resumeLists_other _ _ _ pq pr] at inside
        exact ⟨p, inside⟩
  · rintro ⟨p, old⟩
    by_cases pr : p = .readyTasks
    · exact ⟨.readyTasks, by rw [target, List.mem_append]; exact Or.inl (pr ▸ old)⟩
    · by_cases pq : p = q
      · subst pq
        cases holds : condition a with
        | true =>
          refine ⟨.readyTasks, ?_⟩
          rw [target, List.mem_append, List.mem_filter]
          exact Or.inr ⟨old, holds⟩
        | false =>
          refine ⟨p, ?_⟩
          rw [source, List.mem_filter]
          exact ⟨old, by simp [holds]⟩
      · exact ⟨p, by rwa [resumeLists_other _ _ _ pq pr]⟩

end Lists

variable {live : Tcb N → Bool} {k k' : Kernel N}

theorem current_ready (p : Placed live k) (user : k.curr ≠ .dispatcherTask) :
    k.curr ∈ tasks k .readyTasks := p.running.resolve_left user

theorem current_live (p : Placed live k) : live k.curr = true := by
  rcases p.running with same | mem
  · rw [same]; exact p.dispatcher
  · exact ((p.queued _).mp ⟨_, mem⟩).1

/-- The dispatcher is in no queue, and a task is in at most one. -/
theorem current_nowhere_else (p : Placed live k) {q : TaskQueue} (other : q ≠ .readyTasks) :
    k.curr ∉ tasks k q := by
  intro mem
  rcases p.running with same | ready
  · exact ((p.queued _).mp ⟨q, mem⟩).2 same
  · exact other (p.wellFormed.unique mem ready)

/-- Operations that write neither a queue nor curr. -/
theorem kept_fields (p : Placed live k) {touched : List TaskQueue} {sems : List SemAddr}
    (queues : k'.queues = k.queues) (curr : k'.curr = k.curr)
    (sem : ∀ a, a ∉ sems → k'.sem a = k.sem a)
    (counters : k'.userTasksNum = k.userTasksNum ∧ k'.lastTaskId = k.lastTaskId)
    (ids : ∀ t, (k'.task t).id = (k.task t).id)
    (dormant : ∀ t, live t = false → (k'.task t).status = (k.task t).status) :
    Kept live touched sems k k' := by
  have same : tasks k' = tasks k := by rw [tasks, queues]
  refine ⟨⟨?_, ?_, ?_, p.dispatcher⟩, fun q _ _ => by rw [same], sem, fun _ => counters,
    fun t _ => ids t, fun t off _ => dormant t off⟩
  · rw [same, queues]; exact p.wellFormed
  · rw [same]; exact p.queued
  · rw [same, curr]; exact p.running

theorem kept_then {live' : Tcb N → Bool} {touched : List TaskQueue} {sems : List SemAddr}
    {k'' : Kernel N} (first : Kept live touched sems k k')
    (second : Moved live live' touched sems k' k'') : Moved live live' touched sems k k'' :=
  ⟨second.placed,
   fun q ready out => (second.lists q ready out).trans (first.lists q ready out),
   fun a out => (second.sem a out).trans (first.sem a out),
   fun same => ⟨(second.counters same).1.trans (first.counters rfl).1,
    (second.counters same).2.trans (first.counters rfl).2⟩,
   fun t same => (second.ids t same).trans (first.ids t rfl),
   fun t off off' => (second.dormant t off off').trans (first.dormant t off off)⟩

theorem kept_trans {touched : List TaskQueue} {sems : List SemAddr} {k'' : Kernel N}
    (first : Kept live touched sems k k') (second : Kept live touched sems k' k'') :
    Kept live touched sems k k'' := kept_then first second

theorem kept_weaken {live' : Tcb N → Bool} {touched touched' : List TaskQueue}
    {sems sems' : List SemAddr} (moved : Moved live live' touched sems k k')
    (queues : touched ⊆ touched') (more : sems ⊆ sems') :
    Moved live live' touched' sems' k k' :=
  ⟨moved.placed, fun q ready out => moved.lists q ready fun mem => out (queues mem),
   fun a out => moved.sem a fun mem => out (more mem), moved.counters, moved.ids, moved.dormant⟩

/-- Fields of a descriptor other than its id and its status. -/
theorem kept_setTask (p : Placed live k) (t : Tcb N) {f : Task → Task}
    (id : ∀ d, (f d).id = d.id) (status : ∀ d, (f d).status = d.status) :
    Kept live [] [] k (k.setTask t f) := by
  refine kept_fields p rfl rfl (fun _ _ => rfl) ⟨rfl, rfl⟩ ?_ ?_
  · intro a
    by_cases same : a = t
    · subst same; simp [Kernel.setTask, id]
    · simp [Kernel.setTask, same]
  · intro a _
    by_cases same : a = t
    · subst same; simp [Kernel.setTask, status]
    · simp [Kernel.setTask, same]

theorem kept_setSem (p : Placed live k) (s : SemAddr) (f : Semaphore → Semaphore) :
    Kept live [] [s] k (k.setSem s f) := by
  refine kept_fields p rfl rfl ?_ ⟨rfl, rfl⟩ (fun _ => rfl) (fun _ _ => rfl)
  intro a out
  have other : a ≠ s := by simpa using out
  simp [Kernel.setSem, other]

theorem switch_kept (p : Placed live k) {t : Tcb N}
    (target : t = .dispatcherTask ∨ t ∈ tasks k .readyTasks) :
    ∃ k', taskSwitch k (some t) = .ok k' ∧ k'.curr = t ∧ tasks k' = tasks k ∧
      k'.sem = k.sem ∧ Kept live [] [] k k' := by
  refine ⟨_, rfl, rfl, rfl, rfl, ⟨p.wellFormed, p.queued, target, p.dispatcher⟩,
    fun _ _ _ => rfl, fun _ _ => rfl, fun _ => ⟨rfl, rfl⟩, ?_, ?_⟩
  · intro a _
    simp
  · intro a off _
    have at' : a ≠ t := by
      rintro rfl
      rcases target with rfl | mem
      · rw [p.dispatcher] at off; cases off
      · rw [((p.queued _).mp ⟨_, mem⟩).1] at off; cases off
    have ac : a ≠ k.curr := by rintro rfl; rw [current_live p] at off; cases off
    simp [KernelModel.Kernel.setStatus_other, at', ac]

theorem suspend_kept (p : Placed live k) (user : k.curr ≠ .dispatcherTask) (q : TaskQueue) :
    ∃ m, taskSuspend k (some q) = .ok (givenUp k m) ∧
      elems m = moveTask (tasks k) .readyTasks q k.curr ∧ Kept live [q] [] k (givenUp k m) := by
  have mem := current_ready p user
  obtain ⟨m, run, r⟩ := taskSuspend_spec p.wellFormed mem q
  have lists := r.elems_eq
  refine ⟨m, run, lists, ⟨r.read_back, ?_, Or.inl rfl, p.dispatcher⟩, ?_, fun _ _ => rfl,
    fun _ => ⟨rfl, rfl⟩, ?_, ?_⟩
  · intro a
    change (∃ p, a ∈ elems m p) ↔ _
    rw [lists, queued_moveTask p.wellFormed mem]
    exact p.queued a
  · intro r ready out
    change elems m r = _
    rw [lists, moveTask_other _ ready (by simpa using out)]
  · intro a _
    simp [givenUp]
  · intro a off _
    have ad : a ≠ .dispatcherTask := by rintro rfl; rw [p.dispatcher] at off; cases off
    have ac : a ≠ k.curr := by rintro rfl; rw [current_live p] at off; cases off
    simp [givenUp, withStatus_other, ad, ac]

theorem resume_kept (p : Placed live k) {t : Tcb N} {q : TaskQueue} (mem : t ∈ tasks k q) :
    ∃ m, taskResume k (some t) (some q) =
        .ok { k with queues := m, task := withStatus k.task t .ready } ∧
      elems m = moveTask (tasks k) q .readyTasks t ∧
      Kept live [q] [] k { k with queues := m, task := withStatus k.task t .ready } := by
  obtain ⟨m, run, r⟩ := taskResume_spec p.wellFormed mem
  have lists := r.elems_eq
  refine ⟨m, run, lists, ⟨r.read_back, ?_, ?_, p.dispatcher⟩, ?_, fun _ _ => rfl,
    fun _ => ⟨rfl, rfl⟩, ?_, ?_⟩
  · intro a
    change (∃ p, a ∈ elems m p) ↔ _
    rw [lists, queued_moveTask p.wellFormed mem]
    exact p.queued a
  · rcases p.running with same | ready
    · exact Or.inl same
    · refine Or.inr ?_
      change k.curr ∈ elems m .readyTasks
      rw [lists, mem_moveTask p.wellFormed]
      by_cases same : k.curr = t
      · exact Or.inr ⟨rfl, same⟩
      · exact Or.inl ⟨ready, fun both => same both.2⟩
  · intro r ready out
    change elems m r = _
    rw [lists, moveTask_other _ (by simpa using out) ready]
  · intro a _
    simp
  · intro a off _
    have other : a ≠ t := by
      rintro rfl; rw [((p.queued _).mp ⟨_, mem⟩).1] at off; cases off
    simp [withStatus_other, other]

/-- A task that waits elsewhere only gets its status written. -/
theorem resume_elsewhere_kept (p : Placed live k) {t : Tcb N} {q r : TaskQueue}
    (mem : t ∈ tasks k r) (ne : r ≠ q) :
    taskResume k (some t) (some q) = .ok { k with task := withStatus k.task t .ready } ∧
      Kept live [] [] k { k with task := withStatus k.task t .ready } := by
  refine ⟨taskResume_elsewhere p.wellFormed mem ne,
    kept_fields p rfl rfl (fun _ _ => rfl) ⟨rfl, rfl⟩
    ?_ ?_⟩
  · intro a
    simp
  · intro a off
    have other : a ≠ t := by
      rintro rfl; rw [((p.queued _).mp ⟨_, mem⟩).1] at off; cases off
    simp [withStatus_other, other]

theorem resume_any (p : Placed live k) {t : Tcb N} (on : live t = true)
    (other : t ≠ .dispatcherTask) (q : TaskQueue) :
    ∃ k', taskResume k (some t) (some q) = .ok k' ∧ k'.curr = k.curr ∧ k'.sem = k.sem ∧
      (t ∈ tasks k q → tasks k' = moveTask (tasks k) q .readyTasks t) ∧
      (t ∉ tasks k q → tasks k' = tasks k) ∧ Kept live [q] [] k k' := by
  obtain ⟨r, mem⟩ := (p.queued t).mpr ⟨on, other⟩
  by_cases here : r = q
  · subst here
    obtain ⟨m, run, lists, kept⟩ := resume_kept p mem
    exact ⟨_, run, rfl, rfl, fun _ => lists, fun out => absurd mem out, kept⟩
  · obtain ⟨run, kept⟩ := resume_elsewhere_kept p mem here
    have out : t ∉ tasks k q := fun inside => here (p.wellFormed.unique mem inside)
    exact ⟨_, run, rfl, rfl, fun inside => absurd inside out, fun _ => rfl,
      kept_weaken kept (by simp) (by simp)⟩

/-- A resumed task is no longer in the queue it was resumed from, whether it waited there or not. -/
theorem resume_leaves (p : Placed live k) {t : Tcb N} (on : live t = true)
    (other : t ≠ .dispatcherTask) {q : TaskQueue} (notReady : q ≠ .readyTasks)
    (run : taskResume k (some t) (some q) = .ok k') : tasks k' q = (tasks k q).erase t := by
  obtain ⟨_, known, _, _, moved, stays, _⟩ := resume_any p on other q
  cases known.symm.trans run
  by_cases inside : t ∈ tasks k q
  · rw [moved inside, moveTask_source _ notReady]
  · rw [stays inside, List.erase_of_not_mem inside]

theorem resumed_kept (p : Placed live k) {q : TaskQueue} (notReady : q ≠ .readyTasks)
    (condition : Task → Bool) {after : Task → Task} (id : ∀ d, (after d).id = d.id)
    {m : Queues TaskQueue (Tcb N)} (r : Represents m
      (resumeLists (tasks k) q (fun t => condition (k.task t)) (tasks k q) [])) :
    Kept live [q] [] k
      { k with queues := m, task := resumedTasks k condition after (tasks k q) } := by
  have lists := r.elems_eq
  refine ⟨⟨r.read_back, ?_, ?_, p.dispatcher⟩, ?_, fun _ _ => rfl,
    fun _ => ⟨rfl, rfl⟩, ?_, ?_⟩
  · intro a
    change (∃ p, a ∈ elems m p) ↔ _
    rw [lists, queued_resumeLists notReady]
    exact p.queued a
  · rcases p.running with same | ready
    · exact Or.inl same
    · refine Or.inr ?_
      change k.curr ∈ elems m .readyTasks
      rw [lists]
      simp [resumeLists, ready]
  · intro r ready out
    change elems m r = _
    rw [lists, resumeLists_other _ _ _ (by simpa using out) ready]
  · intro a _
    simp only [resumedTasks]
    split
    · exact id _
    · rfl
  · intro a off _
    have out : a ∉ tasks k q := fun mem => by
      rw [((p.queued _).mp ⟨_, mem⟩).1] at off; cases off
    simp [resumedTasks, out]

theorem resumeWhere_kept (p : Placed live k) {q : TaskQueue} (notReady : q ≠ .readyTasks)
    (condition : Task → Bool) (after : Task → Task) (id : ∀ d, (after d).id = d.id) :
    ∃ m, resumeWhere k q condition after =
        .ok { k with queues := m, task := resumedTasks k condition after (tasks k q) } ∧
      elems m = resumeLists (tasks k) q (fun t => condition (k.task t)) (tasks k q) [] ∧
      Kept live [q] [] k
        { k with queues := m, task := resumedTasks k condition after (tasks k q) } := by
  obtain ⟨m, run, r⟩ := resumeWhere_spec p.wellFormed notReady condition after
  exact ⟨m, run, r.elems_eq, resumed_kept p notReady condition id r⟩

theorem wake_kept (p : Placed live k) :
    ∃ k', wakeTasks k = .ok k' ∧ k'.curr = k.curr ∧
      (∀ t ∈ tasks k .readyTasks, t ∈ tasks k' .readyTasks) ∧
      (tasks k .sleepingTasks = [] → tasks k' = tasks k) ∧
      Kept live [.sleepingTasks] [] k k' := by
  obtain ⟨m, run, lists, kept⟩ := resumeWhere_kept p (q := .sleepingTasks) (by decide)
    (fun d => d.wakeUpTime ≤ systime k) id fun _ => rfl
  refine ⟨_, run, rfl, fun t mem => ?_, fun none => ?_, kept⟩
  · change t ∈ elems m .readyTasks
    rw [lists]
    simp [resumeLists, mem]
  · change elems m = _
    rw [lists, none, resumeLists_none none]

theorem drain_kept (p : Placed live k) {q : TaskQueue} (notReady : q ≠ .readyTasks) :
    ∃ m, drainQueue q (Fintype.card (Tcb N)) k =
        .ok { k with queues := m, task := resumedTasks k (fun _ => true) id (tasks k q) } ∧
      elems m = resumeLists (tasks k) q (fun _ => true) (tasks k q) [] ∧
      Kept live [q] [] k
        { k with queues := m, task := resumedTasks k (fun _ => true) id (tasks k q) } := by
  obtain ⟨m, run, r⟩ := drainQueue_spec p.wellFormed notReady (p.wellFormed.length_le q)
  exact ⟨m, run, r.elems_eq, resumed_kept p notReady (fun _ => true) (fun _ => rfl) r⟩

theorem scheduler_kept (p : Placed live k) :
    (tasks k .readyTasks = [] ∧ scheduler k = .ok (none, k)) ∨
    ∃ c ∈ tasks k .readyTasks,
      scheduler k = .ok (some c, { k with task := agedTasks k (tasks k .readyTasks) c }) ∧
      Kept live [] [] k { k with task := agedTasks k (tasks k .readyTasks) c } := by
  by_cases empty : tasks k .readyTasks = []
  · exact Or.inl ⟨empty, scheduler_empty p.wellFormed empty⟩
  · obtain ⟨c, least, run⟩ := scheduler_spec p.wellFormed empty
    refine Or.inr ⟨c, firstLeast_mem least, run,
      kept_fields p rfl rfl (fun _ _ => rfl) ⟨rfl, rfl⟩ ?_ ?_⟩
    · intro a
      simp only [agedTasks]
      split
      · rfl
      · split <;> rfl
    · intro a _
      simp only [agedTasks]
      split
      · rfl
      · split <;> rfl

theorem tick_kept (p : Placed live k) :
    ∃ k', interruptionHandler k = .ok k' ∧ tasks k' = tasks k ∧ k'.sem = k.sem ∧
      (k'.curr = k.curr ∨
        toInt ((k.task k.curr).quantum + 1) = quantumLimit ∧ k'.curr = .dispatcherTask) ∧
      Kept live [] [] k k' := by
  have clock : Kept live [] [] k { k with sysclock := k.sysclock + 1 } :=
    kept_fields p rfl rfl (fun _ _ => rfl) ⟨rfl, rfl⟩ (fun _ => rfl) (fun _ _ => rfl)
  have older := kept_trans clock (kept_setTask clock.placed k.curr
    (f := fun d => { d with quantum := toInt (d.quantum + 1) }) (fun _ => rfl) (fun _ => rfl))
  by_cases limit : toInt ((k.task k.curr).quantum + 1) = quantumLimit
  · have reset := kept_trans older (kept_setTask older.placed k.curr
      (f := fun d => { d with quantum := 0 }) (fun _ => rfl) (fun _ => rfl))
    obtain ⟨k', run, curr, lists, sem, kept⟩ := switch_kept reset.placed (Or.inl rfl)
    refine ⟨k', ?_, lists, sem, Or.inr ⟨limit, curr⟩, kept_trans reset kept⟩
    rw [← run]
    simp [interruptionHandler, Kernel.setTask, limit, taskYield]
  · refine ⟨{ k with sysclock := k.sysclock + 1 }.setTask k.curr
      fun d => { d with quantum := toInt (d.quantum + 1) }, ?_, rfl, rfl, Or.inl rfl, older⟩
    simp [interruptionHandler, Kernel.setTask, limit]

/-- sem_down on a semaphore whose lock is free. -/
theorem semDown_kept (p : Placed live k) (user : k.curr ≠ .dispatcherTask) {s : SemAddr}
    (active : (k.sem s).active ≠ 0) (free : (k.sem s).lock = 0) {v : Int}
    (count : v = toInt ((k.sem s).value - 1)) :
    ∃ k' r, semDown k (some s) = .ok (k', r) ∧ Kept live [.semQueue s] [s] k k' ∧
      k'.sem s = ⟨v, 0, (k.sem s).active⟩ ∧
      (v < 0 → k'.curr = .dispatcherTask ∧
        tasks k' = moveTask (tasks k) .readyTasks (.semQueue s) k.curr) ∧
      (¬ v < 0 → k'.curr = k.curr ∧ tasks k' = tasks k) := by
  have here := kept_setSem p s fun x => ⟨v, 0, x.active⟩
  have value : (recount k s v).sem s = ⟨v, 0, (k.sem s).active⟩ := by
    simp [recount, Kernel.setSem]
  rw [semDown_open active free count]
  by_cases wait : v < 0
  · obtain ⟨m, run, lists, kept⟩ := suspend_kept (k := recount k s v) here.placed user
      (.semQueue s)
    refine ⟨givenUp (recount k s v) m, none, by rw [if_pos wait, run]; rfl, ?_, value,
      fun _ => ⟨rfl, lists⟩, fun no => absurd wait no⟩
    exact kept_trans (kept_weaken here (by simp) (by simp)) (kept_weaken kept (by simp) (by simp))
  · exact ⟨recount k s v, some 0, if_neg wait, kept_weaken here (by simp) (by simp), value,
      fun yes => absurd yes wait, fun _ => ⟨rfl, rfl⟩⟩

theorem semUp_kept (p : Placed live k) {s : SemAddr} (active : (k.sem s).active ≠ 0)
    (free : (k.sem s).lock = 0) {v : Int} (count : v = toInt ((k.sem s).value + 1)) :
    ∃ k' r, semUp k (some s) = .ok (k', r) ∧ Kept live [.semQueue s] [s] k k' ∧
      k'.sem s = ⟨v, 0, (k.sem s).active⟩ ∧ k'.curr = k.curr ∧
      (∀ t rest, v ≤ 0 → tasks k (.semQueue s) = t :: rest →
        tasks k' = moveTask (tasks k) (.semQueue s) .readyTasks t) ∧
      (¬ (v ≤ 0 ∧ tasks k (.semQueue s) ≠ []) → tasks k' = tasks k) := by
  have here := kept_setSem p s fun x => ⟨v, 0, x.active⟩
  have value : (recount k s v).sem s = ⟨v, 0, (k.sem s).active⟩ := by
    simp [recount, Kernel.setSem]
  rw [semUp_open active free count, p.wellFormed.head]
  rcases waiting : tasks k (.semQueue s) with _ | ⟨t, rest⟩
  · refine ⟨recount k s v, 0, by simp, kept_weaken here (by simp) (by simp), value, rfl, ?_,
      fun _ => rfl⟩
    intro t rest _ impossible
    cases impossible
  · by_cases wake : v ≤ 0
    · obtain ⟨m, run, lists, kept⟩ := resume_kept (k := recount k s v) here.placed
        (t := t) (q := .semQueue s) (by change t ∈ tasks k _; simp [waiting])
      refine ⟨{ recount k s v with queues := m, task := withStatus (recount k s v).task t .ready },
        0, by rw [if_pos ⟨wake, by simp⟩, List.head?_cons, run]; rfl, ?_, value, rfl, ?_,
        fun no => absurd ⟨wake, by simp⟩ no⟩
      · exact kept_trans (kept_weaken here (by simp) (by simp))
          (kept_weaken kept (by simp) (by simp))
      · rintro t' rest' _ ⟨rfl, rfl⟩
        exact lists
    · exact ⟨recount k s v, 0, if_neg fun both => wake both.1,
        kept_weaken here (by simp) (by simp), value,
        rfl, fun _ _ yes _ => absurd yes wake, fun _ => rfl⟩

theorem semDown_any (p : Placed live k) (user : k.curr ≠ .dispatcherTask) {s : SemAddr}
    {r : Option Int} (run : semDown k (some s) = .ok (k', r)) :
    Kept live [.semQueue s] [s] k k' := by
  rcases semDown_returns run with ⟨rfl, -⟩ | ⟨active, free⟩
  · exact kept_fields p rfl rfl (fun _ _ => rfl) ⟨rfl, rfl⟩ (fun _ => rfl) (fun _ _ => rfl)
  · obtain ⟨k₁, r₁, known, kept, _⟩ := semDown_kept p user active free rfl
    rw [known, Except.ok.injEq, Prod.mk.injEq] at run
    exact run.1 ▸ kept

theorem semUp_any (p : Placed live k) {s : SemAddr} {r : Int}
    (run : semUp k (some s) = .ok (k', r)) :
    k'.curr = k.curr ∧ Kept live [.semQueue s] [s] k k' := by
  rcases semUp_returns run with ⟨rfl, -⟩ | ⟨active, free⟩
  · exact ⟨rfl, kept_fields p rfl rfl (fun _ _ => rfl) ⟨rfl, rfl⟩ (fun _ => rfl) (fun _ _ => rfl)⟩
  · obtain ⟨k₁, r₁, known, kept, _, curr, _⟩ := semUp_kept p active free rfl
    rw [known, Except.ok.injEq, Prod.mk.injEq] at run
    exact run.1 ▸ ⟨curr, kept⟩

theorem semDestroy_kept (p : Placed live k) (s : SemAddr) :
    ∃ k' r, semDestroy k (some s) = .ok (k', r) ∧ k'.curr = k.curr ∧
      Kept live [.semQueue s] [s] k k' := by
  by_cases closed : (k.sem s).active = 0
  · exact ⟨k, -1, by simp [semDestroy, closed], rfl,
      kept_fields p rfl rfl (fun _ _ => rfl) ⟨rfl, rfl⟩
      (fun _ => rfl) (fun _ _ => rfl)⟩
  · have here := kept_setSem p s fun x => { x with active := 0 }
    obtain ⟨m, run, lists, kept⟩ := drain_kept here.placed (q := .semQueue s) (by simp)
    have unfolded : semDestroy k (some s) = (drainQueue (.semQueue s) (Fintype.card (Tcb N))
        (k.setSem s fun x => { x with active := 0 })).map fun k => (k, 0) := by
      simp only [semDestroy, closed, ↓reduceIte]
    rw [unfolded, run]
    refine ⟨_, 0, rfl, rfl, ?_⟩
    exact kept_trans (kept_weaken here (by simp) (by simp)) (kept_weaken kept (by simp) (by simp))

/-- Only the caller can have joined the tasks that wait. -/
theorem semDown_waits (p : Placed live k) (user : k.curr ≠ .dispatcherTask) {s : SemAddr}
    {r : Option Int} (run : semDown k (some s) = .ok (k', r)) :
    ∀ t ∈ tasks k' (.semQueue s), t ∈ tasks k (.semQueue s) ∨ t = k.curr := by
  rcases semDown_returns run with ⟨rfl, -⟩ | ⟨active, free⟩
  · exact fun t mem => Or.inl mem
  · obtain ⟨k₁, r₁, known, _, _, waits, passes⟩ := semDown_kept p user active free rfl
    rw [known, Except.ok.injEq, Prod.mk.injEq] at run
    rw [← run.1]
    by_cases wait : toInt ((k.sem s).value - 1) < 0
    · rw [(waits wait).2, moveTask_target _ (by simp)]
      intro t mem
      exact (List.mem_append.mp mem).imp id List.mem_singleton.mp
    · rw [(passes wait).2]
      exact fun t mem => Or.inl mem

theorem semUp_waits (p : Placed live k) {s : SemAddr} {r : Int}
    (run : semUp k (some s) = .ok (k', r)) :
    ∀ t ∈ tasks k' (.semQueue s), t ∈ tasks k (.semQueue s) := by
  rcases semUp_returns run with ⟨rfl, -⟩ | ⟨active, free⟩
  · exact fun t mem => mem
  · obtain ⟨k₁, r₁, known, _, _, _, wakes, passes⟩ := semUp_kept p active free rfl
    rw [known, Except.ok.injEq, Prod.mk.injEq] at run
    rw [← run.1]
    rcases waiting : tasks k (.semQueue s) with _ | ⟨t, rest⟩
    · rw [passes fun both => both.2 waiting, waiting]
      exact fun t mem => mem
    · by_cases low : toInt ((k.sem s).value + 1) ≤ 0
      · rw [wakes t rest low waiting, moveTask_source _ (by simp), waiting,
          List.erase_cons_head]
        exact fun u mem => List.mem_cons_of_mem _ mem
      · rw [passes fun both => low both.1, waiting]
        exact fun u mem => mem

/-- No sem_down or sem_up destroys a semaphore. -/
theorem semDown_active (p : Placed live k) (user : k.curr ≠ .dispatcherTask) {s : SemAddr}
    {r : Option Int} (run : semDown k (some s) = .ok (k', r)) (a : SemAddr) :
    (k'.sem a).active = (k.sem a).active := by
  by_cases other : a = s
  · subst other
    rcases semDown_returns run with ⟨rfl, -⟩ | ⟨active, free⟩
    · rfl
    · obtain ⟨k₁, r₁, known, _, sem, _⟩ := semDown_kept p user active free rfl
      rw [known, Except.ok.injEq, Prod.mk.injEq] at run
      rw [← run.1, sem]
  · rw [(semDown_any p user run).sem a (by simpa using other)]

theorem semUp_active (p : Placed live k) {s : SemAddr} {r : Int}
    (run : semUp k (some s) = .ok (k', r)) (a : SemAddr) :
    (k'.sem a).active = (k.sem a).active := by
  by_cases other : a = s
  · subst other
    rcases semUp_returns run with ⟨rfl, -⟩ | ⟨active, free⟩
    · rfl
    · obtain ⟨k₁, r₁, known, _, sem, _⟩ := semUp_kept p active free rfl
      rw [known, Except.ok.injEq, Prod.mk.injEq] at run
      rw [← run.1, sem]
  · rw [(semUp_any p run).2.sem a (by simpa using other)]

/-- Nobody waits for a destroyed semaphore. -/
theorem semDestroy_empties (p : Placed live k) {s : SemAddr} (active : (k.sem s).active ≠ 0)
    {r : Int} (run : semDestroy k (some s) = .ok (k', r)) :
    k'.curr = k.curr ∧ Kept live [.semQueue s] [s] k k' ∧ (k'.sem s).active = 0 ∧
      tasks k' (.semQueue s) = [] := by
  obtain ⟨_, _, known, curr, kept⟩ := semDestroy_kept p s
  rw [known, Except.ok.injEq, Prod.mk.injEq] at run
  obtain ⟨rfl, -⟩ := run
  refine ⟨curr, kept, ?_⟩
  have here := kept_setSem p s fun x => { x with active := 0 }
  obtain ⟨m, drained, lists, _⟩ := drain_kept here.placed (q := .semQueue s) (by simp)
  have unfolded : semDestroy k (some s) = (drainQueue (.semQueue s) (Fintype.card (Tcb N))
      (k.setSem s fun x => { x with active := 0 })).map fun k => (k, 0) := by
    simp only [semDestroy, active, ↓reduceIte]
  rw [unfolded, drained] at known
  cases known
  constructor
  · simp [Kernel.setSem]
  · change elems m (.semQueue s) = []
    rw [lists, resumeLists_source _ _ _ (by simp)]
    simp

theorem semInit_kept (p : Placed live k) {s : SemAddr} (idle : tasks k (.semQueue s) = [])
    (value : Int) :
    Kept live [] [s] k (semInit k (some s) value).1 ∧
      tasks (semInit k (some s) value).1 = tasks k ∧
      (semInit k (some s) value).1.curr = k.curr ∧
      (semInit k (some s) value).1.sem s = ⟨value, (k.sem s).lock, 1⟩ := by
  have empty : Function.update k.queues.head (.semQueue s) none = k.queues.head := by
    have headEq : k.queues.head (.semQueue s) = none := by rw [p.wellFormed.head, idle]; rfl
    rw [← headEq, Function.update_eq_self]
  have queues : (semInit k (some s) value).1.queues = k.queues := by
    simp only [semInit, Kernel.setSem, empty]
  refine ⟨kept_fields p queues rfl ?_ ⟨rfl, rfl⟩ (fun _ => rfl) (fun _ _ => rfl),
    by rw [tasks, queues], rfl, by simp [semInit, Kernel.setSem]⟩
  intro a out
  have other : a ≠ s := by simpa using out
  simp [semInit, Kernel.setSem, other]

theorem sleep_kept (p : Placed live k) (user : k.curr ≠ .dispatcherTask) (t : Int) :
    ∃ k', taskSleep k t = .ok k' ∧ k'.curr = .dispatcherTask ∧
      Kept live [.sleepingTasks] [] k k' := by
  have alarm := kept_setTask p k.curr (f := fun d => { d with
    wakeUpTime := systime k + UInt32.ofNat (t % 4294967296).toNat }) (fun _ => rfl) fun _ => rfl
  obtain ⟨m, run, _, kept⟩ := suspend_kept alarm.placed user .sleepingTasks
  exact ⟨_, run, rfl, kept_trans (kept_weaken alarm (by simp) (by simp)) kept⟩

theorem wait_kept (p : Placed live k) (user : k.curr ≠ .dispatcherTask)
    (task : Option (Tcb N)) :
    ∃ k' r, taskWait k task = .ok (k', r) ∧
      (k'.curr = k.curr ∨ k'.curr = .dispatcherTask) ∧ Kept live [.suspendedTasks] [] k k' := by
  have none : Kept live [.suspendedTasks] [] k k :=
    kept_fields p rfl rfl (fun _ _ => rfl) ⟨rfl, rfl⟩ (fun _ => rfl) (fun _ _ => rfl)
  cases task with
  | none => exact ⟨k, some (-1), rfl, Or.inl rfl, none⟩
  | some t =>
    by_cases ended : (k.task t).status = .terminated
    · exact ⟨k, some (-1), by simp [taskWait, ended], Or.inl rfl, none⟩
    · have waiting := kept_setTask p k.curr (f := fun d => { d with
        waitingTask := (k.task t).id }) (fun _ => rfl) fun _ => rfl
      obtain ⟨m, run, _, kept⟩ := suspend_kept waiting.placed user .suspendedTasks
      simp only [taskWait, ended, ↓reduceIte, run]
      exact ⟨_, _, rfl, Or.inr rfl,
        kept_trans (kept_weaken waiting (by simp) (by simp)) kept⟩

section Lifetimes

def nextId (k : Kernel N) : Int := idOf (k.lastTaskId + 1)

/-- The counter of user tasks after task_init of t with the next id. -/
def initCount (k : Kernel N) (t : Tcb N) : Int :=
  if t = .diskDriverTask ∨ nextId k = (k.task .diskDriverTask).id then
    toInt (toInt (k.userTasksNum + 1) - 1)
  else toInt (k.userTasksNum + 1)

omit [Fintype N] in
theorem taskInit_eq {t : Tcb N} {m : Queues TaskQueue (Tcb N)} {code : Int}
    (cleared : Function.update k.queues.link t Links.free = k.queues.link)
    (append : queueAppend k.queues (some .readyTasks) (some t) = .ok (m, code)) :
    taskInit k t true = .ok ({ k with
      queues := m, task := Function.update k.task t (initialTask (nextId k) k.sysclock),
      lastTaskId := k.lastTaskId + 1, userTasksNum := initCount k t }, nextId k) := by
  have driverId : (Function.update k.task t (initialTask (nextId k) k.sysclock)
      .diskDriverTask).id =
      if t = .diskDriverTask then nextId k else (k.task .diskDriverTask).id := by
    rw [Function.update_apply]
    by_cases same : t = .diskDriverTask
    · simp [same, initialTask]
    · rw [if_neg (Ne.symm same), if_neg same]
  simp only [taskInit, Bool.true_eq_false, ↓reduceIte, Kernel.setTask, cleared, append, bind,
    Except.bind, Function.update_self, systime, initCount]
  simp only [nextId] at driverId ⊢
  rw [driverId]
  by_cases same : t = .diskDriverTask
  · simp [same, initialTask]
  · by_cases found : idOf (k.lastTaskId + 1) = (k.task .diskDriverTask).id
    · simp [same, found, initialTask]
    · simp [same, found, initialTask]

theorem taskInit_moved (p : Placed live k) {t : Tcb N} (idle : live t = false) :
    ∃ k' id, taskInit k t true = .ok (k', id) ∧ id = nextId k ∧ k'.curr = k.curr ∧
      tasks k' = listAppend (tasks k) .readyTasks t ∧ k'.userTasksNum = initCount k t ∧
      k'.lastTaskId = k.lastTaskId + 1 ∧ (k'.task t).id = nextId k ∧
      Moved live (Function.update live t true) [] [] k k' := by
  have notDispatcher : t ≠ .dispatcherTask := by
    rintro rfl; rw [p.dispatcher] at idle; cases idle
  have fresh : ∀ q, t ∉ tasks k q := fun q mem => by
    rw [((p.queued t).mp ⟨q, mem⟩).1] at idle; cases idle
  have cleared : Function.update k.queues.link t Links.free = k.queues.link := by
    rw [← p.wellFormed.free t fresh, Function.update_eq_self]
  obtain ⟨m, append, r⟩ := p.wellFormed.append_free fresh .readyTasks
  have lists := r.elems_eq
  refine ⟨_, _, taskInit_eq cleared append, rfl, rfl, lists, rfl, rfl, by simp [initialTask],
    ⟨r.read_back, ?_, ?_, ?_⟩, ?_, fun _ _ => rfl, ?_, ?_, ?_⟩
  · intro a
    change (∃ q, a ∈ elems m q) ↔ _
    rw [lists]
    by_cases same : a = t
    · subst same
      simp only [Function.update_self, ne_eq, notDispatcher, not_false_eq_true, and_self, iff_true]
      exact ⟨.readyTasks, by simp⟩
    · rw [Function.update_of_ne same, ← p.queued a]
      simp only [mem_listAppend, same, and_false, or_false]
  · rcases p.running with same | ready
    · exact Or.inl same
    · refine Or.inr ?_
      change k.curr ∈ elems m .readyTasks
      rw [lists, listAppend_same]
      simp [ready]
  · rw [Function.update_of_ne (Ne.symm notDispatcher)]; exact p.dispatcher
  · intro q ready _
    change elems m q = _
    rw [lists, listAppend_other _ _ ready]
  · intro same
    have on := congrFun same t
    rw [Function.update_self, idle] at on
    cases on
  · intro a same
    by_cases at' : a = t
    · subst at'; rw [Function.update_self, idle] at same; cases same
    · simp [at']
  · intro a _ off
    have at' : a ≠ t := by rintro rfl; rw [Function.update_self] at off; cases off
    simp [at']

/-- The kernel when task_exit has recorded the end of the running task. -/
def exitRecord (k : Kernel N) (code : Int) : Kernel N :=
  let k₁ := k.setStatus k.curr .terminated
  let k₂ := k₁.setTask k.curr fun d => { d with executionTime := systime k₁ - d.executionTime }
  let k₃ := k₂.setTask k.curr fun d => { d with exitCode := code }
  let d := k₃.task k.curr
  { k₃ with stdout := k₃.stdout ++ [⟨d.id, d.executionTime, d.processorTime, d.activations⟩] }

theorem taskExit_eq (code : Int) : taskExit k code =
    (resumeWhere (exitRecord k code) .suspendedTasks
      (fun d => d.waitingTask = ((exitRecord k code).task k.curr).id)
      fun d => { d with waitingTask := -1 }).bind fun k₄ =>
      if (k₄.task k.curr).id = dispatcherPid then .error (.exit 0)
      else (queueRemove k₄.queues (some .readyTasks) (some k.curr)).bind fun (queues, _) =>
        .ok { k₄ with queues := queues, userTasksNum := toInt (k₄.userTasksNum - 1),
                      curr := .dispatcherTask } := rfl

theorem exitRecord_placed (p : Placed live k) (code : Int) : Placed live (exitRecord k code) :=
  ⟨p.wellFormed, p.queued, p.running, p.dispatcher⟩

omit [Fintype N] in
theorem exitRecord_id (k : Kernel N) (code : Int) (a : Tcb N) :
    ((exitRecord k code).task a).id = (k.task a).id := by
  by_cases same : a = k.curr
  · subst same; simp [exitRecord, Kernel.setStatus, Kernel.setTask]
  · simp [exitRecord, Kernel.setStatus, Kernel.setTask, same]

omit [Fintype N] in
theorem exitRecord_other (k : Kernel N) (code : Int) {a : Tcb N} (ne : a ≠ k.curr) :
    (exitRecord k code).task a = k.task a := by
  simp [exitRecord, Kernel.setStatus, Kernel.setTask, ne]

theorem exit_resumes (p : Placed live k) (code : Int) :
    ∃ k₄, resumeWhere (exitRecord k code) .suspendedTasks
        (fun d => d.waitingTask = ((exitRecord k code).task k.curr).id)
        (fun d => { d with waitingTask := -1 }) = .ok k₄ ∧
      k₄.curr = k.curr ∧ (∀ t ∈ tasks k .readyTasks, t ∈ tasks k₄ .readyTasks) ∧
      Kept live [.suspendedTasks] [] (exitRecord k code) k₄ := by
  obtain ⟨m, resume, lists, kept⟩ := resumeWhere_kept (exitRecord_placed p code)
    (q := .suspendedTasks) (by decide)
    (fun d => d.waitingTask = ((exitRecord k code).task k.curr).id)
    (fun d => { d with waitingTask := -1 }) fun _ => rfl
  refine ⟨_, resume, rfl, fun t mem => ?_, kept⟩
  have before : t ∈ tasks (exitRecord k code) .readyTasks := mem
  change t ∈ elems m .readyTasks
  rw [lists]
  simp [resumeLists, before]

theorem taskExit_runs (p : Placed live k) (user : k.curr ≠ .dispatcherTask)
    (id : (k.task k.curr).id ≠ dispatcherPid) (code : Int) : ∃ k', taskExit k code = .ok k' := by
  obtain ⟨k₄, resume, here, _, kept⟩ := exit_resumes p code
  have mem := here ▸ current_ready kept.placed (here ▸ user)
  obtain ⟨m', remove, _⟩ := kept.placed.wellFormed.remove_mem mem
  have same := (kept.ids k.curr rfl).trans (exitRecord_id k code k.curr)
  rw [taskExit_eq, resume]
  simp only [Except.bind]
  rw [if_neg (by rw [same]; exact id), remove]
  exact ⟨_, rfl⟩

/-- The running task leaves ready_tasks for good. -/
theorem removal_moved (p : Placed live k) (user : k.curr ≠ .dispatcherTask) (num : Int) :
    ∃ m r, queueRemove k.queues (some .readyTasks) (some k.curr) = .ok (m, r) ∧
      elems m = listRemove (tasks k) .readyTasks k.curr ∧
      Moved live (Function.update live k.curr false) [] [] k
        { k with queues := m, userTasksNum := num, curr := .dispatcherTask } := by
  have mem := current_ready p user
  obtain ⟨m, remove, r, _⟩ := p.wellFormed.remove_mem mem
  have lists := r.elems_eq
  have gone : ∀ {a q}, a ∈ elems m q ↔ a ∈ tasks k q ∧ ¬ (q = .readyTasks ∧ a = k.curr) := by
    intro a q
    rw [lists, p.wellFormed.mem_remove]
  refine ⟨m, _, remove, lists, ⟨r.read_back, ?_, Or.inl rfl, ?_⟩, ?_, fun _ _ => rfl, ?_,
    fun _ _ => rfl, fun _ _ _ => rfl⟩
  · intro a
    change (∃ q, a ∈ elems m q) ↔ _
    simp only [gone]
    by_cases same : a = k.curr
    · subst same
      rw [Function.update_self]
      simp only [Bool.false_eq_true, false_and, iff_false, not_exists]
      rintro q ⟨inside, other⟩
      exact other ⟨p.wellFormed.unique inside mem, trivial⟩
    · rw [Function.update_of_ne same, ← p.queued a]
      simp [same]
  · rw [Function.update_of_ne user.symm]; exact p.dispatcher
  · intro q ready _
    change elems m q = _
    rw [lists, listRemove_other _ _ ready]
  · intro same
    have off := congrFun same k.curr
    rw [Function.update_self, current_live p] at off
    cases off

theorem taskExit_moved (p : Placed live k) (user : k.curr ≠ .dispatcherTask) {code : Int}
    (run : taskExit k code = .ok k') :
    k'.curr = .dispatcherTask ∧ k'.userTasksNum = toInt (k.userTasksNum - 1) ∧
      k'.lastTaskId = k.lastTaskId ∧
      (∀ t ∈ tasks k .readyTasks, t ≠ k.curr → t ∈ tasks k' .readyTasks) ∧
      Moved live (Function.update live k.curr false) [.suspendedTasks] [] k k' := by
  obtain ⟨k₄, resume, here, stay, kept⟩ := exit_resumes p code
  have recorded : Kept live [.suspendedTasks] [] k (exitRecord k code) := by
    refine kept_fields p rfl rfl (fun _ _ => rfl) ⟨rfl, rfl⟩ (exitRecord_id k code) fun a off => ?_
    have ne : a ≠ k.curr := by rintro rfl; rw [current_live p] at off; cases off
    rw [exitRecord_other k code ne]
  rw [taskExit_eq, resume] at run
  simp only [Except.bind] at run
  split at run
  · cases run
  · obtain ⟨m, r, remove, lists, moved⟩ := removal_moved kept.placed (here ▸ user)
      (toInt (k₄.userTasksNum - 1))
    rw [here] at remove lists moved
    rw [remove] at run
    simp only [Except.ok.injEq] at run
    rw [← run]
    refine ⟨rfl, by rw [(kept.counters rfl).1]; rfl, (kept.counters rfl).2, fun t ready other => ?_,
      kept_then recorded (kept_then kept (kept_weaken moved (by simp) (by simp)))⟩
    change t ∈ elems m .readyTasks
    rw [lists, kept.placed.wellFormed.mem_remove]
    exact ⟨stay t ready, fun both => other both.2⟩

theorem taskExit_dispatcher (p : Placed live k) (here : k.curr = .dispatcherTask)
    (id : (k.task .dispatcherTask).id = dispatcherPid) (code : Int) :
    taskExit k code = .error (.exit 0) := by
  obtain ⟨k₄, resume, _, _, kept⟩ := exit_resumes p code
  have same := (kept.ids k.curr rfl).trans (exitRecord_id k code k.curr)
  rw [here, id] at same
  rw [taskExit_eq, resume]
  simp only [Except.bind, here]
  rw [if_pos same]

end Lifetimes

end TaskPlacement
