import PingPong.KernelActs

/-!
What a kernel operation does to one task: to its status, to its place in ready_tasks and to its
hold of the processor.
-/
namespace TaskFates
open MachineModel CircularList QueueModel KernelModel KernelEffects TaskPlacement SystemModel
open SystemFrames TaskConservation KernelActs
variable {N : Type} [DecidableEq N] [Fintype N]

abbrev Ready (k : Kernel N) (t : Tcb N) : Prop := t ∈ tasks k .readyTasks

/-- One operation, one task. -/
inductive Fate (k k' : Kernel N) (t : Tcb N) : Prop where
  | stays (status : (k'.task t).status = (k.task t).status) (ready : Ready k' t ↔ Ready k t)
      (curr : k'.curr = t ↔ k.curr = t)
  | joins (out : ¬ Ready k t) (ready : Ready k' t) (other : k'.curr ≠ t)
      (status : (k'.task t).status = .ready)
  | sleeps (own : k.curr = t) (ready : Ready k t) (out : ¬ Ready k' t) (gone : k'.curr ≠ t)
      (status : (k'.task t).status = .suspended)
  | arrives (other : k.curr ≠ t) (own : k'.curr = t) (status : (k'.task t).status = .running)
  | leaves (own : k.curr = t) (gone : k'.curr ≠ t) (place : t = .dispatcherTask ∨ Ready k' t)
      (status : (k'.task t).status = .suspended)

variable {live : Tcb N → Bool} {k j k' : Kernel N}

structure Still (k k' : Kernel N) : Prop where
  status : ∀ t, (k'.task t).status = (k.task t).status
  lists : tasks k' = tasks k
  curr : k'.curr = k.curr

theorem still_refl (k : Kernel N) : Still k k := ⟨fun _ => rfl, rfl, rfl⟩

theorem quiet_still (q : Quiet k k') : Still k k' := ⟨q.status, q.lists, q.curr⟩

theorem still_setTask (k : Kernel N) (t : Tcb N) {f : Task → Task}
    (status : ∀ d, (f d).status = d.status) : Still k (k.setTask t f) := by
  refine ⟨fun a => ?_, rfl, rfl⟩
  by_cases same : a = t
  · subst same
    simp [Kernel.setTask, status]
  · simp [Kernel.setTask, same]

theorem still_trans (first : Still k j) (second : Still j k') : Still k k' :=
  ⟨fun t => (second.status t).trans (first.status t), second.lists.trans first.lists,
   second.curr.trans first.curr⟩

theorem fate_still (s : Still k k') (t : Tcb N) : Fate k k' t :=
  .stays (s.status t) (by rw [Ready, s.lists]) (by rw [s.curr])

theorem fate_after (before : Still k j) {t : Tcb N} (fate : Fate j k' t) : Fate k k' t := by
  have ready : Ready j t ↔ Ready k t := by rw [Ready, before.lists]
  cases fate with
  | stays status here curr =>
    exact .stays (status.trans (before.status t)) (here.trans ready) (by rw [curr, before.curr])
  | joins out here other status => exact .joins (ready.not.mp out) here other status
  | sleeps own here out gone status =>
    exact .sleeps (before.curr ▸ own) (ready.mp here) out gone status
  | arrives other own status => exact .arrives (before.curr ▸ other) own status
  | leaves own gone place status => exact .leaves (before.curr ▸ own) gone place status

theorem fate_switch {d : Tcb N} (place : k.curr = .dispatcherTask ∨ Ready k k.curr)
    (other : k.curr ≠ d) (run : taskSwitch k (some d) = .ok k') (t : Tcb N) : Fate k k' t := by
  cases run
  by_cases target : t = d
  · subst target
    exact .arrives other rfl (by simp [Kernel.setStatus, Kernel.setTask])
  · by_cases own : k.curr = t
    · subst own
      refine .leaves rfl (Ne.symm target) place ?_
      simp [Kernel.setStatus, Kernel.setTask, target]
    · refine .stays ?_ Iff.rfl ⟨fun same => absurd same.symm target, fun same => absurd same own⟩
      simp [Kernel.setStatus, Kernel.setTask, target, Ne.symm own]

theorem fate_self (run : taskSwitch k (some k.curr) = .ok k') :
    (k'.task k.curr).status = .running ∧ k'.curr = k.curr ∧ tasks k' = tasks k ∧
      ∀ t, t ≠ k.curr → Fate k k' t := by
  cases run
  refine ⟨by simp [Kernel.setStatus, Kernel.setTask], rfl, rfl, fun t other => ?_⟩
  exact .stays (by simp [Kernel.setStatus, Kernel.setTask, other]) Iff.rfl Iff.rfl

theorem fate_suspend (p : Placed live k) (user : k.curr ≠ .dispatcherTask) {q : TaskQueue}
    (waits : q ≠ .readyTasks) (run : taskSuspend k (some q) = .ok k') (t : Tcb N) :
    Fate k k' t := by
  obtain ⟨m, known, lists, -⟩ := suspend_kept p user q
  cases known.symm.trans run
  have ready : Ready (givenUp k m) t ↔ Ready k t ∧ t ≠ k.curr := by
    change t ∈ elems m .readyTasks ↔ _
    rw [lists, mem_moveTask p.wellFormed]
    simp [waits.symm]
  by_cases own : k.curr = t
  · subst own
    refine .sleeps rfl (current_ready p user) (fun here => (ready.mp here).2 rfl) user.symm ?_
    simp [givenUp, withStatus, user]
  · by_cases target : t = .dispatcherTask
    · subst target
      exact .arrives user rfl (by simp [givenUp, withStatus])
    · refine .stays ?_ ?_ ⟨fun same => absurd same.symm target, fun same => absurd same own⟩
      · simp [givenUp, withStatus, target, Ne.symm own]
      · rw [ready]
        exact and_iff_left (Ne.symm own)

theorem fate_resume (p : Placed live k) {h : Tcb N} {q : TaskQueue} (mem : h ∈ tasks k q)
    (waits : q ≠ .readyTasks) (run : taskResume k (some h) (some q) = .ok k') (t : Tcb N) :
    Fate k k' t := by
  obtain ⟨m, known, lists, -⟩ := resume_kept p mem
  cases known.symm.trans run
  have ready : t ∈ elems m .readyTasks ↔ Ready k t ∨ t = h := by
    rw [lists, mem_moveTask p.wellFormed]
    simp [waits.symm]
  by_cases moved : t = h
  · subst moved
    refine .joins (fun here => waits (p.wellFormed.unique mem here)) (ready.mpr (Or.inr rfl)) ?_ ?_
    · intro own
      have own' : k.curr = t := own
      rw [← own'] at mem
      exact current_nowhere_else p waits mem
    · simp [withStatus]
  · refine .stays ?_ ?_ Iff.rfl
    · simp [withStatus, moved]
    · exact ready.trans (or_iff_left moved)

theorem fate_resumed (p : Placed live k) {q : TaskQueue} (waits : q ≠ .readyTasks)
    (condition : Task → Bool) (after : Task → Task) (keeps : ∀ d, (after d).status = d.status)
    {m : Queues TaskQueue (Tcb N)}
    (lists : elems m = resumeLists (tasks k) q (fun t => condition (k.task t)) (tasks k q) [])
    (t : Tcb N) :
    Fate k { k with queues := m, task := resumedTasks k condition after (tasks k q) } t := by
  have ready : t ∈ elems m .readyTasks ↔
      Ready k t ∨ t ∈ tasks k q ∧ condition (k.task t) = true := by
    rw [lists, resumeLists_target, List.mem_append, List.mem_filter]
  by_cases moved : t ∈ tasks k q ∧ condition (k.task t) = true
  · refine .joins (fun here => waits (p.wellFormed.unique moved.1 here))
      (ready.mpr (Or.inr moved)) ?_ ?_
    · intro own
      have own' : k.curr = t := own
      have mem := moved.1
      rw [← own'] at mem
      exact current_nowhere_else p waits mem
    · simp [resumedTasks, moved, keeps]
  · refine .stays ?_ ?_ Iff.rfl
    · simp only [resumedTasks, if_neg moved]
    · exact ready.trans (or_iff_left moved)

theorem fate_act (p : Placed live k) (user : k.curr ≠ .dispatcherTask) (a : Act k k')
    (t : Tcb N) : Fate k k' t := by
  cases a with
  | quiet idle => exact fate_still (quiet_still idle) t
  | suspend before waits run =>
    refine fate_after (quiet_still before) (fate_suspend (quiet_placed before p) ?_ waits run t)
    rw [before.curr]
    exact user
  | resume before waits run =>
    rename_i j q
    have placed := quiet_placed before p
    rw [placed.wellFormed.head] at run
    rcases waiting : tasks j q with _ | ⟨h, rest⟩
    · rw [waiting] at run
      cases run
    · rw [waiting] at run
      refine fate_after (quiet_still before) (fate_resume placed ?_ waits run t)
      rw [waiting]
      exact List.mem_cons_self
  | drain before waits run =>
    have placed := quiet_placed before p
    obtain ⟨m, known, lists, -⟩ := drain_kept placed waits
    cases known.symm.trans run
    exact fate_after (quiet_still before)
      (fate_resumed placed waits (fun _ => true) id (fun _ => rfl) lists t)

theorem fate_wake (p : Placed live k) (run : wakeTasks k = .ok k') (t : Tcb N) :
    Fate k k' t := by
  obtain ⟨m, known, lists, -⟩ := resumeWhere_kept p (q := .sleepingTasks) (by decide)
    (fun d => d.wakeUpTime ≤ systime k) id fun _ => rfl
  cases known.symm.trans run
  exact fate_resumed p (by decide) (fun d => d.wakeUpTime ≤ systime k) id (fun _ => rfl) lists t

theorem still_schedule {next : Option (Tcb N)} (p : Placed live k)
    (run : scheduler k = .ok (next, k')) : Still k k' := by
  rcases scheduler_kept p with ⟨-, known⟩ | ⟨c, -, known, -⟩
  · cases known.symm.trans run
    exact still_refl k
  · cases known.symm.trans run
    refine ⟨fun t => ?_, rfl, rfl⟩
    simp only [agedTasks]
    split
    · rfl
    · split
      · rfl
      · rfl

/-- A tick only counts, or it makes the running task yield. -/
theorem tick_yields (run : interruptionHandler k = .ok k') :
    toInt ((k.task k.curr).quantum + 1) ≠ quantumLimit ∧ Still k k' ∨
    toInt ((k.task k.curr).quantum + 1) = quantumLimit ∧
      ∃ j, Still k j ∧ taskSwitch j (some .dispatcherTask) = .ok k' := by
  have clock : Still k { k with sysclock := k.sysclock + 1 } := ⟨fun _ => rfl, rfl, rfl⟩
  have counts := still_trans clock (still_setTask { k with sysclock := k.sysclock + 1 } k.curr
    (f := fun d => { d with quantum := toInt (d.quantum + 1) }) fun _ => rfl)
  simp only [interruptionHandler] at run
  split at run
  · rename_i limit
    refine Or.inr ⟨by simpa [Kernel.setTask] using limit, _, ?_, run⟩
    exact still_trans counts
      (still_setTask _ k.curr (f := fun d => { d with quantum := 0 }) fun _ => rfl)
  · rename_i limit
    cases run
    exact Or.inl ⟨by simpa [Kernel.setTask] using limit, counts⟩

theorem fate_init (p : Placed live k) {t : Tcb N} (dead : live t = false) {stack : Bool} {id : Int}
    (run : taskInit k t stack = .ok (k', id)) : (∀ a, Fate k k' a) ∧ Ready k' t := by
  have fresh : ∀ q, t ∉ tasks k q := fun q mem => by
    rw [((p.queued t).mp ⟨q, mem⟩).1] at dead
    cases dead
  have cleared : Function.update k.queues.link t Links.free = k.queues.link := by
    rw [← p.wellFormed.free t fresh, Function.update_eq_self]
  obtain ⟨m, append, r⟩ := p.wellFormed.append_free fresh .readyTasks
  have lists := r.elems_eq
  have known := taskInit_eq cleared append
  cases stack with
  | false => simp [taskInit] at run
  | true =>
    cases known.symm.trans run
    have ready : ∀ a, a ∈ elems m .readyTasks ↔ Ready k a ∨ a = t := by
      intro a
      rw [lists]
      simp
    refine ⟨fun a => ?_, (ready t).mpr (Or.inr rfl)⟩
    by_cases own : a = t
    · subst own
      refine .joins (fresh _) ((ready _).mpr (Or.inr rfl)) ?_ (by simp [initialTask])
      intro same
      have same' : k.curr = a := same
      have alive := current_live p
      rw [same', dead] at alive
      cases alive
    · refine .stays (by simp [own]) ?_ Iff.rfl
      exact (ready a).trans (or_iff_left own)

/-- task_exit switches to the dispatcher by itself. -/
theorem exit_fates (p : Placed live k) (user : k.curr ≠ .dispatcherTask) {code : Int}
    (run : taskExit k code = .ok k') :
    ((k'.task k.curr).status = .terminated ∧ ¬ Ready k' k.curr) ∧
      k'.curr = .dispatcherTask ∧
      (k'.task .dispatcherTask).status = (k.task .dispatcherTask).status ∧
      ∀ t, t ≠ k.curr → t ≠ .dispatcherTask → Fate k k' t := by
  have recorded := exitRecord_placed p code
  obtain ⟨m, resumed, lists, kept⟩ := resumeWhere_kept recorded
    (q := .suspendedTasks) (by decide)
    (fun d => d.waitingTask = ((exitRecord k code).task k.curr).id)
    (fun d => { d with waitingTask := -1 }) fun _ => rfl
  have fates := fate_resumed recorded (q := .suspendedTasks) (by decide)
    (fun d => d.waitingTask = ((exitRecord k code).task k.curr).id)
    (fun d => { d with waitingTask := -1 }) (fun _ => rfl) lists
  have unlisted : ∀ t, t ∉ tasks k .suspendedTasks →
      resumedTasks (exitRecord k code)
        (fun d => decide (d.waitingTask = ((exitRecord k code).task k.curr).id))
        (fun d => { d with waitingTask := -1 }) (tasks (exitRecord k code) .suspendedTasks) t =
      (exitRecord k code).task t := by
    intro t out
    simp only [resumedTasks]
    exact if_neg fun both => out both.1
  rw [taskExit_eq, resumed] at run
  simp only [Except.bind] at run
  split at run
  · cases run
  · obtain ⟨m', r, remove, removed, -⟩ :=
      removal_moved kept.placed user (toInt (k.userTasksNum - 1))
    have remove' : queueRemove m (some .readyTasks) (some k.curr) = .ok (m', r) := remove
    rw [remove'] at run
    cases run
    have ready : ∀ t, t ∈ elems m' .readyTasks ↔ t ∈ elems m .readyTasks ∧ t ≠ k.curr := by
      intro t
      rw [removed, kept.placed.wellFormed.mem_remove]
      change t ∈ elems m .readyTasks ∧ ¬ (_ ∧ t = k.curr) ↔ _
      simp
    refine ⟨⟨?_, fun here => ((ready _).mp here).2 rfl⟩, rfl, ?_, ?_⟩
    · change (resumedTasks _ _ _ _ k.curr).status = _
      rw [unlisted _ (current_nowhere_else p (by decide))]
      simp [exitRecord, Kernel.setStatus, Kernel.setTask]
    · change (resumedTasks _ _ _ _ .dispatcherTask).status = _
      rw [unlisted _ fun mem => ((p.queued _).mp ⟨_, mem⟩).2 rfl, exitRecord_other k code user.symm]
    · intro t other target
      have before := exitRecord_other k code other
      have here : t ∈ elems m' .readyTasks ↔ t ∈ elems m .readyTasks :=
        (ready t).trans (and_iff_left other)
      cases fates t with
      | stays status ready' curr =>
        refine .stays ?_ (here.trans ready') ?_
        · exact status.trans (congrArg Task.status before)
        · exact ⟨fun same => absurd same.symm target, fun same => absurd same.symm other⟩
      | joins out ready' other' status =>
        exact .joins out (here.mpr ready') (Ne.symm target) status
      | sleeps own ready' out gone status => exact absurd own (Ne.symm other)
      | arrives other' own status => exact absurd own other'
      | leaves own gone place status => exact absurd own gone

/-- task_resume of the disk driver. Outside disk_queue only its status is written. -/
theorem driver_fates (p : Placed live k) (alive : live .diskDriverTask = true)
    (run : taskResume k (some .diskDriverTask) (some .diskQueue) = .ok k') :
    (.diskDriverTask ∈ tasks k .diskQueue ∧ ∀ t, Fate k k' t) ∨
    (.diskDriverTask ∉ tasks k .diskQueue ∧ (k'.task .diskDriverTask).status = .ready ∧
      tasks k' = tasks k ∧ k'.curr = k.curr ∧
      ∀ t, t ≠ .diskDriverTask → (k'.task t).status = (k.task t).status) := by
  obtain ⟨q, mem⟩ := (p.queued .diskDriverTask).mpr ⟨alive, by simp⟩
  by_cases here : q = .diskQueue
  · subst here
    exact Or.inl ⟨mem, fate_resume p mem (by simp) run⟩
  · obtain ⟨known, -⟩ := resume_elsewhere_kept p mem here
    cases known.symm.trans run
    refine Or.inr ⟨fun inside => here (p.wellFormed.unique mem inside), ?_, rfl, rfl, ?_⟩
    · simp [withStatus]
    · intro t other
      simp [withStatus, other]

end TaskFates
