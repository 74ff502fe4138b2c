import PingPong.SchedulerDecisions

/-!
task_resume on any task and any queue. It ignores the results of both queue calls and writes
the status in between.
-/
namespace TaskResumption
open MachineModel CircularList QueueModel KernelModel KernelEffects SchedulerDecisions
variable {N : Type} [DecidableEq N] [Fintype N]

abbrev lists (k : Kernel N) : TaskLists N := elems k.queues

/-- The task has gone from the queue to the end of ready_tasks, with status READY. -/
structure Moved (k : Kernel N) (t : Tcb N) (q : TaskQueue) (k' : Kernel N) : Prop where
  queues : lists k' = listAppend (listRemove (lists k) q t) .readyTasks t
  wellFormed : Represents k'.queues (lists k')
  task : k'.task = withStatus k.task t .ready
  rest : { k' with queues := k.queues, task := k.task } = k

/-- A task of the queue moves; for any other task nothing happens. -/
def AllOrNothing (k : Kernel N) (t : Tcb N) (q : TaskQueue) : Prop :=
  ∃ k', taskResume k (some t) (some q) = .ok k' ∧
    (t ∈ lists k q → Moved k t q k') ∧ (t ∉ lists k q → k' = k)

section Outcomes
variable {k : Kernel N} {t : Tcb N} {q : TaskQueue}

theorem resume_member (r : Represents k.queues (lists k)) (mem : t ∈ lists k q) :
    AllOrNothing k t q := by
  obtain ⟨m, run, r'⟩ := taskResume_spec r mem
  have same := r'.elems_eq
  refine ⟨_, run, fun _ => ⟨same, ?_, rfl, rfl⟩, fun out => absurd mem out⟩
  exact r'.read_back

omit [Fintype N] in
theorem withStatus_eq_self (task : Tcb N → Task) {status : TaskState}
    (same : (task t).status = status) : withStatus task t status = task := by
  funext a
  by_cases own : a = t
  · subst own
    simp [withStatus, ← same]
  · simp [withStatus, own]

/-- In another queue: both queue calls fail, and the status is written all the same. -/
theorem resume_elsewhere (r : Represents k.queues (lists k)) {p : TaskQueue}
    (mem : t ∈ lists k p) (out : t ∉ lists k q) :
    AllOrNothing k t q ↔ (k.task t).status = .ready := by
  have other : p ≠ q := fun same => out (same ▸ mem)
  have run := taskResume_elsewhere r mem other
  constructor
  · rintro ⟨k', run', -, nothing⟩
    cases run.symm.trans run'
    have same := congrArg (fun k => (k.task t).status) (nothing out)
    simpa [withStatus] using same.symm
  · intro ready
    refine ⟨_, run, fun mem' => absurd mem' out, fun _ => ?_⟩
    rw [withStatus_eq_self k.task ready]

theorem resume_outside (r : Represents k.queues (lists k)) (out : ∀ p, t ∉ lists k p) :
    ¬ AllOrNothing k t q := by
  obtain ⟨code, -, removed⟩ := r.remove_absent (out q)
  obtain ⟨m, appended, r'⟩ := r.append_free out .readyTasks
  have run : taskResume k (some t) (some q) =
      .ok { k with queues := m, task := withStatus k.task t .ready } := by
    simp only [taskResume, removed, bind, Except.bind, KernelModel.Kernel.setStatus_queues,
      appended]
    rfl
  rintro ⟨k', run', -, nothing⟩
  cases run.symm.trans run'
  have same : m = k.queues := congrArg Kernel.queues (nothing (out q))
  have joined : t ∈ elems m .readyTasks := by
    rw [r'.elems_eq, listAppend_same]
    simp
  rw [same] at joined
  exact out _ joined

end Outcomes

theorem resume_is_all_or_nothing {k : Kernel N} (r : Represents k.queues (lists k)) (t : Tcb N)
    (q : TaskQueue) :
    AllOrNothing k t q ↔
      t ∈ lists k q ∨ (k.task t).status = .ready ∧ ∃ p, t ∈ lists k p := by
  by_cases mem : t ∈ lists k q
  · exact iff_of_true (resume_member r mem) (Or.inl mem)
  · by_cases queued : ∃ p, t ∈ lists k p
    · obtain ⟨p, other⟩ := queued
      rw [resume_elsewhere r other mem]
      exact ⟨fun ready => Or.inr ⟨ready, p, other⟩, fun either =>
        either.elim (fun here => absurd here mem) And.left⟩
    · have out : ∀ p, t ∉ lists k p := fun p here => queued ⟨p, here⟩
      exact iff_of_false (resume_outside r out) fun either =>
        either.elim mem fun both => queued both.2

theorem sleeper_is_resumed : ∃ k : Kernel (Fin 1), lists k .sleepingTasks = [.mainTask] ∧
    AllOrNothing k .mainTask .sleepingTasks := by
  obtain ⟨m, -, r⟩ := taskSuspend_spec (twoReady_represents 0 0)
    (by simp [twoLists, twoReady, bootKernel, zeroedKernel]) .sleepingTasks
  let k : Kernel (Fin 1) := givenUp (twoReady 0 0) m
  have asleep : lists k .sleepingTasks = [.mainTask] := by
    change elems m _ = _
    rw [r.elems_eq, moveTask_target _ (by simp)]
    rfl
  have resumed := (resume_is_all_or_nothing (k := k) r.read_back .mainTask .sleepingTasks).mpr
    (Or.inl (by rw [asleep]; simp))
  exact ⟨k, asleep, resumed⟩

theorem ended_task_is_resumed :
    ¬ ∀ (k : Kernel (Fin 1)) (t : Tcb (Fin 1)) (q : TaskQueue),
      Represents k.queues (lists k) → AllOrNothing k t q := by
  intro claim
  let k : Kernel (Fin 1) := bootKernel.setStatus (.user 0) .terminated
  have r : Represents k.queues bootLists := boot_represents
  obtain ⟨k', run, -, nothing⟩ := claim k (.user 0) .suspendedTasks r.read_back
  have out : (.user 0 : Tcb (Fin 1)) ∉ lists k .suspendedTasks := by
    have same : lists k = bootLists := r.elems_eq
    rw [same]
    simp [bootLists]
  rw [nothing out] at run
  have status : ((taskResume k (some (.user 0)) (some .suspendedTasks)).toOption.map
      fun k => (k.task (.user 0)).status) = some .ready := by decide +kernel
  rw [run] at status
  exact absurd status (by decide)

end TaskResumption
