import PingPong.PreemptionModel

/-!
The statements of a kernel call, one after another with no tick in between, do what the call
does in one piece.
-/
namespace UninterruptedCalls
open MachineModel CircularList QueueModel KernelModel PreemptionModel TransitionRuns
variable {N : Type} [DecidableEq N] [Fintype N]

/-- Some statements of the running code, and nothing else, lead from one state to the other. -/
def Alone (s s' : Machine N) : Prop :=
  ∃ n, Run (fun a l b => step a l = some (.ok b)) s (List.replicate n (.run true)) s'

variable {s s' s'' : Machine N} {rest : Code N}

theorem alone_here (s : Machine N) : Alone s s := ⟨0, .start s⟩

theorem alone_trans (first : Alone s s') (second : Alone s' s'') : Alone s s'' := by
  obtain ⟨n, run⟩ := first
  obtain ⟨m, more⟩ := second
  refine ⟨n + m, ?_⟩
  rw [List.replicate_add]
  exact run_append run more

theorem alone_step (next : advance s true = some (.ok s')) (more : Alone s' s'') : Alone s s'' :=
  alone_trans ⟨1, run_one next⟩ more

/-- A statement that reads goes on with what it has chosen. -/
theorem alone_read {next : Memory N → Code N}
    (more : Alone (s.goto ⟨[], none, next s.memory ++ rest⟩) s') :
    Alone (s.goto ⟨[], none, .read next :: rest⟩) s' :=
  alone_step rfl more

theorem switch_alone {t : Tcb N} {k : Kernel N}
    (whole : KernelModel.taskSwitch s.kernel (some t) = .ok k) :
    Alone (s.goto ⟨[], none, PreemptionModel.taskSwitch (some t) ++ rest⟩)
      (((s.withKernel k).goto ⟨[], none, rest⟩).swapcontext s.curr t) := by
  cases whole
  apply alone_step rfl
  apply alone_step rfl
  apply alone_step rfl
  apply alone_step rfl
  apply alone_step rfl
  exact alone_here _

theorem move_alone (task : Option (Tcb N)) (status : TaskState) (rest : Code N)
    {source target : TaskQueue} {removed appended : Queues TaskQueue (Tcb N)} {code₁ code₂ : Int}
    (remove : queueRemove s.queues (some source) (some (task.getD s.curr)) = .ok (removed, code₁))
    (append : queueAppend removed (some target) (some (task.getD s.curr)) = .ok (appended, code₂)) :
    Alone (s.goto ⟨[], none, .move (.remove task source status target) :: rest⟩)
      ((s.withKernel ({ s.kernel with queues := appended }.setStatus (task.getD s.curr)
        status)).goto ⟨[], none, rest⟩) := by
  have taken : advance (s.goto ⟨[], none, .move (.remove task source status target) :: rest⟩) true =
      some (.ok ((s.withQueues removed).goto ⟨[.mark task status target], none, rest⟩)) := by
    change some (queueRemove s.queues (some source) (some (task.getD s.curr)) >>= _) = _
    rw [remove]
    rfl
  apply alone_step taken
  apply alone_step rfl
  refine alone_step ?_ (alone_here _)
  change some (queueAppend removed (some target) (some (task.getD s.curr)) >>= _) = _
  rw [append]
  rfl

theorem resume_alone {t : Tcb N} {q : TaskQueue} {k : Kernel N}
    (whole : KernelModel.taskResume s.kernel (some t) (some q) = .ok k) :
    Alone (s.goto ⟨[], none, PreemptionModel.taskResume (some t) (some q) ++ rest⟩)
      ((s.withKernel k).goto ⟨[], none, rest⟩) := by
  obtain ⟨⟨removed, code₁⟩, remove, whole⟩ := bind_ok whole
  obtain ⟨⟨appended, code₂⟩, append, whole⟩ := bind_ok whole
  cases whole
  exact move_alone (some t) .ready rest remove append

theorem suspend_alone {q : TaskQueue} {k : Kernel N}
    (whole : KernelModel.taskSuspend s.kernel (some q) = .ok k) :
    Alone (s.goto ⟨[], none, PreemptionModel.taskSuspend (some q) ++ rest⟩)
      (((s.withKernel k).goto ⟨[], none, rest⟩).swapcontext s.curr .dispatcherTask) := by
  obtain ⟨⟨removed, code₁⟩, remove, whole⟩ := bind_ok whole
  obtain ⟨⟨appended, code₂⟩, append, whole⟩ := bind_ok whole
  have moves := move_alone none .suspended
    (PreemptionModel.taskSwitch (some .dispatcherTask) ++ rest) remove append
  exact alone_trans moves (switch_alone whole)

section Semaphores
variable {a : SemAddr} {k : Kernel N}

omit [DecidableEq N] [Fintype N] in
theorem enter_curr {k k' : Kernel N} (whole : KernelModel.enterCs k a = .ok k') :
    k'.curr = k.curr := by
  unfold KernelModel.enterCs at whole
  split at whole
  · cases whole
  · cases whole
    rfl

/-- The spin lock, when it is free. -/
theorem enter_alone (whole : KernelModel.enterCs s.kernel a = .ok k) :
    Alone (s.goto ⟨[], none, .loop (.enterCs a) :: rest⟩)
      ((s.withKernel k).goto ⟨[], none, rest⟩) := by
  unfold KernelModel.enterCs at whole
  split at whole
  · cases whole
  · rename_i busy
    have free : (s.kernel.sem a).lock = 0 := not_not.mp busy
    cases whole
    apply alone_step rfl
    refine alone_step ?_ (alone_here _)
    change some (Except.ok _) = some (Except.ok _)
    simp only [Machine.goto, Machine.withKernel, Assignment.sem, Kernel.setSem, free, ↓reduceIte]
    rfl

/-- A locked update of the counter, with what its new value decides. -/
theorem critical_alone {f : Semaphore → Semaphore} {next : Memory N → Code N}
    (enter : KernelModel.enterCs s.kernel a = .ok k) :
    Alone (s.goto ⟨[], none, .loop (.enterCs a) ::
        .update (.sem a f) (fun m => PreemptionModel.leaveCs a :: next m) :: rest⟩)
      ((s.withKernel (KernelModel.leaveCs (k.setSem a f) a)).goto
        ⟨[], none, next { s.memory with kernel := k } ++ rest⟩) := by
  apply alone_trans (enter_alone enter)
  apply alone_step rfl
  apply alone_step rfl
  exact alone_here _

theorem down_alone {result : Option Int}
    (whole : KernelModel.semDown s.kernel (some a) = .ok (k, result)) :
    Alone (s.goto ⟨[], none, PreemptionModel.semDown (some a) ++ rest⟩)
      (if result = none then
        ((s.withKernel k).goto ⟨[], none, rest⟩).swapcontext s.curr .dispatcherTask
      else (s.withKernel k).goto ⟨[], none, rest⟩) := by
  simp only [KernelModel.semDown] at whole
  apply alone_read
  split at whole
  · rename_i inactive
    cases whole
    rw [if_pos inactive]
    exact alone_here _
  · rename_i active
    rw [if_neg active]
    obtain ⟨entered, enter, whole⟩ := bind_ok whole
    apply alone_trans (critical_alone enter)
    change Alone (Machine.goto _ ⟨[], none, (if toInt ((entered.sem a).value - 1) < 0 then
      PreemptionModel.taskSuspend (some (.semQueue a)) else []) ++ rest⟩) _
    split at whole
    · rename_i wait
      obtain ⟨k', suspended, eq⟩ := map_ok whole
      cases eq
      have curr : entered.curr = s.curr := enter_curr enter
      rw [if_pos wait, if_pos rfl, ← curr]
      exact suspend_alone (s := s.withKernel _) suspended
    · rename_i goesOn
      cases whole
      rw [if_neg goesOn, if_neg (by simp)]
      exact alone_here _

theorem up_alone {result : Int}
    (whole : KernelModel.semUp s.kernel (some a) = .ok (k, result)) :
    Alone (s.goto ⟨[], none, PreemptionModel.semUp (some a) ++ rest⟩)
      ((s.withKernel k).goto ⟨[], none, rest⟩) := by
  simp only [KernelModel.semUp] at whole
  apply alone_read
  split at whole
  · rename_i inactive
    cases whole
    rw [if_pos inactive]
    exact alone_here _
  · rename_i active
    rw [if_neg active]
    obtain ⟨entered, enter, whole⟩ := bind_ok whole
    apply alone_trans (critical_alone enter)
    apply alone_read
    change Alone (Machine.goto _ ⟨[], none, (if toInt ((entered.sem a).value + 1) ≤ 0 ∧
      entered.queues.head (.semQueue a) ≠ none then resumeFirst (.semQueue a) else []) ++ rest⟩) _
    split at whole
    · rename_i wakes
      obtain ⟨k', resumed, eq⟩ := map_ok whole
      cases eq
      have waiting : entered.queues.head (.semQueue a) ≠ none := wakes.2
      obtain ⟨t, first⟩ := Option.ne_none_iff_exists'.mp waiting
      have head : (KernelModel.leaveCs (entered.setSem a fun x => { x with
        value := toInt ((entered.sem a).value + 1) }) a).queues.head (.semQueue a) = some t := first
      rw [head] at resumed
      rw [if_pos ⟨wakes.1, waiting⟩]
      apply alone_read
      change Alone (Machine.goto _ ⟨[], none,
        PreemptionModel.taskResume (entered.queues.head (.semQueue a)) _ ++ rest⟩) _
      rw [first]
      exact resume_alone (s := s.withKernel _) resumed
    · rename_i idle
      cases whole
      have goesOn : ¬ (toInt ((entered.sem a).value + 1) ≤ 0 ∧
        entered.queues.head (.semQueue a) ≠ none) := idle
      rw [if_neg goesOn]
      exact alone_here _

end Semaphores

end UninterruptedCalls
