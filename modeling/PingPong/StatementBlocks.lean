import PingPong.UninterruptedCalls
import PingPong.KernelViews
import PingPong.TaskPlacement

/-!
What the statements of task_init, task_exit, wake_tasks, scheduler, sem_init and sem_destroy come
to when no tick falls between them: the whole operation of KernelModel, loops included.
-/
namespace StatementBlocks
open MachineModel CircularList QueueModel KernelModel KernelViews PreemptionModel
open UninterruptedCalls TaskPlacement
variable {N : Type}

/-- The machine outside any move, about to run the code on this memory. -/
def poised (m : Machine N) (memory : Memory N) (code : Code N) : Machine N :=
  { m with memory := memory, running := ⟨[], none, code⟩ }

variable [DecidableEq N] [Fintype N] {m m' : Machine N} {memory : Memory N} {rest : Code N}

section Statements

theorem assign_alone {a : Assignment N} (more : Alone (poised m (a.write memory) rest) m') :
    Alone (poised m memory (.assign a :: rest)) m' :=
  alone_step rfl more

theorem look_alone {next : Memory N → Code N}
    (more : Alone (poised m memory (next memory ++ rest)) m') :
    Alone (poised m memory (.read next :: rest)) m' :=
  alone_step rfl more

theorem update_alone {a : Assignment N} {next : Memory N → Code N}
    (more : Alone (poised m (a.write memory) (next memory ++ rest)) m') :
    Alone (poised m memory (.update a next :: rest)) m' :=
  alone_step rfl more

theorem loop_alone {l : Loop N} (more : Alone (poised m memory (loopBody l ++ rest)) m') :
    Alone (poised m memory (.loop l :: rest)) m' :=
  alone_step rfl more

theorem host_alone {next : Bool → Code N}
    (more : Alone (poised m memory (next true ++ rest)) m') :
    Alone (poised m memory (.host next :: rest)) m' :=
  alone_step rfl more

end Statements

section Kernel
variable {k : Kernel N}

theorem swap_alone {t : Tcb N} (whole : KernelModel.taskSwitch memory.kernel (some t) = .ok k) :
    Alone (poised m memory (PreemptionModel.taskSwitch (some t) ++ rest))
      ((poised m { memory with kernel := k } rest).swapcontext memory.kernel.curr t) :=
  switch_alone (s := { m with memory := memory }) whole

theorem block_alone {q : TaskQueue}
    (whole : KernelModel.taskSuspend memory.kernel (some q) = .ok k) :
    Alone (poised m memory (PreemptionModel.taskSuspend (some q) ++ rest))
      ((poised m { memory with kernel := k } rest).swapcontext memory.kernel.curr
        .dispatcherTask) :=
  suspend_alone (s := { m with memory := memory }) whole

theorem wake_alone {t : Tcb N} {q : TaskQueue}
    (whole : KernelModel.taskResume memory.kernel (some t) (some q) = .ok k) :
    Alone (poised m memory (PreemptionModel.taskResume (some t) (some q) ++ rest))
      (poised m { memory with kernel := k } rest) :=
  resume_alone (s := { m with memory := memory }) whole

omit [Fintype N] in
/-- Two assignments to one descriptor. -/
theorem setTask_setTask (k : Kernel N) (t : Tcb N) (f g : Task → Task) :
    (k.setTask t f).setTask t g = k.setTask t fun d => g (f d) := by
  simp [Kernel.setTask]

omit [Fintype N] in
/-- The descriptor and the links of a new task before it is appended to the ready queue. -/
def prepared (k : Kernel N) (t : Tcb N) : Kernel N :=
  { { k with lastTaskId := k.lastTaskId + 1 }.setTask t fun _ =>
      initialTask (idOf (k.lastTaskId + 1)) (systime k) with
    queues := ⟨k.queues.head, Function.update k.queues.link t Links.free⟩ }

omit [Fintype N] in
theorem init_counts {t : Tcb N} {k' : Kernel N} {id : Int}
    (whole : KernelModel.taskInit k t true = .ok (k', id)) :
    id = (k'.task t).id ∧ ∃ queues code,
      queueAppend (prepared k t).queues (some .readyTasks) (some t) = .ok (queues, code) ∧
      k' = if ((prepared k t).task t).id = ((prepared k t).task .diskDriverTask).id
        then { prepared k t with
          queues := queues, userTasksNum := toInt (toInt (k.userTasksNum + 1) - 1) }
        else { prepared k t with queues := queues, userTasksNum := toInt (k.userTasksNum + 1) } := by
  simp only [KernelModel.taskInit, Bool.true_eq_false, ↓reduceIte] at whole
  obtain ⟨⟨queues, code⟩, append, whole⟩ := bind_ok whole
  cases whole
  exact ⟨rfl, queues, code, append, rfl⟩

theorem makecontext_alone {t : Tcb N} {start : Code N}
    (more : Alone (poised { m with saved := Function.update m.saved t ⟨[], none, start⟩ } memory
      rest) m') : Alone (poised m memory (.makecontext t start :: rest)) m' :=
  alone_step rfl more

theorem append_alone {t : Tcb N} {queues : Queues TaskQueue (Tcb N)} {code : Int}
    (append : queueAppend memory.kernel.queues (some .readyTasks) (some t) = .ok (queues, code))
    (more : Alone (poised { m with phase := Function.update m.phase t .alive }
      { memory with kernel := { memory.kernel with queues := queues } } rest) m') :
    Alone (poised m memory (.appendReady t :: rest)) m' := by
  refine alone_step ?_ more
  change some (queueAppend memory.kernel.queues _ _ >>= _) = _
  rw [append]
  rfl

/-- The last two statements of task_init. -/
def countTask (t : Tcb N) : Code N :=
  [.assign (.userTasksNum fun n => toInt (n + 1)),
   .read fun m =>
    if (m.kernel.task t).id = (m.kernel.task .diskDriverTask).id
    then [.assign (.userTasksNum fun n => toInt (n - 1))] else []]

theorem init_alone {t : Tcb N} {start : Code N} {id : Int}
    (whole : KernelModel.taskInit memory.kernel t true = .ok (k, id)) :
    Alone (poised m memory (PreemptionModel.taskInit t start ++ rest))
      (poised { m with
        saved := Function.update m.saved t ⟨[], none, start⟩
        phase := Function.update m.phase t .alive } { memory with kernel := k } rest) := by
  obtain ⟨_, queues, code, append, counted⟩ := init_counts whole
  apply host_alone
  apply makecontext_alone
  iterate 3 apply assign_alone
  apply alone_step rfl
  iterate 9 apply assign_alone
  suffices filled : Alone (poised { m with saved := Function.update m.saved t ⟨[], none, start⟩ }
      { memory with kernel := prepared memory.kernel t } (.appendReady t :: countTask t ++ rest)) _ by
    convert filled using 1
    simp [poised, Machine.goto, prepared, Kernel.setTask, Assignment.task, Assignment.lastTaskId,
      initialTask, systime]
    rfl
  apply append_alone append
  apply assign_alone
  apply look_alone
  change Alone (poised _ _ ((if ((prepared memory.kernel t).task t).id =
    ((prepared memory.kernel t).task .diskDriverTask).id then
      [.assign (.userTasksNum fun n => toInt (n - 1))] else []) ++ rest)) _
  rw [counted]
  split
  · apply assign_alone
    exact alone_here _
  · exact alone_here _

end Kernel

section Loops
variable {q : TaskQueue} {t first : Tcb N} {empty : Code N} {last more : Tcb N → Code N}

theorem test_last (head : memory.kernel.queues.head q = some first)
    (ends : some t = (memory.kernel.queues.link first).prev)
    (goes : Alone (poised m memory (last t ++ rest)) m') :
    Alone (poised m memory (loopTest q (some t) empty last more ++ rest)) m' := by
  apply look_alone
  rw [head]
  simp only [ends, ↓reduceIte]
  exact goes

theorem test_more (head : memory.kernel.queues.head q = some first)
    (goesOn : some t ≠ (memory.kernel.queues.link first).prev)
    (goes : Alone (poised m memory (more t ++ rest)) m') :
    Alone (poised m memory (loopTest q (some t) empty last more ++ rest)) m' := by
  apply look_alone
  rw [head]
  simp only [goesOn, ↓reduceIte]
  exact goes

omit [Fintype N] in
/-- One round of a traversal, and what is left of it. -/
theorem sweep_cases {σ : Type} {kernel : σ → Kernel N} {body : Tcb N → σ → Except Halt σ}
    {fuel : Nat} {s s' : σ} (whole : sweep kernel q body fuel (some t) s = .ok s') :
    ∃ first, (kernel s).queues.head q = some first ∧
      (some t = ((kernel s).queues.link first).prev ∧ body t s = .ok s' ∨
        some t ≠ ((kernel s).queues.link first).prev ∧ ∃ less after, less < fuel ∧
          body t s = .ok after ∧
          sweep kernel q body less ((kernel s).queues.link t).next after = .ok s') := by
  cases fuel <;> simp only [sweep] at whole
  all_goals
    split at whole
    · cases whole
    · rename_i first head
      refine ⟨first, head, ?_⟩
      split at whole
      · rename_i last
        exact Or.inl ⟨last, whole⟩
      · rename_i another
        first
        | cases whole
        | split at whole
          · cases whole
          · rename_i fuel after run
            exact Or.inr ⟨another, _, after, Nat.lt_succ_self _, run, whole⟩

/-- A traversal of KernelModel and the loop that runs it: the state of the one is in the memory and
    in the local variables of the other. -/
theorem sweep_alone {σ : Type} {kernel : σ → Kernel N} {body : Tcb N → σ → Except Halt σ}
    (inv : σ → Prop) (held : σ → Memory N) (loop : Option (Tcb N) → σ → Loop N)
    (empty : σ → Code N) (last more : σ → Tcb N → Code N)
    (kernel_held : ∀ s, (held s).kernel = kernel s)
    (round : ∀ aux s, loopBody (loop aux s) = loopTest q aux (empty s) (last s) (more s))
    (kept : ∀ t s s', inv s → body t s = .ok s' → inv s')
    (ends : ∀ t s s', inv s → body t s = .ok s' →
      Alone (poised m (held s) (last s t ++ rest)) (poised m (held s') (empty s' ++ rest)))
    (goesOn : ∀ t s s', inv s → body t s = .ok s' → Alone (poised m (held s) (more s t ++ rest))
      (poised m (held s') (.loop (loop ((kernel s).queues.link t).next s') :: rest)))
    {fuel : Nat} {aux : Option (Tcb N)} {s s' : σ} (start : inv s)
    (whole : sweep kernel q body fuel aux s = .ok s') :
    Alone (poised m (held s) (.loop (loop aux s) :: rest))
      (poised m (held s') (empty s' ++ rest)) := by
  induction fuel using Nat.strong_induction_on generalizing aux s with
  | _ fuel ih =>
    apply loop_alone
    rw [round]
    cases aux with
    | none =>
      have same : s = s' := by cases fuel <;> exact Except.ok.inj whole
      rw [same]
      exact alone_here _
    | some t =>
      obtain ⟨first, head, ⟨lastOne, run⟩ | ⟨another, less, after, smaller, run, whole⟩⟩ :=
        sweep_cases whole
      all_goals rw [← kernel_held] at head
      · rw [← kernel_held] at lastOne
        exact test_last head lastOne (ends t s s' start run)
      · refine test_more head (by rwa [kernel_held]) (alone_trans (goesOn t s after start run) ?_)
        exact ih less smaller (kept t s after start run) whole

end Loops

section Resuming
variable {q : TaskQueue} {condition : Task → Bool} {after : Task → Task} {k : Kernel N}

theorem resumeWhere_sweep (k : Kernel N) : resumeWhere k q condition after =
    sweep id q (fun aux k =>
        if condition (k.task aux) then
          (KernelModel.taskResume k (some aux) (some q)).map fun k => k.setTask aux after
        else .ok k)
      (Fintype.card (Tcb N)) (k.queues.head q) k := by
  unfold resumeWhere
  congr 1
  funext aux k
  split
  · cases KernelModel.taskResume k (some aux) (some q) <;> rfl
  · rfl

/-- wake_tasks and task_exit look at a task, resume it or not, and go on to the next. -/
theorem resumeWhere_alone (inv : Kernel N → Prop) (loop : Option (Tcb N) → Loop N)
    (look : Tcb N → Code N)
    (round : ∀ aux, loopBody (loop aux) = loopTest q aux [] look fun t =>
      [.read fun m => look t ++ [.loop (loop (m.kernel.queues.link t).next)]])
    (kept : ∀ t k k', inv k → KernelModel.taskResume k (some t) (some q) = .ok k' →
      inv (k'.setTask t after))
    (stays : ∀ t k rest, inv k → condition (k.task t) = false →
      Alone (poised m { memory with kernel := k } (look t ++ rest))
        (poised m { memory with kernel := k } rest))
    (resumes : ∀ t k k' rest, inv k → condition (k.task t) = true →
      KernelModel.taskResume k (some t) (some q) = .ok k' →
      Alone (poised m { memory with kernel := k } (look t ++ rest))
        (poised m { memory with kernel := k'.setTask t after } rest))
    (start : inv memory.kernel)
    (whole : resumeWhere memory.kernel q condition after = .ok k) :
    Alone (poised m memory (.loop (loop (memory.kernel.queues.head q)) :: rest))
      (poised m { memory with kernel := k } rest) := by
  rw [resumeWhere_sweep] at whole
  have looks : ∀ t k k' rest, inv k → (if condition (k.task t) then
        (KernelModel.taskResume k (some t) (some q)).map fun k => k.setTask t after
      else .ok k) = Except.ok k' →
      inv k' ∧ Alone (poised m { memory with kernel := k } (look t ++ rest))
        (poised m { memory with kernel := k' } rest) := by
    intro t k k' rest holds body
    split at body
    · rename_i meets
      obtain ⟨j, resumed, rfl⟩ := map_ok body
      exact ⟨kept t k j holds resumed, resumes t k j rest holds meets resumed⟩
    · rename_i fails
      cases body
      exact ⟨holds, stays t k rest holds (Bool.not_eq_true _ ▸ fails)⟩
  exact sweep_alone inv (fun k => { memory with kernel := k }) (fun aux _ => loop aux) (fun _ => [])
    (fun _ => look) _ (fun _ => rfl) (fun aux _ => round aux)
    (fun t k k' holds body => (looks t k k' [] holds body).1)
    (fun t k k' holds body => (looks t k k' rest holds body).2)
    (fun t k k' holds body => look_alone (by
      rw [List.append_assoc]
      exact (looks t k k' _ holds body).2)) start whole

theorem wakeTasks_alone (whole : KernelModel.wakeTasks memory.kernel = .ok k) :
    Alone (poised m memory (PreemptionModel.wakeTasks ++ rest))
      (poised m { memory with kernel := k } rest) := by
  have sleepers : resumeWhere memory.kernel .sleepingTasks
      (fun d => d.wakeUpTime ≤ systime memory.kernel) id = .ok k := whole
  apply look_alone
  apply look_alone
  refine resumeWhere_alone (fun _ => True) (fun aux => .wakeTasks aux (systime memory.kernel))
    (wakeTask (systime memory.kernel)) (fun _ => rfl) (fun _ _ _ _ _ => trivial) ?_ ?_ trivial
    sleepers
  · intro t k rest _ asleep
    apply look_alone
    have later : ¬ (k.task t).wakeUpTime ≤ systime memory.kernel := of_decide_eq_false asleep
    simp only [later, ↓reduceIte]
    exact alone_here _
  · intro t k k' rest _ due resumed
    apply look_alone
    have now : (k.task t).wakeUpTime ≤ systime memory.kernel := of_decide_eq_true due
    simp only [now, ↓reduceIte]
    have same : k'.setTask t id = k' := by simp [Kernel.setTask]
    rw [same]
    exact wake_alone resumed

theorem exitTasks_alone (memory : Memory N) (prev : Tcb N) (here : memory.kernel.curr = prev)
    (whole : resumeWhere memory.kernel .suspendedTasks
      (fun d => d.waitingTask = (memory.kernel.task prev).id)
      (fun d => { d with waitingTask := -1 }) = .ok k) :
    Alone (poised m memory
        (.loop (.exitTasks (memory.kernel.queues.head .suspendedTasks)) :: rest))
      (poised m { memory with kernel := k } rest) := by
  -- neither curr nor its id changes while the waiting tasks are resumed
  have blind : Blind fun k : Kernel N => (k.curr, fun t => (k.task t).id) :=
    blind_pair blind_curr (blind_field fun _ _ _ _ => rfl)
  have id_of : ∀ {j : Kernel N}, (j.curr, fun t => (j.task t).id) =
      (memory.kernel.curr, fun t => (memory.kernel.task t).id) →
      (j.task j.curr).id = (memory.kernel.task prev).id := by
    intro j same
    obtain ⟨curr, ids⟩ := Prod.mk.inj same
    rw [curr, here]
    exact congrFun ids prev
  refine resumeWhere_alone (fun j => (j.curr, fun t => (j.task t).id) =
    (memory.kernel.curr, fun t => (memory.kernel.task t).id)) (fun aux => .exitTasks aux)
    resumeWaiting (fun _ => rfl) ?_ ?_ ?_ rfl whole
  · intro t j j' same resumed
    exact (blind.task j' t _ fun _ => rfl).trans ((resume_blind blind resumed).trans same)
  · intro t j rest same other
    apply look_alone
    have differs : ¬ (j.task t).waitingTask = (j.task j.curr).id := by
      rw [id_of same]
      exact of_decide_eq_false other
    simp only [differs, ↓reduceIte]
    exact alone_here _
  · intro t j j' rest same awaits resumed
    apply look_alone
    have waits : (j.task t).waitingTask = (j.task j.curr).id := by
      rw [id_of same]
      exact of_decide_eq_true awaits
    simp only [waits, ↓reduceIte]
    apply alone_trans (wake_alone resumed)
    apply assign_alone
    exact alone_here _

theorem exit_alone {exitCode : Int}
    (whole : KernelModel.taskExit memory.kernel exitCode = .ok k) :
    Alone (poised m memory (PreemptionModel.taskExit exitCode ++ rest))
      { (poised m { memory with kernel := k } rest).swapcontext memory.kernel.curr
          .dispatcherTask with
        phase := Function.update m.phase memory.kernel.curr .ended } := by
  rw [taskExit_eq] at whole
  obtain ⟨j, resumed, whole⟩ := bind_ok whole
  apply assign_alone
  apply look_alone
  apply assign_alone
  apply assign_alone
  apply assign_alone
  apply look_alone
  refine alone_trans (exitTasks_alone { memory with kernel := exitRecord memory.kernel exitCode }
    memory.kernel.curr rfl resumed) ?_
  apply look_alone
  change Alone (poised m { memory with kernel := j }
    ((if (j.task memory.kernel.curr).id = dispatcherPid then [.halt (.exit 0)]
      else [.removeReady memory.kernel.curr]) ++ rest)) _
  split at whole
  · cases whole
  · rename_i user
    obtain ⟨⟨queues, code⟩, remove, whole⟩ := bind_ok whole
    cases whole
    rw [if_neg user]
    have removed : advance (poised m { memory with kernel := j }
        (.removeReady memory.kernel.curr :: rest)) true =
        some (.ok { poised m { memory with kernel := { j with queues := queues } } rest with
          running := ⟨[], some ⟨memory.kernel.curr, .uncount⟩, rest⟩ }) := by
      change some (queueRemove j.queues (some .readyTasks) (some memory.kernel.curr) >>= _) = _
      rw [remove]
      rfl
    apply alone_step removed
    apply alone_step rfl
    apply alone_step rfl
    apply alone_step rfl
    exact alone_here _

end Resuming

section Scheduling
variable {k : Kernel N} {start : UInt32}

theorem choose_alone {first next : Tcb N}
    (whole : sweep (fun _ => memory.kernel) .readyTasks
      (fun aux next => .ok (betterTask memory.kernel aux next)) (Fintype.card (Tcb N))
      (some first) first = .ok next) :
    Alone (poised m memory (.loop (.chooseTask (some first) (some first) start) :: rest))
      (poised m memory (ageTasks (some next) start ++ rest)) := by
  refine sweep_alone (fun _ => True) (fun _ => memory)
    (fun aux next => .chooseTask aux (some next) start) (fun next => ageTasks (some next) start) _ _
    (fun _ => rfl) (fun _ _ => rfl) (fun _ _ _ _ _ => trivial) ?_ ?_ trivial whole
  · intro t next better _ body
    cases body
    apply look_alone
    exact alone_here _
  · intro t next better _ body
    cases body
    apply look_alone
    apply look_alone
    exact alone_here _

theorem age_alone {next : Option (Tcb N)} {aux : Option (Tcb N)}
    (whole : sweep id .readyTasks (fun aux k => .ok (KernelModel.ageTask k aux))
      (Fintype.card (Tcb N)) aux memory.kernel = .ok k) :
    Alone (poised m memory (.loop (.ageTasks aux next start) :: rest))
      (poised m { memory with kernel := k } (dispatch next start ++ rest)) := by
  refine sweep_alone (fun _ => True) (fun k => { memory with kernel := k })
    (fun aux _ => .ageTasks aux next start) (fun _ => dispatch next start) _ _
    (fun _ => rfl) (fun _ _ => rfl) (fun _ _ _ _ _ => trivial) ?_ ?_ trivial whole
  · intro t j j' _ body
    cases body
    apply assign_alone
    exact alone_here _
  · intro t j j' _ body
    cases body
    apply assign_alone
    apply look_alone
    exact alone_here _

/-- The code of the dispatcher once the scheduler has returned. -/
def scheduled (next : Option (Tcb N)) (start : UInt32) : Code N :=
  match next with
  | none => dispatch none start
  | some t => (dispatch (some t) start).tail

theorem scheduler_alone {next : Option (Tcb N)}
    (whole : KernelModel.scheduler memory.kernel = .ok (next, k)) :
    Alone (poised m memory (PreemptionModel.scheduler start ++ rest))
      (poised m { memory with kernel := k } (scheduled next start ++ rest)) := by
  simp only [KernelModel.scheduler] at whole
  apply look_alone
  apply look_alone
  change Alone (poised m memory (.loop (.chooseTask (memory.kernel.queues.head .readyTasks)
    (memory.kernel.queues.head .readyTasks) start) :: rest)) _
  split at whole
  · rename_i vacant
    cases whole
    rw [vacant]
    apply loop_alone
    apply look_alone
    change Alone (poised m memory (.loop (.ageTasks (memory.kernel.queues.head .readyTasks)
      none start) :: rest)) _
    rw [vacant]
    apply loop_alone
    exact alone_here _
  · rename_i first head
    obtain ⟨chosen, choose, whole⟩ := bind_ok whole
    obtain ⟨aged, age, whole⟩ := bind_ok whole
    cases whole
    rw [head]
    apply alone_trans (choose_alone choose)
    apply look_alone
    change Alone (poised m memory (.loop (.ageTasks (memory.kernel.queues.head .readyTasks)
      (some chosen) start) :: rest)) _
    rw [head]
    apply alone_trans (age_alone age)
    apply assign_alone
    exact alone_here _

end Scheduling

section Semaphores
variable {k : Kernel N} {a : SemAddr}

theorem enter_poised (whole : KernelModel.enterCs memory.kernel a = .ok k) :
    Alone (poised m memory (.loop (.enterCs a) :: rest))
      (poised m { memory with kernel := k } rest) :=
  enter_alone (s := { m with memory := memory }) whole

theorem down_poised {result : Option Int}
    (whole : KernelModel.semDown memory.kernel (some a) = .ok (k, result)) :
    Alone (poised m memory (PreemptionModel.semDown (some a) ++ rest))
      (if result = none then
        (poised m { memory with kernel := k } rest).swapcontext memory.kernel.curr .dispatcherTask
      else poised m { memory with kernel := k } rest) :=
  down_alone (s := { m with memory := memory }) whole

theorem up_poised {result : Int}
    (whole : KernelModel.semUp memory.kernel (some a) = .ok (k, result)) :
    Alone (poised m memory (PreemptionModel.semUp (some a) ++ rest))
      (poised m { memory with kernel := k } rest) :=
  up_alone (s := { m with memory := memory }) whole

theorem semInit_alone (value : Int) :
    Alone (poised m memory (PreemptionModel.semInit (some a) value ++ rest))
      (poised m { memory with kernel := (KernelModel.semInit memory.kernel (some a) value).1 }
        rest) := by
  apply assign_alone
  apply alone_step rfl
  apply assign_alone
  exact alone_here _

/-- One round of the loop of sem_destroy, and what is left of it. -/
theorem drain_cases {q : TaskQueue} {fuel : Nat} {k' : Kernel N}
    (whole : drainQueue q fuel k = .ok k') :
    k.queues.head q = none ∧ k' = k ∨ ∃ t less after, k.queues.head q = some t ∧ less < fuel ∧
      KernelModel.taskResume k (some t) (some q) = .ok after ∧ drainQueue q less after = .ok k' := by
  unfold drainQueue at whole
  split at whole
  · rename_i vacant
    cases whole
    exact Or.inl ⟨vacant, rfl⟩
  · rename_i t head
    split at whole
    · cases whole
    · rename_i less
      split at whole
      · cases whole
      · rename_i after resumed
        exact Or.inr ⟨t, less, after, head, Nat.lt_succ_self less, resumed, whole⟩

theorem drain_alone {fuel : Nat} (whole : drainQueue (.semQueue a) fuel memory.kernel = .ok k) :
    Alone (poised m memory (.loop (.semDestroy a) :: rest))
      (poised m { memory with kernel := k } rest) := by
  induction fuel using Nat.strong_induction_on generalizing memory with
  | _ fuel ih =>
    apply loop_alone
    apply look_alone
    rcases drain_cases whole with ⟨vacant, rfl⟩ | ⟨t, less, after, head, smaller, resumed, more⟩
    · rw [if_pos vacant]
      exact alone_here _
    · rw [head, if_neg (by simp)]
      apply look_alone
      rw [head]
      exact alone_trans (wake_alone resumed) (ih less smaller more)

theorem destroy_alone {result : Int}
    (whole : KernelModel.semDestroy memory.kernel (some a) = .ok (k, result)) :
    Alone (poised m memory (PreemptionModel.semDestroy (some a) ++ rest))
      (poised m { memory with kernel := k } rest) := by
  simp only [KernelModel.semDestroy] at whole
  apply look_alone
  split at whole
  · rename_i inactive
    cases whole
    rw [if_pos inactive]
    exact alone_here _
  · rename_i active
    rw [if_neg active]
    obtain ⟨j, drained, same⟩ := map_ok whole
    cases same
    apply assign_alone
    exact drain_alone drained

end Semaphores

end StatementBlocks
