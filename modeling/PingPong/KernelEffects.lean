import PingPong.KernelModel

/-! What each kernel operation does to the abstract queues and to the descriptors.
   Later modules use these statements and never unfold the operations. -/
namespace KernelEffects
open MachineModel CircularList QueueModel KernelModel
variable {N : Type} [DecidableEq N]

abbrev TaskLists (N : Type) := TaskQueue → List (Tcb N)

/-- Leave queue p and join the end of queue q. -/
def moveTask (qs : TaskLists N) (p q : TaskQueue) (t : Tcb N) : TaskLists N :=
  listAppend (listRemove qs p t) q t

theorem moveTask_other {qs : TaskLists N} {p q r : TaskQueue} (t : Tcb N) (rp : r ≠ p)
    (rq : r ≠ q) : moveTask qs p q t r = qs r := by
  rw [moveTask, listAppend_other _ _ rq, listRemove_other _ _ rp]

theorem moveTask_source {qs : TaskLists N} {p q : TaskQueue} (t : Tcb N) (pq : p ≠ q) :
    moveTask qs p q t p = (qs p).erase t := by
  rw [moveTask, listAppend_other _ _ pq, listRemove_same]

theorem moveTask_target {qs : TaskLists N} {p q : TaskQueue} (t : Tcb N) (pq : p ≠ q) :
    moveTask qs p q t q = qs q ++ [t] := by
  rw [moveTask, listAppend_same, listRemove_other _ _ pq.symm]

namespace KernelModel.Kernel

@[simp] theorem setTask_queues (k : Kernel N) (t : Tcb N) (f : Task → Task) :
    (k.setTask t f).queues = k.queues := rfl

@[simp] theorem setTask_curr (k : Kernel N) (t : Tcb N) (f : Task → Task) :
    (k.setTask t f).curr = k.curr := rfl

@[simp] theorem setTask_sem (k : Kernel N) (t : Tcb N) (f : Task → Task) :
    (k.setTask t f).sem = k.sem := rfl

@[simp] theorem setStatus_queues (k : Kernel N) (t : Tcb N) (status : TaskState) :
    (k.setStatus t status).queues = k.queues := rfl

@[simp] theorem setStatus_curr (k : Kernel N) (t : Tcb N) (status : TaskState) :
    (k.setStatus t status).curr = k.curr := rfl

@[simp] theorem setStatus_sem (k : Kernel N) (t : Tcb N) (status : TaskState) :
    (k.setStatus t status).sem = k.sem := rfl

@[simp] theorem setStatus_id (k : Kernel N) (t a : Tcb N) (status : TaskState) :
    ((k.setStatus t status).task a).id = (k.task a).id := by
  simp only [Kernel.setStatus, Kernel.setTask, Function.update_apply]
  split
  · subst a; rfl
  · rfl

theorem setStatus_other (k : Kernel N) {t a : Tcb N} (status : TaskState) (ne : a ≠ t) :
    (k.setStatus t status).task a = k.task a := by
  simp [Kernel.setStatus, Kernel.setTask, ne]

end KernelModel.Kernel

def withStatus (task : Tcb N → Task) (t : Tcb N) (status : TaskState) : Tcb N → Task :=
  Function.update task t { task t with status := status }

@[simp] theorem withStatus_id (task : Tcb N → Task) (t a : Tcb N) (status : TaskState) :
    (withStatus task t status a).id = (task a).id := by
  simp only [withStatus, Function.update_apply]
  split
  · subst a; rfl
  · rfl

theorem withStatus_other (task : Tcb N → Task) {t a : Tcb N} (status : TaskState)
    (ne : a ≠ t) : withStatus task t status a = task a := by simp [withStatus, ne]

variable [Fintype N]

/-- The kernel after curr has left the processor to the dispatcher. -/
def givenUp (k : Kernel N) (queues : Queues TaskQueue (Tcb N)) : Kernel N :=
  { k with
    queues := queues
    task := withStatus (withStatus k.task k.curr .suspended) .dispatcherTask .running
    curr := .dispatcherTask }

theorem taskSuspend_spec {k : Kernel N} {qs : TaskLists N} (r : Represents k.queues qs)
    (running : k.curr ∈ qs .readyTasks) (q : TaskQueue) :
    ∃ m, taskSuspend k (some q) = .ok (givenUp k m) ∧
      Represents m (moveTask qs .readyTasks q k.curr) := by
  obtain ⟨m₁, remove, r₁, _⟩ := r.remove_mem running
  have out : ∀ p, k.curr ∉ listRemove qs .readyTasks k.curr p := by
    intro p mem
    obtain ⟨inside, other⟩ := r.mem_remove.mp mem
    exact other ⟨r.unique inside running, rfl⟩
  obtain ⟨m₂, append, r₂⟩ := r₁.append_free out q
  refine ⟨m₂, ?_, r₂⟩
  simp only [taskSuspend, remove, bind, Except.bind, KernelModel.Kernel.setStatus_queues,
    KernelModel.Kernel.setStatus_curr, append, taskSwitch, givenUp, withStatus]
  simp [Kernel.setStatus, Kernel.setTask]

theorem taskResume_spec {k : Kernel N} {qs : TaskLists N} (r : Represents k.queues qs)
    {t : Tcb N} {q : TaskQueue} (mem : t ∈ qs q) :
    ∃ m, taskResume k (some t) (some q) =
        .ok { k with queues := m, task := withStatus k.task t .ready } ∧
      Represents m (moveTask qs q .readyTasks t) := by
  obtain ⟨m₁, remove, r₁, _⟩ := r.remove_mem mem
  have out : ∀ p, t ∉ listRemove qs q t p := by
    intro p inside
    obtain ⟨inside, other⟩ := r.mem_remove.mp inside
    exact other ⟨r.unique inside mem, rfl⟩
  obtain ⟨m₂, append, r₂⟩ := r₁.append_free out .readyTasks
  refine ⟨m₂, ?_, r₂⟩
  simp only [taskResume, remove, bind, Except.bind, KernelModel.Kernel.setStatus_queues, append]
  rfl

/-- On a task of another queue both queue calls fail and only the status is written. -/
theorem taskResume_elsewhere {k : Kernel N} {qs : TaskLists N} (r : Represents k.queues qs)
    {t : Tcb N} {p q : TaskQueue} (mem : t ∈ qs p) (ne : p ≠ q) :
    taskResume k (some t) (some q) = .ok { k with task := withStatus k.task t .ready } := by
  have out : t ∉ qs q := fun inside => ne (r.unique mem inside)
  obtain ⟨code, _, remove⟩ := r.remove_absent out
  have append := r.append_busy mem .readyTasks
  simp only [taskResume, remove, bind, Except.bind, KernelModel.Kernel.setStatus_queues, append]
  rfl

/-- A queue variable with the ring behind it, whatever the other queues hold. -/
structure Listed (m : Queues TaskQueue (Tcb N)) (q : TaskQueue) (l : List (Tcb N)) : Prop where
  head : m.head q = l.head?
  ring : Ring m.link l

omit [DecidableEq N] [Fintype N] in
theorem represents_listed {m : Queues TaskQueue (Tcb N)} {qs : TaskLists N}
    (r : Represents m qs) (q : TaskQueue) : Listed m q (qs q) := ⟨r.head q, r.ring q⟩

omit [Fintype N] in
theorem sweep_rule {σ : Type} {kernel : σ → Kernel N} {q : TaskQueue}
    {body : Tcb N → σ → Except Halt σ} {inv : List (Tcb N) → σ → Prop}
    (shape : ∀ a rest s, inv (a :: rest) s →
      ∃ l pre, Listed (kernel s).queues q l ∧ l = pre ++ a :: rest)
    (step : ∀ a rest s, inv (a :: rest) s → ∃ s', body a s = .ok s' ∧ inv rest s')
    {fuel : Nat} {l : List (Tcb N)} {s : σ} (start : inv l s) (budget : l.length ≤ fuel) :
    ∃ s', sweep kernel q body fuel l.head? s = .ok s' ∧ inv [] s' := by
  induction l generalizing fuel s with
  | nil => exact ⟨s, by cases fuel <;> rfl, start⟩
  | cons a rest ih =>
    obtain ⟨l, pre, ⟨head, ring⟩, split⟩ := shape a rest s start
    obtain ⟨s', run, next⟩ := step a rest s start
    obtain ⟨first, others, whole⟩ : ∃ first others, l = first :: others := by
      cases pre with
      | nil => exact ⟨a, rest, split⟩
      | cons b pre => exact ⟨b, pre ++ a :: rest, split⟩
    have headEq : (kernel s).queues.head q = some first := by rw [head, whole]; rfl
    have last : ((kernel s).queues.link first).prev = some (l.getLast (by simp [whole])) := by
      rw [whole] at ring
      rw [ring_head_prev ring]
      simp only [whole]
    cases rest with
    | nil =>
      have here : ((kernel s).queues.link first).prev = some a := by
        rw [last]; simp only [split]; simp
      refine ⟨s', ?_, next⟩
      cases fuel <;> simp [sweep, headEq, here, run]
    | cons b rest =>
      cases fuel with
      | zero => simp at budget
      | succ fuel =>
        have more : ((kernel s).queues.link first).prev ≠ some a := by
          rw [last]
          intro same
          have isLast : l.getLast (by simp [whole]) = a := Option.some.inj same
          have nodup := ring.nodup
          rw [split] at nodup
          simp only [split] at isLast
          rw [List.getLast_append_of_right_ne_nil _ _ (by simp),
            List.getLast_cons (List.cons_ne_nil b rest)] at isLast
          have tail := (List.nodup_cons.mp (List.nodup_append.mp nodup).2.1).1
          exact tail (isLast ▸ List.getLast_mem _)
        have link : ((kernel s).queues.link a).next = some b := by
          rw [split] at ring; exact ring_next ring
        obtain ⟨final, rest', done⟩ := ih next (by simpa using budget)
        refine ⟨final, ?_, done⟩
        simp only [List.head?_cons, sweep, headEq, Ne.symm more, ↓reduceIte, run, link]
        exact rest'

section Boot

/-- The kernel that ppos_init leaves: main runs and is the only ready task. -/
def bootLists : TaskLists N
  | .readyTasks => [.mainTask]
  | _ => []

def bootKernel : Kernel N :=
  { zeroedKernel with
    queues := ⟨fun q => (bootLists q).head?,
      Function.update (fun _ => Links.free) .mainTask ⟨some .mainTask, some .mainTask⟩⟩
    task := fun t => match t with
      | .mainTask => { zeroedTask with activations := 1, waitingTask := -1 }
      | .dispatcherTask => { zeroedTask with
          id := dispatcherPid, status := .running, staticPriority := maxPriority,
          waitingTask := -1, quantum := -intMax }
      | .diskDriverTask => { zeroedTask with id := -2 }
      | .user _ => zeroedTask
    userTasksNum := 1 }

omit [Fintype N] in
theorem pposInit_boot (sem : SemAddr → Semaphore) :
    pposInit { (zeroedKernel : Kernel N) with sem := sem } true =
      .ok { bootKernel with sem := sem } := by
  simp only [pposInit, dispatcherInit, mainInit, bind, Except.bind, queueAppend]
  simp [zeroedKernel, bootKernel, Kernel.setTask, Links.free]
  refine ⟨⟨?_, ?_⟩, ?_, by decide⟩
  · funext q; cases q <;> rfl
  · funext t; cases t <;> rfl
  · funext t; cases t <;> simp [systime, zeroedTask, mainPid, defaultPriority]

omit [Fintype N] in
theorem boot_represents : Represents (bootKernel : Kernel N).queues bootLists := by
  have only : ∀ {t q}, t ∈ (bootLists q : List (Tcb N)) → t = .mainTask ∧ q = .readyTasks := by
    intro t q mem
    cases q <;> simp_all [bootLists]
  refine ⟨fun q => rfl, fun q => ?_, fun hp hq => (only hp).2.trans (only hq).2.symm, ?_⟩
  · cases q with
    | readyTasks => exact ring_singleton (by simp [bootKernel]) (by simp [bootKernel])
    | _ => exact ring_nil _
  · intro t out
    have other : t ≠ .mainTask := fun eq => out .readyTasks (by simp [bootLists, eq])
    simp [bootKernel, other]

end Boot

section Scheduler

/-- The first of the smallest, in list order. -/
def FirstLeast {T : Type} (key : T → Int) (l : List T) (c : T) : Prop :=
  ∃ pre post, l = pre ++ c :: post ∧ (∀ x ∈ pre, key c < key x) ∧ ∀ x ∈ post, key c ≤ key x

theorem firstLeast_mem {T : Type} {key : T → Int} {l : List T} {c : T}
    (h : FirstLeast key l c) : c ∈ l := by
  obtain ⟨pre, post, rfl, _, _⟩ := h
  simp

theorem firstLeast_le {T : Type} {key : T → Int} {l : List T} {c x : T}
    (h : FirstLeast key l c) (mem : x ∈ l) : key c ≤ key x := by
  obtain ⟨pre, post, rfl, before, after⟩ := h
  rcases List.mem_append.mp mem with mem | mem
  · exact (before x mem).le
  · rcases List.mem_cons.mp mem with rfl | mem
    · exact le_refl _
    · exact after x mem

theorem firstLeast_unique {T : Type} {key : T → Int} {l : List T} {a b : T}
    (first : FirstLeast key l a) (second : FirstLeast key l b) : a = b := by
  have both := le_antisymm (firstLeast_le first (firstLeast_mem second))
    (firstLeast_le second (firstLeast_mem first))
  obtain ⟨pre, post, split, before, -⟩ := first
  obtain ⟨pre', post', split', before', -⟩ := second
  rcases List.append_eq_append_iff.mp (split.symm.trans split') with
    ⟨mid, rfl, rest⟩ | ⟨mid, rfl, rest⟩
  · cases mid with
    | nil => exact List.head_eq_of_cons_eq rest
    | cons c mid =>
      obtain rfl := List.head_eq_of_cons_eq rest
      have less := before' a (by simp)
      omega
  · cases mid with
    | nil => exact (List.head_eq_of_cons_eq rest).symm
    | cons c mid =>
      obtain rfl := List.head_eq_of_cons_eq rest
      have less := before b (by simp)
      omega

theorem firstLeast_extend {T : Type} {key : T → Int} {l : List T} {c a : T}
    (h : FirstLeast key l c) :
    FirstLeast key (l ++ [a]) (if key a < key c then a else c) := by
  split
  · rename_i less
    refine ⟨l, [], rfl, fun x mem => ?_, by simp⟩
    exact lt_of_lt_of_le less (firstLeast_le h mem)
  · rename_i notLess
    obtain ⟨pre, post, rfl, before, after⟩ := h
    refine ⟨pre, post ++ [a], by simp, before, fun x mem => ?_⟩
    rcases List.mem_append.mp mem with mem | mem
    · exact after x mem
    · rw [List.mem_singleton.mp mem]; omega

/-- The descriptors after one scheduler call on ready list l that returned c. -/
def agedTasks (k : Kernel N) (l : List (Tcb N)) (c : Tcb N) : Tcb N → Task := fun t =>
  if t = c then { k.task t with dynamicPriority := (k.task t).staticPriority }
  else if t ∈ l then
    { k.task t with dynamicPriority := toShort ((k.task t).dynamicPriority + alpha) }
  else k.task t

theorem select_loop {k : Kernel N} {l : List (Tcb N)} (ready : Listed k.queues .readyTasks l)
    {first : Tcb N} {others : List (Tcb N)} (split : l = first :: others) :
    ∃ c, sweep (fun _ => k) .readyTasks (fun aux next => .ok (betterTask k aux next))
        (Fintype.card (Tcb N)) (some first) first = .ok c ∧
      FirstLeast (fun t => (k.task t).dynamicPriority) l c := by
  -- visited tasks, the first least of them being next (first before the loop starts)
  let inv : List (Tcb N) → Tcb N → Prop := fun rest next => ∃ pre,
    l = pre ++ rest ∧ ((pre = [] ∧ next = first) ∨
      FirstLeast (fun t => (k.task t).dynamicPriority) pre next)
  have shape : ∀ a rest next, inv (a :: rest) next →
      ∃ l pre, Listed k.queues .readyTasks l ∧ l = pre ++ a :: rest := by
    rintro a rest next ⟨pre, whole, _⟩
    exact ⟨l, pre, ready, whole⟩
  have step : ∀ a rest next, inv (a :: rest) next → ∃ next',
      (.ok (betterTask k a next) : Except Halt (Tcb N)) = .ok next' ∧ inv rest next' := by
    rintro a rest next ⟨pre, whole, found⟩
    refine ⟨_, rfl, pre ++ [a], by simpa using whole, Or.inr ?_⟩
    rcases found with ⟨rfl, rfl⟩ | found
    · rw [split, List.nil_append, List.cons.injEq] at whole
      rw [← whole.1]
      exact ⟨[], [], by simp [betterTask], by simp, by simp⟩
    · exact firstLeast_extend found
  have bound := ready.ring.nodup.length_le_card
  rw [split] at bound
  have start : inv (first :: others) first := ⟨[], by simpa using split, Or.inl ⟨rfl, rfl⟩⟩
  obtain ⟨c, run, pre, whole, found⟩ := sweep_rule shape step start bound
  refine ⟨c, run, ?_⟩
  rw [List.append_nil] at whole
  rcases found with ⟨rfl, _⟩ | found
  · rw [split] at whole; cases whole
  · rwa [whole]

theorem age_loop {k : Kernel N} {l : List (Tcb N)} (ready : Listed k.queues .readyTasks l)
    {first : Tcb N} {others : List (Tcb N)} (split : l = first :: others) :
    sweep id .readyTasks (fun aux k => .ok (ageTask k aux)) (Fintype.card (Tcb N))
        (some first) k = .ok { k with task := fun t =>
          (if t ∈ l then
            { k.task t with dynamicPriority := toShort ((k.task t).dynamicPriority + alpha) }
          else k.task t) } := by
  let aged : List (Tcb N) → Kernel N := fun pre => { k with task := fun t =>
    (if t ∈ pre then
      { k.task t with dynamicPriority := toShort ((k.task t).dynamicPriority + alpha) }
    else k.task t) }
  let inv : List (Tcb N) → Kernel N → Prop := fun rest k' => ∃ pre,
    l = pre ++ rest ∧ k' = aged pre
  have shape : ∀ a rest k', inv (a :: rest) k' →
      ∃ l pre, Listed (id k').queues .readyTasks l ∧ l = pre ++ a :: rest := by
    rintro a rest k' ⟨pre, whole, rfl⟩
    exact ⟨l, pre, ready, whole⟩
  have step : ∀ a rest k', inv (a :: rest) k' → ∃ k'',
      (.ok (ageTask k' a) : Except Halt (Kernel N)) = .ok k'' ∧ inv rest k'' := by
    rintro a rest k' ⟨pre, whole, rfl⟩
    refine ⟨_, rfl, pre ++ [a], by simpa using whole, ?_⟩
    have nodup := ready.ring.nodup
    rw [whole] at nodup
    have fresh : a ∉ pre := fun mem => (List.nodup_append.mp nodup).2.2 a mem a (by simp) rfl
    simp only [ageTask, Kernel.setTask, aged]
    congr 1
    funext t
    by_cases same : t = a
    · subst same; simp [fresh]
    · simp [same]
  have bound := ready.ring.nodup.length_le_card
  rw [split] at bound
  have start : inv (first :: others) k := ⟨[], by simpa using split, by simp [aged]⟩
  obtain ⟨k', run, pre, whole, rfl⟩ := sweep_rule shape step start bound
  rw [List.append_nil] at whole
  simpa only [aged, whole, List.head?_cons] using run

theorem scheduler_none {k : Kernel N} (ready : Listed k.queues .readyTasks []) :
    scheduler k = .ok (none, k) := by
  have headEq : k.queues.head .readyTasks = none := ready.head
  simp [scheduler, headEq]

theorem scheduler_some {k : Kernel N} {l : List (Tcb N)} (ready : Listed k.queues .readyTasks l)
    (nonempty : l ≠ []) :
    ∃ c, FirstLeast (fun t => (k.task t).dynamicPriority) l c ∧
      scheduler k = .ok (some c, { k with task := agedTasks k l c }) := by
  obtain ⟨first, others, split⟩ := List.exists_cons_of_ne_nil nonempty
  have headEq : k.queues.head .readyTasks = some first := by rw [ready.head, split]; rfl
  obtain ⟨c, select, least⟩ := select_loop ready split
  refine ⟨c, least, ?_⟩
  have member := firstLeast_mem least
  simp only [scheduler, headEq, select, age_loop ready split, bind, Except.bind, Kernel.setTask]
  congr 3
  funext t
  by_cases same : t = c
  · subst same; simp [agedTasks, member]
  · simp [agedTasks, same]

theorem scheduler_empty {k : Kernel N} {qs : TaskLists N} (r : Represents k.queues qs)
    (empty : qs .readyTasks = []) : scheduler k = .ok (none, k) :=
  scheduler_none (empty ▸ represents_listed r .readyTasks)

theorem scheduler_spec {k : Kernel N} {qs : TaskLists N} (r : Represents k.queues qs)
    (nonempty : qs .readyTasks ≠ []) :
    ∃ c, FirstLeast (fun t => (k.task t).dynamicPriority) (qs .readyTasks) c ∧
      scheduler k = .ok (some c, { k with task := agedTasks k (qs .readyTasks) c }) :=
  scheduler_some (represents_listed r .readyTasks) nonempty

end Scheduler

section Resuming

/-- Queue lists after the tasks of queue q that meet the condition were resumed. -/
def resumeLists (qs : TaskLists N) (q : TaskQueue) (condition : Tcb N → Bool)
    (visited rest : List (Tcb N)) : TaskLists N :=
  Function.update (Function.update qs q (visited.filter (fun t => !condition t) ++ rest))
    .readyTasks (qs .readyTasks ++ visited.filter condition)

def resumedTasks (k : Kernel N) (condition : Task → Bool) (after : Task → Task)
    (visited : List (Tcb N)) : Tcb N → Task := fun t =>
  if t ∈ visited ∧ condition (k.task t) then after { k.task t with status := .ready }
  else k.task t

omit [DecidableEq N] [Fintype N] in
theorem resumeLists_other {qs : TaskLists N} {p q : TaskQueue} (condition : Tcb N → Bool)
    (visited rest : List (Tcb N)) (pq : p ≠ q) (ready : p ≠ .readyTasks) :
    resumeLists qs q condition visited rest p = qs p := by
  simp [resumeLists, pq, ready]

omit [DecidableEq N] [Fintype N] in
theorem resumeLists_source {qs : TaskLists N} {q : TaskQueue} (condition : Tcb N → Bool)
    (visited rest : List (Tcb N)) (notReady : q ≠ .readyTasks) :
    resumeLists qs q condition visited rest q =
      visited.filter (fun t => !condition t) ++ rest := by
  simp [resumeLists, notReady]

omit [DecidableEq N] [Fintype N] in
theorem resumeLists_target {qs : TaskLists N} {q : TaskQueue} (condition : Tcb N → Bool)
    (visited rest : List (Tcb N)) :
    resumeLists qs q condition visited rest .readyTasks =
      qs .readyTasks ++ visited.filter condition := by
  simp [resumeLists]

omit [DecidableEq N] [Fintype N] in
theorem resumeLists_none {qs : TaskLists N} {q : TaskQueue} {condition : Tcb N → Bool}
    {rest : List (Tcb N)} (all : qs q = rest) : resumeLists qs q condition [] rest = qs := by
  funext p
  by_cases pr : p = .readyTasks
  · subst pr; simp [resumeLists]
  · by_cases pq : p = q
    · subst pq; simp [resumeLists, pr, all]
    · simp [resumeLists, pr, pq]

/-- One turn of the loop, at the task `a` behind the visited ones. -/
theorem resumeWhere_turn {k k' : Kernel N} {qs : TaskLists N} {q : TaskQueue}
    (notReady : q ≠ .readyTasks) (condition : Task → Bool) (after : Task → Task)
    {visited rest : List (Tcb N)} {a : Tcb N} {m : Queues TaskQueue (Tcb N)}
    (now : k' = { k with queues := m, task := resumedTasks k condition after visited })
    (r : Represents m (resumeLists qs q (fun t => condition (k.task t)) visited (a :: rest)))
    (fresh : a ∉ visited) :
    ∃ m', (if condition (k'.task a) then
        match taskResume k' (some a) (some q) with
        | .error halt => .error halt
        | .ok k => .ok (k.setTask a after)
      else .ok k' : Except Halt (Kernel N)) =
        .ok { k with queues := m', task := resumedTasks k condition after (visited ++ [a]) } ∧
      Represents m'
        (resumeLists qs q (fun t => condition (k.task t)) (visited ++ [a]) rest) := by
  subst now
  have same : resumedTasks k condition after visited a = k.task a := by
    simp [resumedTasks, fresh]
  simp only [same]
  cases holds : condition (k.task a) with
  | true =>
    have mem : a ∈ resumeLists qs q (fun t => condition (k.task t)) visited (a :: rest) q := by
      simp [resumeLists, notReady]
    obtain ⟨m', run, r'⟩ := taskResume_spec
      (k := { k with queues := m, task := resumedTasks k condition after visited }) r mem
    refine ⟨m', ?_, ?_⟩
    · simp only [↓reduceIte, run, Kernel.setTask, withStatus]
      congr 2
      funext t
      by_cases ta : t = a
      · subst ta; simp [resumedTasks, fresh, holds]
      · simp [resumedTasks, ta]
    · convert r' using 1
      funext p
      by_cases pq : p = q
      · subst pq
        rw [moveTask_source _ notReady]
        have out : a ∉ visited.filter (fun t => !condition (k.task t)) := fun mem =>
          fresh (List.mem_filter.mp mem).1
        simp [resumeLists, notReady, holds, List.erase_append_right _ out]
      · by_cases pr : p = .readyTasks
        · subst pr
          rw [moveTask_target _ notReady]
          simp [resumeLists, holds]
        · rw [moveTask_other _ pq pr]
          simp [resumeLists_other, pq, pr]
  | false =>
    refine ⟨m, ?_, ?_⟩
    · simp only [Bool.false_eq_true, ↓reduceIte]
      congr 2
      funext t
      by_cases ta : t = a
      · subst ta; simp [resumedTasks, fresh, holds]
      · simp [resumedTasks, ta]
    · convert r using 1
      funext p
      simp [resumeLists, holds]

theorem resumeWhere_spec {k : Kernel N} {qs : TaskLists N} (r : Represents k.queues qs)
    {q : TaskQueue} (notReady : q ≠ .readyTasks) (condition : Task → Bool)
    (after : Task → Task) :
    ∃ m, resumeWhere k q condition after =
        .ok { k with queues := m, task := resumedTasks k condition after (qs q) } ∧
      Represents m (resumeLists qs q (fun t => condition (k.task t)) (qs q) []) := by
  let inv : List (Tcb N) → Kernel N → Prop := fun rest k' => ∃ visited m,
    qs q = visited ++ rest ∧
    k' = { k with queues := m, task := resumedTasks k condition after visited } ∧
    Represents m (resumeLists qs q (fun t => condition (k.task t)) visited rest)
  have shape : ∀ a rest k', inv (a :: rest) k' →
      ∃ l pre, Listed (id k').queues q l ∧ l = pre ++ a :: rest := by
    rintro a rest k' ⟨visited, m, _, rfl, r'⟩
    exact ⟨_, visited.filter (fun t => !condition (k.task t)), represents_listed r' q,
      by simp [resumeLists, notReady]⟩
  have start : inv (qs q) k := by
    have same : resumedTasks k condition after [] = k.task := by
      funext t; simp [resumedTasks]
    refine ⟨[], k.queues, rfl, by rw [same], ?_⟩
    rwa [resumeLists_none rfl]
  rw [resumeWhere, r.head q]
  obtain ⟨k', run, visited, m, whole, rfl, r'⟩ :=
    sweep_rule shape (by
      rintro a rest k' ⟨visited, m, whole, now, r'⟩
      have nodup := (r.ring q).nodup
      rw [whole] at nodup
      have fresh : a ∉ visited := fun mem =>
        (List.nodup_append.mp nodup).2.2 a mem a (by simp) rfl
      obtain ⟨m', run, r''⟩ := resumeWhere_turn notReady condition after now r' fresh
      exact ⟨_, run, visited ++ [a], m', by simpa using whole, rfl, r''⟩) start (r.length_le q)
  rw [List.append_nil] at whole
  subst visited
  exact ⟨m, run, r'⟩

theorem drainQueue_spec {k : Kernel N} {qs : TaskLists N} (r : Represents k.queues qs)
    {q : TaskQueue} (notReady : q ≠ .readyTasks) {fuel : Nat} (budget : (qs q).length ≤ fuel) :
    ∃ m, drainQueue q fuel k =
        .ok { k with queues := m, task := resumedTasks k (fun _ => true) id (qs q) } ∧
      Represents m (resumeLists qs q (fun _ => true) (qs q) []) := by
  generalize waiting : qs q = l at budget ⊢
  induction l generalizing k qs fuel with
  | nil =>
    have headEq : k.queues.head q = none := by rw [r.head, waiting]; rfl
    have same : resumedTasks k (fun _ => true) id [] = k.task := by
      funext t; simp [resumedTasks]
    refine ⟨k.queues, ?_, by rwa [resumeLists_none waiting]⟩
    cases fuel <;> simp only [drainQueue, headEq, same]
  | cons a l ih =>
    cases fuel with
    | zero => simp at budget
    | succ fuel =>
      have headEq : k.queues.head q = some a := by rw [r.head, waiting]; rfl
      have nodup := (r.ring q).nodup
      rw [waiting] at nodup
      have fresh := (List.nodup_cons.mp nodup).1
      obtain ⟨m₁, run, r₁⟩ := taskResume_spec r (t := a) (q := q) (by simp [waiting])
      have next : moveTask qs q .readyTasks a q = l := by
        rw [moveTask_source _ notReady, waiting, List.erase_cons_head]
      obtain ⟨m, rest, r'⟩ := ih
        (k := { k with queues := m₁, task := withStatus k.task a .ready }) r₁ next
        (by simpa using budget)
      refine ⟨m, ?_, ?_⟩
      · simp only [drainQueue, headEq, run, rest]
        congr 2
        funext t
        by_cases ta : t = a
        · subst ta; simp [resumedTasks, fresh, withStatus]
        · simp [resumedTasks, ta, withStatus]
      · convert r' using 1
        funext p
        by_cases pr : p = .readyTasks
        · subst pr
          simp [resumeLists, moveTask_target _ notReady]
        · by_cases pq : p = q
          · subst pq; simp [resumeLists, pr]
          · simp [resumeLists, pr, pq, moveTask_other]

end Resuming

section Semaphores

/-- The counter after the critical section, with the lock released again. -/
def recount (k : Kernel N) (s : SemAddr) (v : Int) : Kernel N :=
  k.setSem s fun x => ⟨v, 0, x.active⟩

theorem semDown_closed {k : Kernel N} {s : SemAddr} (closed : (k.sem s).active = 0) :
    semDown k (some s) = .ok (k, some (-1)) := by
  simp [semDown, closed]

theorem semDown_stuck {k : Kernel N} {s : SemAddr} (active : (k.sem s).active ≠ 0)
    (locked : (k.sem s).lock ≠ 0) : semDown k (some s) = .error .hang := by
  simp [semDown, active, enterCs, locked, bind, Except.bind]

theorem semDown_open {k : Kernel N} {s : SemAddr} (active : (k.sem s).active ≠ 0)
    (free : (k.sem s).lock = 0) {v : Int} (count : v = toInt ((k.sem s).value - 1)) :
    semDown k (some s) =
      if v < 0 then
        (taskSuspend (recount k s v) (some (.semQueue s))).map fun k => (k, none)
      else .ok (recount k s v, some 0) := by
  subst count
  simp [semDown, active, enterCs, free, bind, Except.bind, leaveCs, recount, Kernel.setSem]

theorem semUp_closed {k : Kernel N} {s : SemAddr} (closed : (k.sem s).active = 0) :
    semUp k (some s) = .ok (k, -1) := by
  simp [semUp, closed]

theorem semUp_stuck {k : Kernel N} {s : SemAddr} (active : (k.sem s).active ≠ 0)
    (locked : (k.sem s).lock ≠ 0) : semUp k (some s) = .error .hang := by
  simp [semUp, active, enterCs, locked, bind, Except.bind]

theorem semUp_open {k : Kernel N} {s : SemAddr} (active : (k.sem s).active ≠ 0)
    (free : (k.sem s).lock = 0) {v : Int} (count : v = toInt ((k.sem s).value + 1)) :
    semUp k (some s) =
      if v ≤ 0 ∧ k.queues.head (.semQueue s) ≠ none then
        (taskResume (recount k s v) (k.queues.head (.semQueue s)) (some (.semQueue s))).map
          fun k => (k, 0)
      else .ok (recount k s v, 0) := by
  subst count
  simp [semUp, active, enterCs, free, bind, Except.bind, leaveCs, recount, Kernel.setSem]

/-- A sem_down that does not hang has refused, or found the lock free. -/
theorem semDown_returns {k k' : Kernel N} {s : SemAddr} {r : Option Int}
    (run : semDown k (some s) = .ok (k', r)) :
    k' = k ∧ (k.sem s).active = 0 ∨ (k.sem s).active ≠ 0 ∧ (k.sem s).lock = 0 := by
  by_cases closed : (k.sem s).active = 0
  · rw [semDown_closed closed] at run
    cases run
    exact Or.inl ⟨rfl, closed⟩
  · by_cases locked : (k.sem s).lock = 0
    · exact Or.inr ⟨closed, locked⟩
    · rw [semDown_stuck closed locked] at run
      cases run

theorem semUp_returns {k k' : Kernel N} {s : SemAddr} {r : Int}
    (run : semUp k (some s) = .ok (k', r)) :
    k' = k ∧ (k.sem s).active = 0 ∨ (k.sem s).active ≠ 0 ∧ (k.sem s).lock = 0 := by
  by_cases closed : (k.sem s).active = 0
  · rw [semUp_closed closed] at run
    cases run
    exact Or.inl ⟨rfl, closed⟩
  · by_cases locked : (k.sem s).lock = 0
    · exact Or.inr ⟨closed, locked⟩
    · rw [semUp_stuck closed locked] at run
      cases run

/-- It refuses, takes a unit, or suspends the caller. -/
theorem semDown_effect {k k' : Kernel N} {s : SemAddr} {r : Option Int}
    (run : semDown k (some s) = .ok (k', r)) :
    k' = k ∨ ∃ v, k' = recount k s v ∨
      taskSuspend (recount k s v) (some (.semQueue s)) = .ok k' := by
  rcases semDown_returns run with ⟨same, -⟩ | ⟨active, free⟩
  · exact Or.inl same
  · rw [semDown_open active free rfl] at run
    split at run
    · obtain ⟨j, suspended, same⟩ := map_ok run
      cases same
      exact Or.inr ⟨_, Or.inr suspended⟩
    · cases run
      exact Or.inr ⟨_, Or.inl rfl⟩

/-- It refuses, returns a unit, or resumes the first of the queue. -/
theorem semUp_effect {k k' : Kernel N} {s : SemAddr} {r : Int}
    (run : semUp k (some s) = .ok (k', r)) :
    k' = k ∨ ∃ v, k' = recount k s v ∨
      k.queues.head (.semQueue s) ≠ none ∧
        taskResume (recount k s v) (k.queues.head (.semQueue s)) (some (.semQueue s)) =
          .ok k' := by
  rcases semUp_returns run with ⟨same, -⟩ | ⟨active, free⟩
  · exact Or.inl same
  · rw [semUp_open active free rfl] at run
    split at run
    · rename_i wakes
      obtain ⟨j, resumed, same⟩ := map_ok run
      cases same
      exact Or.inr ⟨_, Or.inr ⟨wakes.2, resumed⟩⟩
    · cases run
      exact Or.inr ⟨_, Or.inl rfl⟩

/-- It refuses, or closes the semaphore and resumes the whole queue. -/
theorem semDestroy_effect {k k' : Kernel N} {s : SemAddr} {r : Int}
    (run : semDestroy k (some s) = .ok (k', r)) :
    k' = k ∨ drainQueue (.semQueue s) (Fintype.card (Tcb N))
      (k.setSem s fun x => { x with active := 0 }) = .ok k' := by
  simp only [semDestroy] at run
  split at run
  · cases run
    exact Or.inl rfl
  · obtain ⟨j, drained, same⟩ := map_ok run
    cases same
    exact Or.inr drained

end Semaphores

end KernelEffects
