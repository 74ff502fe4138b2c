import PingPong.CountingSemaphores
import PingPong.TaskConservation
import Mathlib.Data.List.ReduceOption

/-! The semaphores of the kernel are first-come-first-served counting semaphores, when every
call on them runs without interruption. -/
namespace SemaphoreRefinement
open MachineModel CircularList QueueModel KernelModel KernelEffects TaskPlacement SystemModel
open SystemFrames TransitionRuns CountingSemaphores TaskConservation
variable {N : Type} [DecidableEq N] [Fintype N]

section Implementing

/-- The counter, the lock and the queue of a semaphore show the state of the abstract one. -/
structure Implements (a : SemAddr) (c : Option (Counting (Tcb N))) (k : Kernel N) : Prop where
  placed : ∃ live, Placed live k
  queue : tasks k (.semQueue a) = (c.map Counting.waiting).getD []
  lock : (k.sem a).lock = 0
  active : (k.sem a).active ≠ 0 ↔ c.isSome
  value : ∀ d, c = some d → (k.sem a).value = d.value
  range : intMin ≤ (k.sem a).value ∧ (k.sem a).value ≤ intMax

structure Elsewhere (a : SemAddr) (k k' : Kernel N) : Prop where
  placed : ∃ live, Placed live k'
  queue : tasks k' (.semQueue a) = tasks k (.semQueue a)
  sem : k'.sem a = k.sem a

/-- A call on the semaphore, which finds the counter in the range of an int, or anything else. -/
def Serves (a : SemAddr) (k : Kernel N) (l : Option (Access (Tcb N))) (k' : Kernel N) : Prop :=
  match l with
  | none => Elsewhere a k k'
  | some (.down t) => k.curr = t ∧ t ≠ .dispatcherTask ∧
      ((k.sem a).active ≠ 0 → intMin < (k.sem a).value) ∧ ∃ r, semDown k (some a) = .ok (k', r)
  | some .up => ((k.sem a).active ≠ 0 → (k.sem a).value < intMax) ∧
      ∃ r, semUp k (some a) = .ok (k', r)
  | some .close => ∃ r, semDestroy k (some a) = .ok (k', r)

variable {a : SemAddr} {k k' : Kernel N} {c : Counting (Tcb N)}

theorem waiting_queue (i : Implements a (some c) k) : tasks k (.semQueue a) = c.waiting := i.queue

theorem still_open (i : Implements a (some c) k) : (k.sem a).active ≠ 0 := i.active.mpr rfl

theorem implements_init {live : Tcb N → Bool} (placed : Placed live k)
    (zeroed : k.sem a = ⟨0, 0, 0⟩) (noQueue : k.queues.head (.semQueue a) = none) {value : Int}
    (low : 0 ≤ value) (high : value ≤ intMax) :
    Implements a (some (.full value.toNat)) (semInit k (some a) value).1 := by
  have idle : tasks k (.semQueue a) = [] := by
    rw [placed.wellFormed.head] at noQueue
    exact List.head?_eq_none_iff.mp noQueue
  obtain ⟨kept, lists, _, sem⟩ := semInit_kept placed idle value
  rw [zeroed] at sem
  refine ⟨⟨live, kept.placed⟩, ?_, by rw [sem], by rw [sem]; simp, ?_, ?_⟩
  · rw [lists, idle]
    rfl
  · intro d same
    cases same
    rw [sem, Counting.full_value]
    dsimp only
    omega
  · rw [sem]
    exact ⟨le_trans (by decide) low, high⟩

theorem implements_elsewhere {c : Option (Counting (Tcb N))} (i : Implements a c k)
    (e : Elsewhere a k k') : Implements a c k' := by
  obtain ⟨_, queue, lock, active, value, range⟩ := i
  refine ⟨e.placed, e.queue.trans queue, ?_, ?_, ?_, ?_⟩
  · rw [e.sem]; exact lock
  · rw [e.sem]; exact active
  · rw [e.sem]; exact value
  · rw [e.sem]; exact range

end Implementing

section Calls
variable {a : SemAddr} {k k' : Kernel N} {c : Counting (Tcb N)}

/-- What sem_down does: its caller waits, last in the queue, exactly if no unit is free. -/
structure DownAnswer (a : SemAddr) (c : Counting (Tcb N)) (k k' : Kernel N) (r : Option Int) :
    Prop where
  blocks : r = none ↔ c.units = 0
  waits : c.units = 0 → k'.curr = .dispatcherTask ∧
    tasks k' (.semQueue a) = tasks k (.semQueue a) ++ [k.curr] ∧
    tasks k' .readyTasks = (tasks k .readyTasks).erase k.curr
  passes : c.units ≠ 0 → r = some 0 ∧ k'.curr = k.curr ∧ tasks k' = tasks k
  elsewhere : ∀ q, q ≠ .readyTasks → q ≠ .semQueue a → tasks k' q = tasks k q

/-- What sem_up does: the task that has waited longest goes to the end of ready_tasks. -/
structure UpAnswer (a : SemAddr) (k k' : Kernel N) : Prop where
  running : k'.curr = k.curr
  wakes : ∀ t rest, tasks k (.semQueue a) = t :: rest →
    tasks k' (.semQueue a) = rest ∧ tasks k' .readyTasks = tasks k .readyTasks ++ [t]
  idles : tasks k (.semQueue a) = [] → tasks k' = tasks k
  elsewhere : ∀ q, q ≠ .readyTasks → q ≠ .semQueue a → tasks k' q = tasks k q

/-- What sem_destroy does: all who wait go to ready_tasks, in the order of the queue. -/
structure DestroyAnswer (a : SemAddr) (k k' : Kernel N) : Prop where
  running : k'.curr = k.curr
  queue : tasks k' (.semQueue a) = []
  ready : tasks k' .readyTasks = tasks k .readyTasks ++ tasks k (.semQueue a)
  elsewhere : ∀ q, q ≠ .readyTasks → q ≠ .semQueue a → tasks k' q = tasks k q

theorem down_answers (i : Implements a (some c) k) (user : k.curr ≠ .dispatcherTask)
    (low : intMin < (k.sem a).value) : ∃ k' r, semDown k (some a) = .ok (k', r) ∧
      DownAnswer a c k k' r ∧ Implements a (some (c.down k.curr)) k' := by
  obtain ⟨live, placed⟩ := i.placed
  have value := i.value c rfl
  have high := i.range.2
  have count : c.value - 1 = toInt ((k.sem a).value - 1) := by
    rw [toInt_eq_self (by omega) (by omega), value]
  obtain ⟨k', r, run, kept, sem, waits, passes⟩ :=
    semDown_kept placed user (still_open i) i.lock count
  have units := c.empty_iff
  have result : r = if c.units = 0 then none else some 0 := by
    rw [semDown_open (still_open i) i.lock count] at run
    by_cases empty : c.units = 0
    · rw [if_pos (units.mp empty)] at run
      obtain ⟨_, _, same⟩ := map_ok run
      cases same
      rw [if_pos empty]
    · rw [if_neg (mt units.mpr empty)] at run
      cases run
      rw [if_neg empty]
  refine ⟨k', r, run, ⟨?_, ?_, ?_, ?_⟩, ⟨live, kept.placed⟩, ?_, by rw [sem], ?_, ?_, ?_⟩
  · rw [result]
    by_cases empty : c.units = 0
    · simp only [empty, ↓reduceIte]
    · simp only [empty, ↓reduceIte, reduceCtorEq]
  · intro empty
    obtain ⟨curr, lists⟩ := waits (units.mp empty)
    rw [lists]
    exact ⟨curr, moveTask_target _ (by simp), moveTask_source _ (by simp)⟩
  · intro some
    obtain ⟨curr, lists⟩ := passes (mt units.mpr some)
    exact ⟨by rw [result, if_neg some], curr, lists⟩
  · intro q ready other
    exact kept.lists q ready (by simpa using other)
  · by_cases empty : c.units = 0
    · rw [(waits (units.mp empty)).2, moveTask_target _ (by simp), waiting_queue i]
      exact (Counting.down_blocks empty _).symm
    · rw [(passes (mt units.mpr empty)).2, waiting_queue i]
      exact (Counting.down_passes empty _).symm
  · rw [sem]
    exact ⟨fun _ => rfl, fun _ => still_open i⟩
  · intro d same
    cases same
    rw [sem, Counting.down_value]
  · rw [sem]
    dsimp only
    omega

theorem up_answers (i : Implements a (some c) k) (high : (k.sem a).value < intMax) :
    ∃ k', semUp k (some a) = .ok (k', 0) ∧ UpAnswer a k k' ∧
      Implements a (some c.up) k' := by
  obtain ⟨live, placed⟩ := i.placed
  have value := i.value c rfl
  have low := i.range.1
  have count : c.value + 1 = toInt ((k.sem a).value + 1) := by
    rw [toInt_eq_self (by omega) (by omega), value]
  obtain ⟨k', r, run, kept, sem, curr, wakes, passes⟩ :=
    semUp_kept placed (still_open i) i.lock count
  have queue := waiting_queue i
  have someone := c.waiting_iff
  have result : r = 0 := by
    rw [semUp_open (still_open i) i.lock count] at run
    split at run
    · obtain ⟨_, _, same⟩ := map_ok run
      cases same
      rfl
    · cases run
      rfl
  subst result
  have woken : ∀ t rest, tasks k (.semQueue a) = t :: rest →
      tasks k' = moveTask (tasks k) (.semQueue a) .readyTasks t := by
    intro t rest waiting
    refine wakes t rest (someone.mp ?_) waiting
    rw [← queue, waiting]
    simp
  have idles : tasks k (.semQueue a) = [] → tasks k' = tasks k := fun none =>
    passes fun both => both.2 none
  refine ⟨k', run, ⟨curr, ?_, idles, ?_⟩, ⟨live, kept.placed⟩, ?_, by rw [sem], ?_, ?_, ?_⟩
  · intro t rest waiting
    rw [woken t rest waiting, moveTask_source _ (by simp), moveTask_target _ (by simp), waiting,
      List.erase_cons_head]
    exact ⟨rfl, rfl⟩
  · intro q ready other
    exact kept.lists q ready (by simpa using other)
  · rcases waiting : tasks k (.semQueue a) with _ | ⟨t, rest⟩
    · rw [idles waiting, waiting]
      rw [queue] at waiting
      exact (Counting.up_idles waiting).symm
    · rw [woken t rest waiting, moveTask_source _ (by simp), waiting, List.erase_cons_head]
      rw [queue] at waiting
      exact (Counting.up_wakes waiting).symm
  · rw [sem]
    exact ⟨fun _ => rfl, fun _ => still_open i⟩
  · intro d same
    cases same
    rw [sem, Counting.up_value]
  · rw [sem]
    dsimp only
    omega

theorem destroy_answers (i : Implements a (some c) k) :
    ∃ k', semDestroy k (some a) = .ok (k', 0) ∧ DestroyAnswer a k k' ∧ Implements a none k' := by
  obtain ⟨live, placed⟩ := i.placed
  have here := kept_setSem placed a fun x => { x with active := 0 }
  obtain ⟨m, run, lists, kept⟩ := drain_kept here.placed (q := .semQueue a) (by simp)
  have unfolded : semDestroy k (some a) = (drainQueue (.semQueue a) (Fintype.card (Tcb N))
      (k.setSem a fun x => { x with active := 0 })).map fun k => (k, 0) := by
    simp only [semDestroy, still_open i, ↓reduceIte]
  have sem : ∀ (m : Queues TaskQueue (Tcb N)) (task : Tcb N → Task),
      ({ k.setSem a (fun x => { x with active := 0 }) with queues := m, task := task } :
        Kernel N).sem a = ⟨(k.sem a).value, 0, 0⟩ := by
    intro m task
    change (k.setSem a fun x => { x with active := 0 }).sem a = _
    rw [Kernel.setSem_same, i.lock]
  rw [run] at unfolded
  refine ⟨_, unfolded, ⟨rfl, ?_, ?_, ?_⟩, ⟨live, kept.placed⟩, ?_, ?_, ?_, ?_, ?_⟩
  · change elems m _ = _
    rw [lists, resumeLists_source _ _ _ (by simp)]
    simp
  · change elems m _ = _
    rw [lists, resumeLists_target]
    simp
    rfl
  · intro q ready other
    change elems m q = _
    rw [lists, resumeLists_other _ _ _ other ready]
    rfl
  · change elems m _ = _
    rw [lists, resumeLists_source _ _ _ (by simp)]
    simp
  · rw [sem]
  · rw [sem]
    simp
  · intro d same
    cases same
  · rw [sem]
    exact i.range

theorem destroyed_answers (i : Implements a none k) :
    semDown k (some a) = .ok (k, some (-1)) ∧ semUp k (some a) = .ok (k, -1) ∧
      semDestroy k (some a) = .ok (k, -1) := by
  have closed : (k.sem a).active = 0 := by
    by_contra active
    have some := i.active.mp active
    cases some
  exact ⟨semDown_closed closed, semUp_closed closed, by simp [semDestroy, closed]⟩

end Calls

section Runs
variable {a : SemAddr} {k k' : Kernel N}

/-- The abstract semaphore after the calls among the labels of a run. -/
def shadow (n : Nat) (labels : List (Option (Access (Tcb N)))) : Option (Counting (Tcb N)) :=
  after n labels.reduceOption

theorem implements_step {c : Option (Counting (Tcb N))} {l : Option (Access (Tcb N))}
    (i : Implements a c k) (go : Serves a k l k') :
    Implements a (match l with | none => c | some l => access c l) k' := by
  cases l with
  | none => exact implements_elsewhere i go
  | some l =>
    cases c with
    | none =>
      obtain ⟨down, up, destroy⟩ := destroyed_answers i
      cases l with
      | down t =>
        obtain ⟨_, _, _, r, run⟩ := go
        cases down.symm.trans run
        exact i
      | up =>
        obtain ⟨_, r, run⟩ := go
        cases up.symm.trans run
        exact i
      | close =>
        obtain ⟨r, run⟩ := go
        cases destroy.symm.trans run
        exact i
    | some c =>
      cases l with
      | down t =>
        obtain ⟨rfl, user, low, r, run⟩ := go
        obtain ⟨k₁, r₁, known, _, next⟩ := down_answers i user (low (still_open i))
        cases known.symm.trans run
        exact next
      | up =>
        obtain ⟨high, r, run⟩ := go
        obtain ⟨k₁, known, _, next⟩ := up_answers i (high (still_open i))
        cases known.symm.trans run
        exact next
      | close =>
        obtain ⟨r, run⟩ := go
        obtain ⟨k₁, known, _, next⟩ := destroy_answers i
        cases known.symm.trans run
        exact next

theorem run_implements {n : Nat} {labels : List (Option (Access (Tcb N)))}
    (start : Implements a (some (.full n)) k) (run : Run (Serves a) k labels k') :
    Implements a (shadow n labels) k' := by
  refine run_history (fun labels k => Implements a (shadow n labels) k) ?_ run start
  intro before k₁ l k₂ _ i go
  have next := implements_step i go
  cases l with
  | none => simpa [shadow, List.reduceOption_append] using next
  | some l => simpa [shadow, List.reduceOption_append, after_snoc] using next

theorem system_step_elsewhere {s s' : System N} {l : Label N} (c : Conserved s)
    (go : Operates s l s') {n : Nat} (other : client s l ≠ .semaphore n) :
    Elsewhere (.user n) s.kernel s'.kernel := by
  have ok := step_kept c go.2 go.1
  have framed := ok.framed (.semaphore n) (by simp) other.symm
  exact ⟨⟨_, ok.conserved.placed⟩, framed.lists _ (by simp) rfl, framed.sem _ rfl⟩

end Runs

theorem semaphores_refine_counting {live : Tcb N → Bool} {k k' : Kernel N} {a : SemAddr}
    {value : Int} (placed : Placed live k) (zeroed : k.sem a = ⟨0, 0, 0⟩)
    (noQueue : k.queues.head (.semQueue a) = none) (low : 0 ≤ value) (high : value ≤ intMax)
    {labels : List (Option (Access (Tcb N)))}
    (run : Run (Serves a) (semInit k (some a) value).1 labels k') :
    (some .close ∉ labels → ∃ c, shadow value.toNat labels = some c ∧
      (k'.sem a).active ≠ 0 ∧
      (k'.sem a).value = value + ups labels.reduceOption - downs labels.reduceOption ∧
      tasks k' (.semQueue a) = c.waiting ∧
      ((tasks k' (.semQueue a)).length : Int) = max 0 (-(k'.sem a).value) ∧
      (k'.curr ≠ .dispatcherTask → intMin < (k'.sem a).value →
        ∃ k'' r, semDown k' (some a) = .ok (k'', r) ∧ DownAnswer a c k' k'' r) ∧
      ((k'.sem a).value < intMax →
        ∃ k'', semUp k' (some a) = .ok (k'', 0) ∧ UpAnswer a k' k'') ∧
      ∃ k'', semDestroy k' (some a) = .ok (k'', 0) ∧ DestroyAnswer a k' k'') ∧
    (some .close ∈ labels → tasks k' (.semQueue a) = [] ∧
      semDown k' (some a) = .ok (k', some (-1)) ∧ semUp k' (some a) = .ok (k', -1) ∧
      semDestroy k' (some a) = .ok (k', -1)) := by
  have i := run_implements (implements_init placed zeroed noQueue low high) run
  have closed : shadow value.toNat labels = none ↔ some .close ∈ labels := by
    rw [shadow, closed_iff, List.reduceOption_mem_iff]
  constructor
  · intro active
    obtain ⟨c, same⟩ := Option.ne_none_iff_exists'.mp (mt closed.mp active)
    rw [same] at i
    have count := i.value c rfl
    have queue := waiting_queue i
    refine ⟨c, same, still_open i, ?_, queue, ?_, fun user room => ?_, fun room => ?_, ?_⟩
    · rw [count, value_after same]
      omega
    · rw [queue, count]
      exact c.waiting_length
    · obtain ⟨k'', r, down, answer, _⟩ := down_answers i user room
      exact ⟨k'', r, down, answer⟩
    · obtain ⟨k'', up, answer, _⟩ := up_answers i room
      exact ⟨k'', up, answer⟩
    · obtain ⟨k'', destroy, answer, _⟩ := destroy_answers i
      exact ⟨k'', destroy, answer⟩
  · intro destroyed
    rw [closed.mpr destroyed] at i
    exact ⟨i.queue, destroyed_answers i⟩

theorem main_waits_for_a_unit : ∃ k' : Kernel (Fin 1),
    Run (Serves (.user 0)) (semInit (bootKernel : Kernel (Fin 1)) (some (.user 0)) 1).1
      [some (.down .mainTask), some (.down .mainTask)] k' ∧
    tasks k' (.semQueue (.user 0)) = [.mainTask] ∧ (k'.sem (.user 0)).value = -1 := by
  have placed := (boot_conserved (boot_booted (N := Fin 1))).placed
  have start := implements_init (k := (bootKernel : Kernel (Fin 1))) (a := .user 0)
    placed rfl rfl (show (0 : Int) ≤ 1 by decide) (by decide)
  obtain ⟨k₁, r₁, first, answer₁, i₁⟩ := down_answers start (by decide) (by decide)
  have running : k₁.curr = .mainTask := (answer₁.passes (by decide)).2.1
  have value₁ := i₁.value _ rfl
  obtain ⟨k₂, r₂, second, answer₂, i₂⟩ := down_answers i₁ (by rw [running]; decide)
    (by rw [value₁]; decide)
  have run : Run (Serves (.user 0)) (semInit (bootKernel : Kernel (Fin 1)) (some (.user 0)) 1).1
      [some (.down .mainTask), some (.down .mainTask)] k₂ := by
    refine run_cons ⟨rfl, by decide, fun _ => by decide, r₁, first⟩ (run_one ?_)
    exact ⟨running, by decide, fun _ => by rw [value₁]; decide, r₂, second⟩
  obtain ⟨c, same, _, count, queue, _⟩ := (semaphores_refine_counting placed rfl rfl (by decide)
    (by decide) run).1 (by simp)
  refine ⟨k₂, run, ?_, count⟩
  rw [queue]
  cases same
  rfl

end SemaphoreRefinement
