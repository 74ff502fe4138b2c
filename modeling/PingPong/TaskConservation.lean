import PingPong.DispatcherTurns

/-! Task conservation over whole runs from ppos_init on: the queues partition the live
   tasks, and user_tasks_num counts those of the program. -/
namespace TaskConservation
open MachineModel CircularList QueueModel KernelModel KernelEffects TaskPlacement SystemModel
open SystemFrames TransitionRuns FiniteTally DispatcherTurns
variable {N : Type} [DecidableEq N] [Fintype N]

/-- ppos_init has returned in the zeroed storage of a new process. Semaphores that are not
    initialised yet may hold anything. -/
structure Booted (s : System N) : Prop where
  kernel : ∃ sem, pposInit { zeroedKernel with sem := sem } true = .ok s.kernel
  main : s.ctl .mainTask = .body 0
  dispatcher : s.ctl .dispatcherTask = .dispatcher .top
  driver : s.ctl .diskDriverTask = .unborn
  user : ∀ n, s.ctl (.user n) = .unborn
  handler : s.disk.handler = false
  device : s.device.status = .unknown

def users (s : System N) : Finset (Tcb N) :=
  Finset.univ.filter fun t =>
    liveTasks s t = true ∧ t ≠ .dispatcherTask ∧ t ≠ .diskDriverTask

/-- The counter and the ids of the tasks are ints: task_init needs room for one more task, and the
    next id must not be that of the driver. -/
def CountFits (s : System N) : Label N → Prop
  | .call (.taskInit _ _) => s.kernel.userTasksNum < intMax
  | _ => True

def IdDiffers (s : System N) : Label N → Prop
  | .call (.taskInit _ _) => nextId s.kernel ≠ (s.kernel.task .diskDriverTask).id
  | _ => True

def Operates (s : System N) (l : Label N) (s' : System N) : Prop :=
  step s l = some (.ok s') ∧ Permitted s l

structure Conservation (s : System N) : Prop where
  wellFormed : Represents s.kernel.queues (tasks s.kernel)
  disjoint : ∀ p q, p ≠ q → List.Disjoint (tasks s.kernel p) (tasks s.kernel q)
  placed : ∀ t, liveTasks s t = true → t ≠ .dispatcherTask → ∃! q, t ∈ tasks s.kernel q
  terminated : ∀ t, s.ctl t = .terminated → ∀ q, t ∉ tasks s.kernel q
  running : s.curr = .dispatcherTask ∨ s.curr ∈ tasks s.kernel .readyTasks
  counted : s.kernel.userTasksNum = (users s).card
  loop : s.ctl .dispatcherTask = .dispatcher .top → ¬ 0 < s.kernel.userTasksNum →
    ∀ t, liveTasks s t = true → t = .dispatcherTask ∨ t = .diskDriverTask

section Boot

omit [Fintype N] in
theorem boot_lists {s : System N} (boot : Booted s) :
    Represents s.kernel.queues bootLists ∧ s.kernel.curr = .mainTask ∧
      s.kernel.userTasksNum = 1 ∧ s.kernel.lastTaskId = 0 ∧
      (s.kernel.task .dispatcherTask).id = dispatcherPid ∧
      (s.kernel.task .diskDriverTask).id = -2 ∧
      (s.kernel.task .diskDriverTask).status = .ready := by
  obtain ⟨sem, run⟩ := boot.kernel
  rw [pposInit_boot, Except.ok.injEq] at run
  rw [← run]
  exact ⟨boot_represents, rfl, rfl, rfl, rfl, rfl, rfl⟩

omit [Fintype N] in
theorem boot_live {s : System N} (boot : Booted s) (t : Tcb N) :
    liveTasks s t = true ↔ t = .mainTask ∨ t = .dispatcherTask := by
  cases t with
  | mainTask => simp [liveTasks, live, boot.main]
  | dispatcherTask => simp [liveTasks, live, boot.dispatcher]
  | diskDriverTask => simp [liveTasks, live, boot.driver]
  | user n => simp [liveTasks, live, boot.user n]

theorem boot_conserved {s : System N} (boot : Booted s) : Conserved s := by
  obtain ⟨represents, curr, _, _, dispatcherId, _, status⟩ := boot_lists boot
  have lists : tasks s.kernel = bootLists := represents.elems_eq
  have alive := boot_live boot
  refine ⟨⟨represents.read_back, ?_, ?_, ?_⟩, ?_, ?_, ?_, ?_, dispatcherId, ?_, ?_⟩
  · intro t
    rw [lists, alive]
    constructor
    · rintro ⟨q, mem⟩
      cases q <;> simp_all [bootLists]
    · rintro ⟨rfl | rfl, other⟩
      · exact ⟨.readyTasks, by simp [bootLists]⟩
      · exact absurd rfl other
  · rw [curr, lists]
    exact Or.inr (by simp [bootLists])
  · exact (alive _).mpr (Or.inr rfl)
  · intro t
    cases t <;> simp [role, boot.main, boot.dispatcher, boot.driver, boot.user]
  · intro t
    cases t <;> simp [role, boot.main, boot.dispatcher, boot.user]
  · exact Or.inr (by rw [boot.driver]; rfl)
  · intro start next picked
    rw [boot.dispatcher] at picked
    cases picked
  · intro on
    rw [boot.handler] at on
    cases on
  · intro _
    rw [status]
    decide

def emptyHistory : History N :=
  { returned := fun _ _ => 0, started := fun _ _ => 0, incremented := fun _ _ => 0
    emptyTests := fun _ => 0, sent := fun _ => [], received := fun _ => [], calls := []
    requests := [], ticket := fun _ => 0, performed := [], signalsSeen := 0, woken := []
    refused := 0 }

def bootSystem : System N :=
  { kernel := bootKernel
    ctl := fun t => match t with
      | .mainTask => .body 0
      | .dispatcherTask => .dispatcher .top
      | _ => .unborn
    mqueue := fun _ => ⟨[], 0, 0, 0⟩
    disk := ⟨0, 0, [], 0, false⟩
    device := ⟨.unknown, 0, 0, 0, 0, 0, fun _ _ => 0, 1⟩
    ram := fun _ => 0
    history := emptyHistory }

omit [Fintype N] in
theorem boot_booted : Booted (bootSystem : System N) :=
  ⟨⟨fun _ => ⟨0, 0, 0⟩, pposInit_boot _⟩, rfl, rfl, rfl, fun _ => rfl, rfl, rfl⟩

end Boot

section Counting

/-- One more, or one less, in the count of the tasks of the program. -/
def share (t : Tcb N) (on : Bool) : Int :=
  if on = true ∧ t ≠ .dispatcherTask ∧ t ≠ .diskDriverTask then 1 else 0

theorem users_tally (s : System N) : ((users s).card : Int) = tally share (liveTasks s) :=
  card_eq_tally (fun (t : Tcb N) (on : Bool) =>
    on = true ∧ t ≠ .dispatcherTask ∧ t ≠ .diskDriverTask) (liveTasks s)

structure Counted (s : System N) : Prop where
  conserved : Conserved s
  num : s.kernel.userTasksNum = (users s).card
  range : s.kernel.userTasksNum ≤ intMax

theorem boot_counted {s : System N} (boot : Booted s) : Counted s := by
  have num := (boot_lists boot).2.2.1
  refine ⟨boot_conserved boot, ?_, by rw [num]; decide⟩
  have only : users s = {.mainTask} := by
    ext t
    simp only [users, Finset.mem_filter, Finset.mem_univ, true_and, boot_live boot,
      Finset.mem_singleton]
    constructor
    · rintro ⟨rfl | rfl, other, _⟩
      · rfl
      · exact absurd rfl other
    · rintro rfl
      simp
  rw [num, only]
  rfl

omit [DecidableEq N] [Fintype N] in
theorem birth_is_task_init {s : System N} {l : Label N} (birth : client s l = .birth) :
    ∃ t stack, l = .call (.taskInit t stack) := by
  cases l with
  | tick => cases birth
  | completion => cases birth
  | run m₁ m₂ =>
    simp only [client, ctlClient] at birth
    split at birth <;> cases birth
  | call c =>
    simp only [client, callClient] at birth
    split at birth
    · exact ⟨_, _, rfl⟩
    all_goals cases birth

theorem step_counted {s s' : System N} {l : Label N} (c : Counted s)
    (operates : Operates s l s') (fits : CountFits s l) (differs : IdDiffers s l) :
    Counted s' := by
  have ok := step_kept c.conserved operates.2 operates.1
  have low : 0 ≤ s.kernel.userTasksNum := by rw [c.num]; exact Int.natCast_nonneg _
  have high := c.range
  have num := c.num
  rw [users_tally] at num
  rcases ok.population with ⟨same, num'⟩ | ⟨t, kind, idle, on, num'⟩ |
    ⟨t, alive, dispatcher, driver, off, num'⟩
  · exact ⟨ok.conserved, by rw [num', c.num, users, users, same], by rw [num']; exact high⟩
  · have count := tally_update share (liveTasks s) t true
    rw [← on, ← users_tally, ← num, idle] at count
    have before : share t false = 0 := by simp [share]
    rcases eq_or_ne t .diskDriverTask with rfl | program
    · have after : share (.diskDriverTask : Tcb N) true = 0 := by simp [share]
      have back : initCount s.kernel .diskDriverTask = s.kernel.userTasksNum := by
        rw [initCount, if_pos (Or.inl rfl), toInt, toInt, Int.bmod_sub_bmod, Int.add_sub_cancel]
        exact toInt_eq_self (by simp only [intMin]; omega) high
      rw [back] at num'
      exact ⟨ok.conserved, by omega, by omega⟩
    · obtain ⟨t', stack, rfl⟩ := birth_is_task_init (kind.resolve_right program)
      have fits' : s.kernel.userTasksNum < intMax := fits
      have dispatcher : t ≠ .dispatcherTask := by
        rintro rfl
        rw [show liveTasks s (.dispatcherTask : Tcb N) = true from
          c.conserved.placed.dispatcher] at idle
        cases idle
      have after : share t true = 1 := by simp [share, dispatcher, program]
      have next : initCount s.kernel t = s.kernel.userTasksNum + 1 := by
        rw [initCount, if_neg (not_or.mpr ⟨program, differs⟩)]
        exact toInt_eq_self (by simp only [intMin]; omega) (by omega)
      rw [next] at num'
      exact ⟨ok.conserved, by omega, by omega⟩
  · have count := tally_update share (liveTasks s) t false
    rw [← off, ← users_tally, ← num, alive] at count
    have before : share t true = 1 := by simp [share, dispatcher, driver]
    have after : share t false = 0 := by simp [share]
    have next : toInt (s.kernel.userTasksNum - 1) = s.kernel.userTasksNum - 1 :=
      toInt_eq_self (by simp only [intMin]; omega) (by omega)
    rw [next] at num'
    exact ⟨ok.conserved, by omega, by omega⟩

theorem counted_conserves {s : System N} (c : Counted s) : Conservation s := by
  have placed := c.conserved.placed
  refine ⟨placed.wellFormed, ?_, ?_, ?_, placed.running, c.num, ?_⟩
  · intro p q ne t inP inQ
    exact ne (placed.wellFormed.unique inP inQ)
  · intro t alive other
    obtain ⟨q, mem⟩ := (placed.queued t).mpr ⟨alive, other⟩
    exact ⟨q, mem, fun p mem' => placed.wellFormed.unique mem' mem⟩
  · intro t ended q mem
    have alive := ((placed.queued t).mp ⟨q, mem⟩).1
    rw [liveTasks, ended] at alive
    cases alive
  · intro _ out t alive
    have num := c.num
    have none : users s = ∅ := Finset.card_eq_zero.mp (by omega)
    by_contra program
    have mem : t ∈ users s := by
      simp only [users, Finset.mem_filter, Finset.mem_univ, true_and]
      exact ⟨alive, not_or.mp program⟩
    rw [none] at mem
    exact absurd mem (Finset.notMem_empty t)

end Counting

theorem tasks_are_conserved {s s' : System N} {labels : List (Label N)} (boot : Booted s)
    (run : Run (fun s l s' => Operates s l s' ∧ CountFits s l ∧ IdDiffers s l) s labels s') :
    Conservation s' := by
  refine counted_conserves (run_invariant Counted ?_ run (boot_counted boot))
  intro s l s' c ⟨operates, fits, differs⟩
  exact step_counted c operates fits differs

/-- A task of the program starts another one. -/
theorem init_step {s : System N} (c : Conserved s) (code : Int)
    (body : s.ctl s.curr = .body code) {t : Tcb N} (idle : live (s.ctl t) = false)
    (notDriver : t ≠ .diskDriverTask) :
    ∃ s' id, Operates s (.call (.taskInit t true)) s' ∧ s'.curr = s.curr ∧
      s'.ctl = Function.update (Function.update s.ctl t (.body 0)) s.curr (.body id) ∧
      tasks s'.kernel = listAppend (tasks s.kernel) .readyTasks t ∧
      s'.kernel.userTasksNum = initCount s.kernel t ∧
      s'.kernel.lastTaskId = s.kernel.lastTaskId + 1 ∧
      (s'.kernel.task t).id = nextId s.kernel ∧ s'.mqueue = s.mqueue ∧
      Moved (liveTasks s) (Function.update (liveTasks s) t true) [] [] s.kernel s'.kernel := by
  obtain ⟨k, id, started, _, curr, lists, num, last, own, moved⟩ :=
    taskInit_moved c.placed (t := t) idle
  refine ⟨((s.withKernel k).goto t (.body 0)).goto s.curr (.body id), id,
    ⟨?_, idle, notDriver⟩, curr, rfl, lists, num, last, own, rfl, moved⟩
  simp only [step, body, call, started, Except.map]

theorem first_task_is_conserved : ∃ s' : System (Fin 1),
    Run (fun s l s' => Operates s l s' ∧ CountFits s l ∧ IdDiffers s l) bootSystem
      [.call (.taskInit (.user 0) true)] s' ∧
    s'.ctl (.user 0) = .body 0 ∧ Conservation s' := by
  obtain ⟨s', id, operates, _, ctl, _⟩ := init_step (boot_conserved (N := Fin 1) boot_booted)
    0 rfl (t := .user 0) rfl (by simp)
  have fits : CountFits (bootSystem : System (Fin 1)) (.call (.taskInit (.user 0) true)) := by
    simp [CountFits, bootSystem, bootKernel, intMax]
  have differs : IdDiffers (bootSystem : System (Fin 1)) (.call (.taskInit (.user 0) true)) := by
    simp only [IdDiffers]
    decide
  have run : Run (fun s l s' => Operates s l s' ∧ CountFits s l ∧ IdDiffers s l) _ _ s' :=
    run_one ⟨operates, fits, differs⟩
  exact ⟨s', run, by rw [ctl]; rfl, tasks_are_conserved boot_booted run⟩

section Wrapping

omit [DecidableEq N] [Fintype N] in
theorem nextId_eq {k : Kernel N} {j : Nat} (last : k.lastTaskId = UInt64.ofNat j)
    (fits : j + 1 < 18446744073709551616) : nextId k = toInt (j + 1) := by
  have sum : UInt64.ofNat j + 1 = UInt64.ofNat (j + 1) := (UInt64.ofNat_add j 1).symm
  rw [nextId, idOf, last, sum, UInt64.toNat_ofNat_of_lt' fits]
  rfl

/-- main has started the first j tasks, and all of them are alive. -/
structure Spawned {n : Nat} (j : Nat) (s : System (Fin n)) : Prop where
  conserved : Conserved s
  curr : s.curr = .mainTask
  body : ∃ code, s.ctl .mainTask = .body code
  idle : ∀ i : Fin n, j ≤ i.val → live (s.ctl (.user i)) = false
  num : s.kernel.userTasksNum = toInt (j + 1)
  last : s.kernel.lastTaskId = UInt64.ofNat j
  driverId : (s.kernel.task .diskDriverTask).id = -2

theorem boot_spawned {n : Nat} : Spawned 0 (bootSystem : System (Fin n)) :=
  ⟨boot_conserved boot_booted, rfl, ⟨0, rfl⟩, fun _ _ => rfl, rfl, rfl, rfl⟩

theorem spawn_one {n j : Nat} {s : System (Fin n)} (p : Spawned j s) (room : j < n)
    (fits : j + 1 ≤ 2147483647) :
    ∃ l s', (Operates s l s' ∧ IdDiffers s l) ∧ Spawned (j + 1) s' := by
  obtain ⟨code, body⟩ := p.body
  obtain ⟨s', id, operates, curr, ctl, _, num, last, _, _, moved⟩ := init_step p.conserved
    code (by rw [p.curr]; exact body) (t := .user ⟨j, room⟩) (p.idle _ (Nat.le_refl j))
    (by simp)
  have next : nextId s.kernel = (j + 1 : Int) := by
    rw [nextId_eq p.last (by omega)]
    exact toInt_eq_self (by simp only [intMin]; omega) (by simp only [intMax]; omega)
  have differs : nextId s.kernel ≠ (s.kernel.task .diskDriverTask).id := by
    rw [next, p.driverId]; omega
  refine ⟨_, s', ⟨operates, differs⟩, (step_kept p.conserved operates.2 operates.1).conserved,
    curr.trans p.curr, ⟨id, by rw [ctl, p.curr, Function.update_self]⟩, ?_, ?_, ?_, ?_⟩
  · intro i later
    have other : (.user i : Tcb (Fin n)) ≠ .user ⟨j, room⟩ := by
      simp only [ne_eq, Tcb.user.injEq, Fin.ext_iff]; omega
    rw [ctl, p.curr, Function.update_of_ne (by simp), Function.update_of_ne other]
    exact p.idle i (by omega)
  · rw [num, initCount, if_neg (not_or.mpr ⟨by simp, differs⟩), p.num, toInt, toInt,
      Int.bmod_add_bmod]
    push_cast
    rfl
  · rw [last, p.last]
    exact (UInt64.ofNat_add j 1).symm
  · rw [moved.ids _ (by rw [Function.update_of_ne (by simp)])]
    exact p.driverId

theorem spawn_many {n : Nat} (j : Nat) (room : j ≤ n) (fits : j ≤ 2147483647) :
    ∃ labels, ∃ s' : System (Fin n),
      Run (fun s l s' => Operates s l s' ∧ IdDiffers s l) bootSystem labels s' ∧
      Spawned j s' := by
  induction j with
  | zero => exact ⟨[], bootSystem, .start _, boot_spawned⟩
  | succ j ih =>
    obtain ⟨labels, s, run, p⟩ := ih (by omega) (by omega)
    obtain ⟨l, s', last, p'⟩ := spawn_one p (by omega) fits
    exact ⟨labels ++ [l], s', .step run last, p'⟩

/-- Only main and the dispatcher are alive, after j calls of task_init. -/
structure Quiet (j : Nat) (s : System (Fin 1)) : Prop where
  conserved : Conserved s
  alive : ∀ t, liveTasks s t = true ↔ t = .mainTask ∨ t = .dispatcherTask
  body : ∃ code, s.ctl .mainTask = .body code
  ready : .mainTask ∈ tasks s.kernel .readyTasks
  num : s.kernel.userTasksNum = 1
  last : s.kernel.lastTaskId = UInt64.ofNat j
  driverId : (s.kernel.task .diskDriverTask).id = -2

abbrev Fits (s : System (Fin 1)) (l : Label (Fin 1)) (s' : System (Fin 1)) : Prop :=
  Operates s l s' ∧ CountFits s l

theorem quiet_turn {j : Nat} {s : System (Fin 1)} (q : Quiet j s)
    (curr : s.curr = .dispatcherTask) (head : LoopHead s) :
    ∃ labels s', Run Fits s labels s' ∧ Quiet j s' ∧ s'.curr = .mainTask ∧ LoopHead s' := by
  have only : ∀ {a t}, t ∈ tasks s.kernel a → t = .mainTask ∧ a = .readyTasks := by
    intro a t mem
    obtain ⟨on, other⟩ := (q.conserved.placed.queued t).mp ⟨a, mem⟩
    have main := ((q.alive t).mp on).resolve_right other
    exact ⟨main, q.conserved.placed.wellFormed.unique mem (main ▸ q.ready)⟩
  have nobody : tasks s.kernel .sleepingTasks = [] :=
    List.eq_nil_iff_forall_not_mem.mpr fun t mem => by cases (only mem).2
  obtain ⟨t, mem, labels, s', run, c, next, head', same⟩ := dispatcher_turn q.conserved curr head
    (by rw [q.num]; decide) nobody (List.ne_nil_of_mem q.ready)
  refine ⟨labels, s', run_mono ?_ run, ⟨c, ?_, ?_, ?_, ?_, ?_, ?_⟩, next.trans (only mem).1, head'⟩
  · rintro s l s' ⟨go, rfl, _⟩
    exact ⟨⟨go, trivial⟩, trivial⟩
  · intro a
    by_cases dispatcher : a = .dispatcherTask
    · subst dispatcher
      exact ⟨fun _ => Or.inr rfl, fun _ => c.placed.dispatcher⟩
    · rw [liveTasks, same.ctl a dispatcher]
      exact q.alive a
  · rw [same.ctl _ (by simp)]; exact q.body
  · rw [same.lists]; exact q.ready
  · rw [same.num]; exact q.num
  · rw [same.last]; exact q.last
  · rw [same.ids]; exact q.driverId

theorem id_is_ordinary {j : Nat} (fits : j + 1 < 4294967294) :
    toInt (j + 1) ≠ -2 ∧ toInt (j + 1) ≠ dispatcherPid := by
  simp only [toInt, Int.bmod_def, dispatcherPid]
  split <;> omega

/-- main starts a task, hands it the processor, and gets it back when the task has exited. -/
theorem quiet_round {j : Nat} {s : System (Fin 1)} (q : Quiet j s) (curr : s.curr = .mainTask)
    (head : LoopHead s) (fits : j + 1 < 4294967294) :
    ∃ labels s', Run Fits s labels s' ∧ Quiet (j + 1) s' ∧ s'.curr = .mainTask ∧ LoopHead s' := by
  obtain ⟨code, body⟩ := q.body
  have idle : live (s.ctl (.user 0)) = false := by
    cases on : live (s.ctl (.user 0))
    · rfl
    · exact absurd ((q.alive (.user 0)).mp on) (by simp)
  obtain ⟨s₁, id, op₁, curr₁, ctl₁, lists₁, num₁, last₁, own₁, _, moved₁⟩ := init_step q.conserved
    code (by rw [curr]; exact body) idle (by simp)
  have next : nextId s.kernel = toInt (j + 1) := nextId_eq q.last (by omega)
  have ordinary := id_is_ordinary fits
  have c₁ := (step_kept q.conserved op₁.2 op₁.1).conserved
  -- the new task gets the processor
  obtain ⟨k₂, switched, curr₂, lists₂, _, kept₂⟩ := switch_kept c₁.placed (t := .user 0)
    (Or.inr (by rw [lists₁]; simp))
  have here₁ : s₁.curr = .mainTask := curr₁.trans curr
  have body₁ : s₁.ctl .mainTask = .body id := by rw [ctl₁, curr, Function.update_self]
  have new₁ : s₁.ctl (.user 0) = .body 0 := by
    rw [ctl₁, curr, Function.update_of_ne (by simp), Function.update_self]
  have old₁ : ∀ t, t ≠ .mainTask → t ≠ .user 0 → s₁.ctl t = s.ctl t := by
    intro t notMain notNew
    rw [ctl₁, curr, Function.update_of_ne notMain, Function.update_of_ne notNew]
  have op₂ : Operates s₁ (.call (.taskSwitch (some (.user 0))))
      ((s₁.withKernel k₂).goto .mainTask (.body 0)) := by
    refine ⟨?_, Or.inr (by rw [lists₁]; simp)⟩
    simp only [step, here₁, body₁, call, switched, Except.map]
  have c₂ := (step_kept c₁ op₂.2 op₂.1).conserved
  generalize at₂ : (s₁.withKernel k₂).goto .mainTask (.body 0) = s₂ at op₂ c₂
  have kernel₂ : s₂.kernel = k₂ := by rw [← at₂]; rfl
  have here₂ : s₂.curr = .user 0 := by rw [System.curr, kernel₂]; exact curr₂
  have ctl₂ : s₂.ctl = Function.update s₁.ctl .mainTask (.body 0) := by rw [← at₂]; rfl
  have new₂ : s₂.ctl (.user 0) = .body 0 := by
    rw [ctl₂, Function.update_of_ne (by simp)]; exact new₁
  -- and exits
  have user : s₂.kernel.curr ≠ .dispatcherTask := by rw [kernel₂, curr₂]; simp
  have own₂ : (s₂.kernel.task s₂.kernel.curr).id ≠ dispatcherPid := by
    rw [kernel₂, curr₂, kept₂.ids _ rfl, own₁, next]; exact ordinary.2
  obtain ⟨k₃, ended⟩ := taskExit_runs c₂.placed user own₂ 0
  obtain ⟨curr₃, num₃, last₃, stay₃, moved₃⟩ := taskExit_moved c₂.placed user ended
  have op₃ : Operates s₂ (.call (.taskExit 0)) ((s₂.withKernel k₃).goto (.user 0) .terminated) := by
    refine ⟨?_, trivial⟩
    simp only [step, here₂, new₂, call, ended, Except.map]
  have c₃ := (step_kept c₂ op₃.2 op₃.1).conserved
  generalize at₃ : (s₂.withKernel k₃).goto (.user 0) .terminated = s₃ at op₃ c₃
  have kernel₃ : s₃.kernel = k₃ := by rw [← at₃]; rfl
  have here₃ : s₃.curr = .dispatcherTask := by rw [System.curr, kernel₃]; exact curr₃
  have ctl₃ : s₃.ctl = Function.update s₂.ctl (.user 0) .terminated := by rw [← at₃]; rfl
  have old₃ : ∀ t, t ≠ .mainTask → t ≠ .user 0 → s₃.ctl t = s.ctl t := by
    intro t notMain notNew
    rw [ctl₃, Function.update_of_ne notNew, ctl₂, Function.update_of_ne notMain,
      old₁ t notMain notNew]
  have q₃ : Quiet (j + 1) s₃ := by
    refine ⟨c₃, ?_, ⟨0, ?_⟩, ?_, ?_, ?_, ?_⟩
    · intro t
      by_cases main : t = .mainTask
      · subst main
        simp [liveTasks, ctl₃, ctl₂, live]
      · by_cases new : t = .user 0
        · subst new
          simp [liveTasks, ctl₃, live]
        · rw [liveTasks, old₃ t main new]
          exact q.alive t
    · rw [ctl₃, Function.update_of_ne (by simp), ctl₂, Function.update_self]
    · rw [kernel₃]
      refine stay₃ _ ?_ (by rw [kernel₂, curr₂]; simp)
      rw [kernel₂, lists₂, lists₁, listAppend_same]
      simp [q.ready]
    · have two : initCount s.kernel (.user 0) = 2 := by
        rw [initCount, if_neg (not_or.mpr ⟨by simp, by rw [next, q.driverId]; exact ordinary.1⟩),
          q.num]
        rfl
      rw [kernel₃, num₃, kernel₂, (kept₂.counters rfl).1, num₁, two]
      rfl
    · rw [kernel₃, last₃, kernel₂, (kept₂.counters rfl).2, last₁, q.last]
      exact (UInt64.ofNat_add j 1).symm
    · rw [kernel₃, moved₃.ids _ (by rw [kernel₂, curr₂, Function.update_of_ne (by simp)]),
        kernel₂, kept₂.ids _ rfl, moved₁.ids _ (by rw [Function.update_of_ne (by simp)])]
      exact q.driverId
  have head₃ : LoopHead s₃ := by
    rw [LoopHead, old₃ _ (by simp) (by simp)]; exact head
  -- the dispatcher gives the processor back to main
  obtain ⟨labels₄, s₄, run₄, q₄, here₄, head₄⟩ := quiet_turn q₃ here₃ head₃
  have spawn : Fits s (.call (.taskInit (.user 0) true)) s₁ :=
    ⟨op₁, by rw [CountFits, q.num]; decide⟩
  have begun : Run Fits s _ s₃ := .step (.step (run_one spawn) ⟨op₂, trivial⟩) ⟨op₃, trivial⟩
  exact ⟨_, s₄, run_append begun run₄, q₄, here₄, head₄⟩

theorem quiet_rounds (j : Nat) (fits : j < 4294967294) :
    ∃ labels s', Run Fits bootSystem labels s' ∧ Quiet j s' ∧ s'.curr = .mainTask ∧
      LoopHead s' := by
  induction j with
  | zero =>
    have lists : tasks (bootSystem : System (Fin 1)).kernel = bootLists :=
      (boot_lists boot_booted).1.elems_eq
    exact ⟨[], bootSystem, .start _, ⟨boot_conserved boot_booted, boot_live boot_booted, ⟨0, rfl⟩,
      by rw [lists]; simp [bootLists], rfl, rfl, rfl⟩, rfl, Or.inl rfl⟩
  | succ j ih =>
    obtain ⟨labels, s, run, q, curr, head⟩ := ih (by omega)
    obtain ⟨labels', s', more, q', curr', head'⟩ := quiet_round q curr head fits
    exact ⟨labels ++ labels', s', run_append run more, q', curr', head'⟩

theorem counter_misses_tasks :
    (¬ ∀ (s s' : System (Fin 2147483647)) (labels : List (Label (Fin 2147483647))), Booted s →
      Run (fun s l s' => Operates s l s' ∧ IdDiffers s l) s labels s' → Conservation s') ∧
    (¬ ∀ (s s' : System (Fin 1)) (labels : List (Label (Fin 1))), Booted s →
      Run (fun s l s' => Operates s l s' ∧ CountFits s l) s labels s' → Conservation s') := by
  constructor
  · intro claim
    obtain ⟨labels, s', run, p⟩ := spawn_many (n := 2147483647) 2147483647 (Nat.le_refl _)
      (Nat.le_refl _)
    have count := (claim _ _ labels boot_booted run).counted
    have wrapped : toInt ((2147483647 : Nat) + 1 : Int) = -2147483648 := by decide
    rw [p.num, wrapped] at count
    omega
  · intro claim
    obtain ⟨labels, s, run, q, curr, _⟩ := quiet_rounds 4294967293 (by omega)
    obtain ⟨code, body⟩ := q.body
    have idle : live (s.ctl (.user 0)) = false := by
      cases on : live (s.ctl (.user 0))
      · rfl
      · exact absurd ((q.alive (.user 0)).mp on) (by simp)
    obtain ⟨s', id, op, _, ctl, _, num, _⟩ := init_step q.conserved
      code (by rw [curr]; exact body) idle (by simp)
    have same : nextId s.kernel = -2 := by
      rw [nextId_eq q.last (by omega)]; decide
    have one : initCount s.kernel (.user 0) = 1 := by
      rw [initCount, if_pos (Or.inr (by rw [same, q.driverId])), q.num]; rfl
    have fits : CountFits s (.call (.taskInit (.user 0) true)) := by
      rw [CountFits, q.num]; decide
    have count := (claim _ _ _ boot_booted (.step run ⟨op, fits⟩)).counted
    have two : ({.mainTask, .user 0} : Finset (Tcb (Fin 1))) ⊆ users s' := by
      intro t mem
      simp only [Finset.mem_insert, Finset.mem_singleton] at mem
      simp only [users, Finset.mem_filter, Finset.mem_univ, true_and]
      rcases mem with rfl | rfl
      · simp [liveTasks, ctl, curr, live]
      · simp [liveTasks, ctl, curr, live]
    have more := Finset.card_le_card two
    rw [Finset.card_pair (by simp)] at more
    omega

end Wrapping

end TaskConservation
