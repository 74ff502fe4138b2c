import PingPong.PreemptionModel
import PingPong.KernelEffects

/-!
Where a task is while the timer may strike between any two statements of the kernel calls.
Every initialised task is in one queue, or the code that is running has taken it out of one
and has not put it back yet; a preemption in between is what loses it.
-/
namespace PreemptionSafety
open MachineModel CircularList QueueModel KernelModel KernelEffects PreemptionModel TransitionRuns
open SystemModel (Operation)
variable {N : Type} [DecidableEq N]

section Places

/-- The task that a move has out of the queues. -/
def moved (curr : Tcb N) : Move N → Option (Tcb N)
  | .assign _ | .remove _ _ _ _ => none
  | .mark task _ _ | .append task _ => some (task.getD curr)

/-- The code that is running is between the queue_remove and the queue_append of the task, or past
    the queue_remove of its task_exit. -/
def Moving (s : Machine N) (t : Tcb N) : Prop :=
  (∃ m ∈ s.running.moves, moved s.curr m = some t) ∨ ∃ e, s.running.exit = some e ∧ e.prev = t

variable [Fintype N]

def Queued (s : Machine N) (t : Tcb N) : Prop := ∃ q, t ∈ elems s.queues q

def InSight (s : Machine N) (t : Tcb N) : Prop := Queued s t ∨ Moving s t

/-- The dispatcher runs and is not in the middle of moving a task itself. -/
structure DispatcherHasControl (s : Machine N) : Prop where
  holder : s.holder = .dispatcherTask
  moves : s.running.moves = []
  exit : s.running.exit = none

/-- ppos_init has returned: main runs its own code, and the dispatcher has not started. -/
structure Booted (s : Machine N) : Prop where
  kernel : ∃ sem, pposInit { zeroedKernel with sem := sem } true = .ok s.kernel
  running : s.running = ⟨[], none, []⟩
  dispatcher : s.saved .dispatcherTask = ⟨[], none, [.loop .dispatcher]⟩
  holder : s.holder = .mainTask
  phase : s.phase = Function.update (fun _ => .unborn) .mainTask .alive
  handler : s.memory.disk.handler = false
  device : s.memory.device.status = .unknown

/-- What programs must not do: initialise a descriptor that is in a queue, or a semaphore that has
    waiters. -/
def Permitted (s : Machine N) : Label N → Prop
  | .run _ => match s.running with
      | ⟨[], none, .clearLinks t :: _⟩ => ∀ q, t ∉ elems s.queues q
      | ⟨[], none, .clearQueue a :: _⟩ => elems s.queues (.semQueue a) = []
      | _ => True
  | _ => True

def Operates (s : Machine N) (l : Label N) (s' : Machine N) : Prop :=
  step s l = some (.ok s') ∧ Permitted s l

/-- The tick does not take the processor from code that has an initialised task out of the
    queues. -/
def Spares (s : Machine N) : Label N → Prop
  | .tick => quantumEnds s.kernel → s.curr ≠ .dispatcherTask →
      ∀ t, s.phase t = .alive → Moving s t → Queued s t
  | _ => True

def Preempts (s : Machine N) (l : Label N) (s' : Machine N) : Prop :=
  Operates s l s' ∧ Spares s l

end Places

section Steps
variable [Fintype N] {s s' : Machine N}

/-- The queues stay rings, and no task that was in sight is lost. -/
structure Keeps (s s' : Machine N) : Prop where
  wellFormed : Represents s'.queues (elems s'.queues)
  inSight : ∀ t, s'.phase t = .alive → (s.phase t = .alive → InSight s t) → InSight s' t

theorem keeps_same (r : Represents s.queues (elems s.queues)) (queues : s'.queues = s.queues)
    (phase : s'.phase = s.phase) (moving : ∀ t, Moving s t → Moving s' t) : Keeps s s' := by
  constructor
  · rw [queues]
    exact r
  · intro t alive before
    rw [phase] at alive
    rcases before alive with ⟨q, mem⟩ | out
    · exact Or.inl ⟨q, by rw [queues]; exact mem⟩
    · exact Or.inr (moving t out)

theorem keeps_lists {qs : TaskLists N} (r : Represents s'.queues qs)
    (phase : ∀ t, s'.phase t = .alive → s.phase t = .alive ∨ ∃ q, t ∈ qs q)
    (queued : ∀ t q, t ∈ elems s.queues q → (∃ p, t ∈ qs p) ∨ Moving s' t)
    (moving : ∀ t, Moving s t → (∃ q, t ∈ qs q) ∨ Moving s' t) : Keeps s s' := by
  have lists := r.elems_eq
  constructor
  · rw [lists]
    exact r
  · intro t alive before
    simp only [InSight, Queued, lists]
    rcases phase t alive with old | new
    · rcases before old with ⟨q, mem⟩ | out
      · exact queued t q mem
      · exact moving t out
    · exact Or.inl new

omit [DecidableEq N] [Fintype N] in
theorem not_moving {code : Code N} (here : s.running = ⟨[], none, code⟩) (t : Tcb N) :
    ¬ Moving s t := by
  rintro (⟨m, mem, _⟩ | ⟨e, some, _⟩)
  · rw [here] at mem
    cases mem
  · rw [here] at some
    cases some

theorem keeps_remove {q : TaskQueue} {t : Tcb N} {m : Queues TaskQueue (Tcb N)} {code : Int}
    (r : Represents s.queues (elems s.queues))
    (remove : queueRemove s.queues (some q) (some t) = .ok (m, code))
    (queues : s'.queues = m) (phase : s'.phase = s.phase) (takes : Moving s' t)
    (moving : ∀ t, Moving s t → Moving s' t) : Keeps s s' := by
  by_cases mem : t ∈ elems s.queues q
  · obtain ⟨m', known, r', _⟩ := r.remove_mem mem
    rw [known, Except.ok.injEq, Prod.mk.injEq] at remove
    rw [remove.1, ← queues] at r'
    refine keeps_lists r' (fun u alive => Or.inl (by rwa [phase] at alive)) ?_
      (fun u out => Or.inr (moving u out))
    intro u p inside
    by_cases same : u = t
    · subst same
      exact Or.inr takes
    · exact Or.inl ⟨p, r.mem_remove.mpr ⟨inside, fun both => same both.2⟩⟩
  · obtain ⟨code', _, known⟩ := r.remove_absent mem
    rw [known, Except.ok.injEq, Prod.mk.injEq] at remove
    exact keeps_same r (queues.trans remove.1.symm) phase moving

theorem keeps_append {q : TaskQueue} {t : Tcb N} {m : Queues TaskQueue (Tcb N)} {code : Int}
    (r : Represents s.queues (elems s.queues))
    (append : queueAppend s.queues (some q) (some t) = .ok (m, code))
    (queues : s'.queues = m) (phase : ∀ u, s'.phase u = .alive → s.phase u = .alive ∨ u = t)
    (moving : ∀ u, Moving s u → u = t ∨ Moving s' u) : Keeps s s' := by
  have placed : ∀ {qs : TaskLists N}, Represents s'.queues qs → (∃ p, t ∈ qs p) →
      (∀ u p, u ∈ elems s.queues p → u ∈ qs p) → Keeps s s' := by
    intro qs r' here grows
    refine keeps_lists r' ?_ (fun u p mem => Or.inl ⟨p, grows u p mem⟩) ?_
    · intro u alive
      rcases phase u alive with old | rfl
      · exact Or.inl old
      · exact Or.inr here
    · intro u out
      rcases moving u out with rfl | still
      · exact Or.inl here
      · exact Or.inr still
  by_cases busy : Queued s t
  · obtain ⟨p, mem⟩ := busy
    rw [r.append_busy mem q, Except.ok.injEq, Prod.mk.injEq] at append
    have same : s'.queues = s.queues := queues.trans append.1.symm
    exact placed (same ▸ r) ⟨p, mem⟩ fun _ _ inside => inside
  · obtain ⟨m', known, r'⟩ := r.append_free (fun p mem => busy ⟨p, mem⟩) q
    rw [known, Except.ok.injEq, Prod.mk.injEq] at append
    rw [append.1, ← queues] at r'
    exact placed r' ⟨q, by simp⟩ fun u p inside => mem_listAppend.mpr (Or.inl inside)

theorem move_keeps {m : Move N} {moves : List (Move N)} {exit : Option (Exit N)} {code : Code N}
    (r : Represents s.queues (elems s.queues)) (here : s.running = ⟨m :: moves, exit, code⟩)
    (run : moveStep (s.goto ⟨moves, exit, code⟩) m = .ok s') : Keeps s s' := by
  have below : ∀ {u}, Moving s u →
      moved s.curr m = some u ∨ Moving (s.goto ⟨moves, exit, code⟩) u := by
    intro u out
    rcases out with ⟨m', mem, holds⟩ | ⟨e, some, rfl⟩
    · rw [here] at mem
      rcases List.mem_cons.mp mem with rfl | mem
      · exact Or.inl holds
      · exact Or.inr (Or.inl ⟨m', mem, holds⟩)
    · rw [here] at some
      exact Or.inr (Or.inr ⟨e, some, rfl⟩)
  cases m with
  | assign a =>
    cases run
    refine keeps_same r (a.queues _) rfl fun u out => ?_
    rcases below out with none | ⟨m', mem, holds⟩ | exits
    · cases none
    · exact Or.inl ⟨m', mem, by rw [Machine.curr, a.curr]; exact holds⟩
    · exact Or.inr exits
  | remove task source status target =>
    obtain ⟨⟨queues, code'⟩, remove, rest⟩ := bind_ok run
    cases rest
    refine keeps_remove r remove rfl rfl (Or.inl ⟨_, List.mem_cons_self, rfl⟩) fun u out => ?_
    rcases below out with none | ⟨m', mem, holds⟩ | exits
    · cases none
    · exact Or.inl ⟨m', List.mem_cons_of_mem _ mem, holds⟩
    · exact Or.inr exits
  | mark task status target =>
    cases run
    refine keeps_same r rfl rfl fun u out => ?_
    rcases below out with this | ⟨m', mem, holds⟩ | exits
    · exact Or.inl ⟨_, List.mem_cons_self, this⟩
    · exact Or.inl ⟨m', List.mem_cons_of_mem _ mem, holds⟩
    · exact Or.inr exits
  | append task target =>
    obtain ⟨⟨queues, code'⟩, append, rest⟩ := bind_ok run
    cases rest
    refine keeps_append r append rfl (fun u alive => Or.inl alive) fun u out => ?_
    rcases below out with this | still
    · exact Or.inl (Option.some.inj this).symm
    · exact Or.inr still

theorem exit_keeps {prev : Tcb N} {point : ExitPoint} {code : Code N}
    (r : Represents s.queues (elems s.queues)) (here : s.running = ⟨[], some ⟨prev, point⟩, code⟩) :
    Keeps s (exitStep (s.goto ⟨[], none, code⟩) prev point) := by
  have leaves : ∀ {u}, Moving s u → u = prev := by
    rintro u (⟨m, mem, _⟩ | ⟨e, some, rfl⟩)
    · rw [here] at mem
      cases mem
    · rw [here] at some
      cases some
      rfl
  cases point with
  | uncount => exact keeps_same r rfl rfl fun u out => Or.inr ⟨_, rfl, (leaves out).symm⟩
  | handOver => exact keeps_same r rfl rfl fun u out => Or.inr ⟨_, rfl, (leaves out).symm⟩
  | swap =>
    constructor
    · exact r
    · intro u alive before
      change Function.update s.phase prev .ended u = .alive at alive
      by_cases same : u = prev
      · subst same
        rw [Function.update_self] at alive
        cases alive
      · rw [Function.update_of_ne same] at alive
        rcases before alive with queued | out
        · exact Or.inl queued
        · exact absurd (leaves out) same

theorem instr_keeps {i : Instr N} {code : Code N} {host : Bool}
    (r : Represents s.queues (elems s.queues)) (here : s.running = ⟨[], none, i :: code⟩)
    (permitted : Permitted s (.run host))
    (run : instrStep (s.goto ⟨[], none, code⟩) host i = .ok s') : Keeps s s' := by
  have still : ∀ {s'' : Machine N} t, Moving s t → Moving s'' t :=
    fun t out => absurd out (not_moving here t)
  simp only [Permitted, here] at permitted
  cases i with
  | assign a =>
    cases run
    exact keeps_same r (a.queues _) rfl still
  | update a next =>
    cases run
    exact keeps_same r (a.queues _) rfl still
  | read next | host next | loop l | makecontext t start | setCurr t | swapcontext prev t =>
    cases run
    exact keeps_same r rfl rfl still
  | move m =>
    have kept := move_keeps (s := s.goto ⟨[m], none, code⟩) r rfl run
    refine ⟨kept.wellFormed, fun t alive before => kept.inSight t alive fun old => ?_⟩
    rcases before old with queued | out
    · exact Or.inl queued
    · exact Or.inr (still t out)
  | clearLinks t =>
    cases run
    -- the links of a task outside the queues are NULL already
    have free : Function.update s.queues.link t Links.free = s.queues.link := by
      rw [← r.free t permitted, Function.update_eq_self]
    refine keeps_same r ?_ rfl still
    change (⟨s.queues.head, Function.update s.queues.link t Links.free⟩ : Queues _ _) = s.queues
    rw [free]
  | appendReady t =>
    obtain ⟨⟨queues, code'⟩, append, rest⟩ := bind_ok run
    cases rest
    refine keeps_append r append rfl (fun u alive => ?_) fun u out => absurd out (not_moving here u)
    change Function.update s.phase t .alive u = .alive at alive
    by_cases same : u = t
    · exact Or.inr same
    · rw [Function.update_of_ne same] at alive
      exact Or.inl alive
  | clearQueue a =>
    cases run
    have empty : Function.update s.queues.head (.semQueue a) none = s.queues.head := by
      have head := r.head (.semQueue a)
      rw [permitted] at head
      rw [← show s.queues.head (.semQueue a) = none from head, Function.update_eq_self]
    refine keeps_same r ?_ rfl still
    change (⟨Function.update s.queues.head (.semQueue a) none, s.queues.link⟩ : Queues _ _) =
      s.queues
    rw [empty]
  | removeReady prev =>
    obtain ⟨⟨queues, code'⟩, remove, rest⟩ := bind_ok run
    cases rest
    exact keeps_remove r remove rfl rfl (Or.inr ⟨_, rfl, rfl⟩) still
  | halt h => cases run

theorem advance_keeps {host : Bool} (r : Represents s.queues (elems s.queues))
    (permitted : Permitted s (.run host)) (run : advance s host = some (.ok s')) : Keeps s s' := by
  unfold advance at run
  split at run
  · rename_i m moves exit code here
    exact move_keeps r here (Option.some.inj run)
  · rename_i prev point code here
    cases run
    exact exit_keeps r here
  · rename_i i code here
    exact instr_keeps r here permitted (Option.some.inj run)
  · cases run

theorem completion_keeps {op : Operation} (r : Represents s.queues (elems s.queues))
    (run : diskSighandle s op = .ok s') : Keeps s s' := by
  have grows : ∀ {m : Memory N} t, m.kernel = s.kernel → Moving s t → Moving { s with
      memory := m
      running := { s.running with moves := diskSignalHandler ++ s.running.moves } } t := by
    intro m t kernel out
    rcases out with ⟨move, mem, holds⟩ | exits
    · refine Or.inl ⟨move, List.mem_append_right _ mem, ?_⟩
      simp only [Machine.curr, kernel]
      exact holds
    · exact Or.inr exits
  unfold diskSighandle at run
  cases op <;>
  · simp only at run
    split at run
    · cases run
    · cases run
      exact keeps_same r rfl rfl fun t => grows t rfl

theorem enter_keeps {code : Code N} (r : Represents s.queues (elems s.queues))
    (run : enter s code = some (.ok s')) : Keeps s s' := by
  unfold enter at run
  split at run
  · rename_i here
    cases run
    exact keeps_same r rfl rfl fun t out => absurd out (not_moving here t)
  · cases run

omit [Fintype N] in
theorem handler_effect {k k' : Kernel N} (run : interruptionHandler k = .ok k') :
    k'.queues = k.queues ∧ k'.curr = if quantumEnds k then .dispatcherTask else k.curr := by
  simp only [interruptionHandler] at run
  split at run
  · rename_i limit
    have ends : quantumEnds k := by simpa [quantumEnds, Kernel.setTask] using limit
    cases run
    exact ⟨rfl, (if_pos ends).symm⟩
  · rename_i limit
    have goesOn : ¬ quantumEnds k := by simpa [quantumEnds, Kernel.setTask] using limit
    cases run
    exact ⟨rfl, (if_neg goesOn).symm⟩

omit [Fintype N] in
theorem tick_cases (run : tick s = .ok s') : s'.queues = s.queues ∧ s'.phase = s.phase ∧
    (s'.running = s.running ∧ s'.curr = s.curr ∨
      quantumEnds s.kernel ∧ s.curr ≠ .dispatcherTask) := by
  obtain ⟨k, handled, rfl⟩ := map_ok run
  obtain ⟨queues, curr⟩ := handler_effect handled
  by_cases ends : quantumEnds s.kernel
  · rw [if_pos ends] at curr ⊢
    refine ⟨queues, rfl, ?_⟩
    by_cases dispatcher : s.curr = .dispatcherTask
    · -- saved and loaded again
      refine Or.inl ⟨?_, curr.trans dispatcher.symm⟩
      change Function.update s.saved s.curr s.running .dispatcherTask = s.running
      rw [dispatcher, Function.update_self]
    · exact Or.inr ⟨ends, dispatcher⟩
  · rw [if_neg ends] at curr ⊢
    exact ⟨queues, rfl, Or.inl ⟨rfl, curr⟩⟩

theorem tick_keeps (r : Represents s.queues (elems s.queues)) (spares : Spares s .tick)
    (run : tick s = .ok s') : Keeps s s' := by
  obtain ⟨queues, phase, ⟨running, curr⟩ | ⟨ends, task⟩⟩ := tick_cases run
  · refine keeps_same r queues phase fun t out => ?_
    unfold Moving
    rw [running, curr]
    exact out
  · constructor
    · rw [queues]
      exact r
    · intro t alive before
      rw [phase] at alive
      have queued : Queued s t := by
        rcases before alive with queued | out
        · exact queued
        · exact spares ends task t alive out
      obtain ⟨q, mem⟩ := queued
      exact Or.inl ⟨q, by rw [queues]; exact mem⟩

theorem step_keeps {l : Label N} (r : Represents s.queues (elems s.queues))
    (op : Operates s l s') (spares : Spares s l) : Keeps s s' := by
  obtain ⟨run, permitted⟩ := op
  cases l with
  | tick => exact tick_keeps r spares (Option.some.inj run)
  | completion =>
    simp only [step] at run
    split at run
    · exact completion_keeps r (Option.some.inj run)
    · exact completion_keeps r (Option.some.inj run)
    · cases run
  | call c => exact enter_keeps r run
  | suspend queue => exact enter_keeps r run
  | resume task queue => exact enter_keeps r run
  | run host => exact advance_keeps r permitted run

/-- Even the preemption that loses a task leaves the queues in order. -/
theorem step_wellFormed {l : Label N} (r : Represents s.queues (elems s.queues))
    (op : Operates s l s') : Represents s'.queues (elems s'.queues) := by
  by_cases tick : l = .tick
  · subst tick
    rw [(tick_cases (Option.some.inj op.1)).1]
    exact r
  · refine (step_keeps r op ?_).wellFormed
    cases l with
    | tick => exact absurd rfl tick
    | _ => trivial

end Steps

section Runs
variable [Fintype N] {s₀ s : Machine N} {labels : List (Label N)}

structure Sighted (s : Machine N) : Prop where
  wellFormed : Represents s.queues (elems s.queues)
  inSight : ∀ t, s.phase t = .alive → InSight s t

theorem boot_sighted (boot : Booted s₀) : Sighted s₀ := by
  obtain ⟨sem, run⟩ := boot.kernel
  rw [pposInit_boot, Except.ok.injEq] at run
  have r : Represents s₀.queues bootLists := by
    change Represents s₀.kernel.queues bootLists
    rw [← run]
    exact boot_represents
  have lists := r.elems_eq
  refine ⟨r.read_back, fun t alive => Or.inl ⟨.readyTasks, ?_⟩⟩
  rw [boot.phase] at alive
  by_cases main : t = .mainTask
  · rw [lists, main]
    exact List.mem_singleton_self _
  · rw [Function.update_of_ne main] at alive
    cases alive

theorem run_wellFormed (boot : Booted s₀) (run : Run Operates s₀ labels s) :
    Represents s.queues (elems s.queues) :=
  run_invariant (fun s => Represents s.queues (elems s.queues))
    (fun _ _ _ r op => step_wellFormed r op) run (boot_sighted boot).wellFormed

theorem run_sighted (boot : Booted s₀) (run : Run Preempts s₀ labels s) : Sighted s := by
  refine run_invariant Sighted (fun a l b sighted next => ?_) run (boot_sighted boot)
  have kept := step_keeps sighted.wellFormed next.1 next.2
  exact ⟨kept.wellFormed, fun t alive => kept.inSight t alive (sighted.inSight t)⟩

/-- While no preemption takes the processor from code that has a task out of the queues, every
    initialised task is in exactly one queue, or is being moved by the code that runs; so whenever
    the dispatcher has control, it is in exactly one queue. -/
theorem preempted_tasks_are_kept (boot : Booted s₀) (run : Run Preempts s₀ labels s) :
    (∀ t, s.phase t = .alive → (∃! q, t ∈ elems s.queues q) ∨ Moving s t) ∧
    (DispatcherHasControl s → ∀ t, s.phase t = .alive → ∃! q, t ∈ elems s.queues q) := by
  have sighted := run_sighted boot run
  have once : ∀ t, s.phase t = .alive → (∃! q, t ∈ elems s.queues q) ∨ Moving s t := by
    intro t alive
    rcases sighted.inSight t alive with ⟨q, mem⟩ | out
    · exact Or.inl ⟨q, mem, fun p other => sighted.wellFormed.unique other mem⟩
    · exact Or.inr out
  refine ⟨once, fun control t alive => ?_⟩
  rcases once t alive with queued | ⟨m, mem, _⟩ | ⟨e, some, _⟩
  · exact queued
  · rw [control.moves] at mem
    cases mem
  · rw [control.exit] at some
    cases some

end Runs

section Losses
variable [Fintype N]

/-- A preemption outside the condition leaves the dispatcher with an initialised task that is in no
    queue. -/
theorem hurt_preemption_loses {s s' : Machine N} (hurt : ¬ Spares s .tick)
    (run : step s .tick = some (.ok s')) :
    s'.holder = .dispatcherTask ∧ ∃ t, s'.phase t = .alive ∧ ¬ Queued s' t := by
  have ticked := Option.some.inj run
  obtain ⟨queues, phase, _⟩ := tick_cases ticked
  simp only [Spares, not_forall] at hurt
  obtain ⟨ends, _, t, alive, _, lost⟩ := hurt
  obtain ⟨k, _, rfl⟩ := map_ok ticked
  refine ⟨by rw [if_pos ends]; rfl, t, by rw [phase]; exact alive, ?_⟩
  rintro ⟨q, mem⟩
  exact lost ⟨q, by rw [← queues]; exact mem⟩

def bootMachine : Machine N :=
  { memory :=
      { kernel := bootKernel
        mqueue := fun _ => ⟨[], 0, 0, 0⟩
        disk := ⟨0, 0, [], 0, false⟩
        device := ⟨.unknown, 0, 0, 0, 0, 0, fun _ _ => 0, 1⟩
        ram := fun _ => 0 }
    running := ⟨[], none, []⟩
    saved := Function.update (fun _ => ⟨[], none, []⟩) .dispatcherTask
      ⟨[], none, [.loop .dispatcher]⟩
    holder := .mainTask
    phase := Function.update (fun _ => .unborn) .mainTask .alive }

omit [Fintype N] in
theorem boot_booted : Booted (bootMachine : Machine N) :=
  ⟨⟨fun _ => ⟨0, 0, 0⟩, pposInit_boot _⟩, rfl, rfl, rfl, rfl, rfl, rfl⟩

def next (s : Machine N) (l : Label N) : Option (Machine N) :=
  match step s l with
  | some (.ok s') => some s'
  | _ => none

theorem next_eq {s s' : Machine N} {l : Label N} (found : next s l = some s') :
    step s l = some (.ok s') := by
  unfold next at found
  split at found
  · rename_i known
    rw [known, Option.some.inj found]
  · cases found

def ClearsNothing (s : Machine N) : Prop :=
  match s.running with
  | ⟨[], none, .clearLinks _ :: _⟩ | ⟨[], none, .clearQueue _ :: _⟩ => False
  | _ => True

omit [DecidableEq N] [Fintype N] in
instance (s : Machine N) : Decidable (ClearsNothing s) := by
  unfold ClearsNothing
  split <;> infer_instance

theorem clears_nothing {s : Machine N} (plain : ClearsNothing s) (l : Label N) :
    Permitted s l := by
  unfold ClearsNothing at plain
  unfold Permitted
  split
  · split
    · rename_i here
      simp [here] at plain
    · rename_i here
      simp [here] at plain
    · trivial
  · trivial

theorem spares_outside {s : Machine N} (moves : s.running.moves = []) (exit : s.running.exit = none)
    (l : Label N) : Spares s l := by
  cases l with
  | tick =>
    intro _ _ t _ out
    have here : s.running = ⟨[], none, s.running.code⟩ := by rw [← moves, ← exit]
    exact absurd out (not_moving here t)
  | _ => trivial

/-- main enters task_sleep; the timer comes right before its queue_remove, or right after. -/
def asleepAfter (n : Nat) : List (Label (Fin 1)) :=
  Label.call (.taskSleep 5) :: List.replicate n (Label.run true) ++ List.replicate 10 Label.tick

/-- A task preempted between the queue_remove and the queue_append of its task_suspend is in no
    queue when the dispatcher has control. -/
theorem preempted_sleeper_is_lost : ¬ ∀ (s₀ s : Machine (Fin 1)) (labels : List (Label (Fin 1))),
    Booted s₀ → Run Operates s₀ labels s → DispatcherHasControl s →
    ∀ t, s.phase t = .alive → ∃! q, t ∈ elems s.queues q := by
  intro safe
  obtain ⟨s, ends, ⟨holder, moves, exit⟩, alive, free⟩ := exec_reaches
    (guarded (fun s _ _ => ClearsNothing s) next) bootMachine (asleepAfter 2)
    (fun s => (s.holder = .dispatcherTask ∧ s.running.moves.isEmpty = true ∧
      s.running.exit.isNone = true) ∧ s.phase .mainTask = .alive ∧
      s.queues.link .mainTask = Links.free) (by decide +kernel)
  have run : Run Operates bootMachine (asleepAfter 2) s :=
    run_mono (fun a l b step => ⟨next_eq step.1, clears_nothing step.2 l⟩) (guarded_run ends)
  obtain ⟨q, mem, _⟩ := safe _ s _ boot_booted run
    ⟨holder, List.isEmpty_iff.mp moves, Option.isNone_iff_eq_none.mp exit⟩ _ alive
  have linked := ((run_wellFormed boot_booted run).linked mem).1
  rw [free] at linked
  exact linked rfl

/-- Preempted right before its queue_remove, the same task stays in the ready queue. -/
theorem preempted_caller_is_kept : ∃ s : Machine (Fin 1),
    Run Preempts bootMachine (asleepAfter 1) s ∧ DispatcherHasControl s ∧
    s.phase .mainTask = .alive ∧ ∃! q, .mainTask ∈ elems s.queues q := by
  obtain ⟨s, ends, ⟨holder, moves, exit⟩, alive⟩ := exec_reaches
    (guarded (fun s _ _ => ClearsNothing s ∧ s.running.moves.isEmpty = true ∧
      s.running.exit.isNone = true) next) bootMachine (asleepAfter 1)
    (fun s => (s.holder = .dispatcherTask ∧ s.running.moves.isEmpty = true ∧
      s.running.exit.isNone = true) ∧ s.phase .mainTask = .alive) (by decide +kernel)
  have run : Run Preempts bootMachine (asleepAfter 1) s := by
    refine run_mono (fun a l b step => ?_) (guarded_run ends)
    obtain ⟨found, plain, moves, exit⟩ := step
    exact ⟨⟨next_eq found, clears_nothing plain l⟩,
      spares_outside (List.isEmpty_iff.mp moves) (Option.isNone_iff_eq_none.mp exit) l⟩
  have control : DispatcherHasControl s :=
    ⟨holder, List.isEmpty_iff.mp moves, Option.isNone_iff_eq_none.mp exit⟩
  exact ⟨s, run, control, alive,
    (preempted_tasks_are_kept boot_booted run).2 control .mainTask alive⟩

end Losses

end PreemptionSafety
