import PingPong.TaskEvents

/-! Sleeping tasks: what one call of wake_tasks does to the queues, and when a task that has
called task_sleep becomes ready again. -/
namespace SleepingTasks
open MachineModel CircularList QueueModel KernelModel KernelEffects TaskPlacement SystemModel
open SystemFrames TransitionRuns TaskConservation TaskEvents
variable {N : Type} [DecidableEq N] [Fintype N]

section Waking

def isDue (k : Kernel N) (t : Tcb N) : Bool := (k.task t).wakeUpTime ≤ systime k

/-- The kernel after wake_tasks; the lists are the queues before the call. -/
structure WokenUp (qs : TaskLists N) (k k' : Kernel N) : Prop where
  wellFormed : Represents k'.queues (tasks k')
  ready : tasks k' .readyTasks = qs .readyTasks ++ (qs .sleepingTasks).filter (isDue k)
  sleeping : tasks k' .sleepingTasks = (qs .sleepingTasks).filter fun t => !isDue k t
  others : ∀ q, q ≠ .readyTasks → q ≠ .sleepingTasks →
    tasks k' q = qs q ∧ k'.queues.head q = k.queues.head q
  links : ∀ t, t ∉ qs .readyTasks → t ∉ qs .sleepingTasks →
    k'.queues.link t = k.queues.link t
  woken : ∀ t ∈ qs .sleepingTasks, isDue k t = true →
    k'.task t = { k.task t with status := .ready }
  kept : ∀ t, ¬ (t ∈ qs .sleepingTasks ∧ isDue k t = true) → k'.task t = k.task t
  rest : k' = { k with queues := k'.queues, task := k'.task }

end Waking

theorem wake_tasks_partitions_sleepers {k : Kernel N} {qs : TaskLists N}
    (r : Represents k.queues qs) : ∃ k', wakeTasks k = .ok k' ∧ WokenUp qs k k' := by
  obtain ⟨m, run, r'⟩ := resumeWhere_spec r (q := .sleepingTasks) (by simp)
    (fun d => d.wakeUpTime ≤ systime k) id
  refine ⟨_, run, ?_⟩
  have lists := r'.elems_eq
  have others : ∀ q, q ≠ .readyTasks → q ≠ .sleepingTasks → elems m q = qs q := by
    intro q ready sleeping
    rw [lists, resumeLists_other _ _ _ sleeping ready]
  constructor
  · exact r'.read_back
  · change elems m _ = _
    rw [lists, resumeLists_target]
    rfl
  · change elems m _ = _
    rw [lists, resumeLists_source _ _ _ (by simp), List.append_nil]
    rfl
  · intro q ready sleeping
    have same := others q ready sleeping
    refine ⟨same, ?_⟩
    rw [r'.read_back.head q, r.head q]
    exact congrArg List.head? same
  · intro t ready sleeping
    refine r.same_links r' fun q mem => ?_
    by_cases atReady : q = .readyTasks
    · subst atReady
      rw [resumeLists_target, List.mem_append, List.mem_filter] at mem
      rcases mem with mem | mem | mem
      · exact absurd mem ready
      · exact absurd mem ready
      · exact absurd mem.1 sleeping
    · by_cases atSleep : q = .sleepingTasks
      · subst atSleep
        rw [resumeLists_source _ _ _ (by simp), List.append_nil, List.mem_filter] at mem
        rcases mem with mem | mem
        · exact absurd mem sleeping
        · exact absurd mem.1 sleeping
      · exact resumeLists_other _ _ _ atSleep atReady
  · intro t mem due
    exact if_pos ⟨mem, due⟩
  · intro t stays
    exact if_neg stays
  · rfl

section Sleepers

omit [DecidableEq N] [Fintype N] in
def asleep (sleepers : List N) : TaskLists N :=
  Function.update bootLists .sleepingTasks (sleepers.map .user)

omit [Fintype N] in
theorem asleep_represented {sleepers : List N} (nodup : sleepers.Nodup) :
    ∃ queues, Represents queues (asleep sleepers) := by
  induction sleepers using List.reverseRecOn with
  | nil =>
    have nobody : asleep ([] : List N) = bootLists := Function.update_eq_self _ _
    exact ⟨_, nobody ▸ boot_represents⟩
  | append_singleton earlier n ih =>
    rw [List.nodup_append] at nodup
    obtain ⟨queues, r⟩ := ih nodup.1
    have fresh : ∀ p, .user n ∉ asleep earlier p := by
      intro p mem
      cases p with
      | sleepingTasks =>
        simp only [asleep, Function.update_self, List.mem_map, Tcb.user.injEq] at mem
        obtain ⟨m, before, rfl⟩ := mem
        exact nodup.2.2 m before m (List.mem_singleton.mpr rfl) rfl
      | _ => simp [asleep, bootLists] at mem
    obtain ⟨queues', -, r'⟩ := r.append_free fresh .sleepingTasks
    have longer : listAppend (asleep earlier) .sleepingTasks (.user n) =
        asleep (earlier ++ [n]) := by simp [listAppend, asleep]
    exact ⟨queues', longer ▸ r'⟩

def nightKernel (queues : Queues TaskQueue (Tcb (Fin 3))) : Kernel (Fin 3) :=
  { bootKernel with
    queues := queues
    sysclock := 10
    task := fun t => match t with
      | .user 0 => { zeroedTask with wakeUpTime := 10 }
      | .user 1 => { zeroedTask with wakeUpTime := 11 }
      | .user 2 => { zeroedTask with wakeUpTime := 3 }
      | _ => zeroedTask }

end Sleepers

theorem first_and_last_are_woken : ∃ k k' : Kernel (Fin 3),
    Represents k.queues (asleep [0, 1, 2]) ∧ wakeTasks k = .ok k' ∧
    tasks k' .readyTasks = [.mainTask, .user 0, .user 2] ∧
    tasks k' .sleepingTasks = [.user 1] := by
  obtain ⟨queues, r⟩ := asleep_represented (by decide : ([0, 1, 2] : List (Fin 3)).Nodup)
  obtain ⟨k', woke, w⟩ := wake_tasks_partitions_sleepers (k := nightKernel queues) r
  exact ⟨nightKernel queues, k', r, woke, w.ready, w.sleeping⟩

section Clocks

/-- A system with the ticks since task_sleep was called, those since the last wake_tasks, and
    whether wake_tasks was called after enough ticks. -/
structure Clocked (N : Type) where
  system : System N
  ticks : Nat
  gap : Nat
  called : Bool

def pass (t : Int) (a : Clocked N) (l : Label N) : Option (Clocked N) :=
  match step a.system l with
  | some (.ok s') => match taskEvent a.system l with
    | .tick => some ⟨s', a.ticks + 1, a.gap + 1, a.called⟩
    | .wake => some ⟨s', a.ticks, 0, a.called || decide (t ≤ a.ticks)⟩
    | _ => some ⟨s', a.ticks, a.gap, a.called⟩
  | _ => none

/-- Fewer than 2 ^ 31 ticks pass between two calls of wake_tasks. -/
def Passes (t : Int) (a : Clocked N) (l : Label N) (b : Clocked N) : Prop :=
  pass t a l = some b ∧ Permitted a.system l ∧ b.gap < 2147483648

/-- The clock and the deadline are on the same side of 2 ^ 32 when wake_tasks compares them. -/
def SameEpoch (start : UInt32) (t : Int) (a : Clocked N) : Prop :=
  ((start.toNat : Int) + t) / 4294967296 = (start.toNat + a.ticks : Int) / 4294967296

def WakesInEpoch (start : UInt32) (t : Int) (a : Clocked N) (l : Label N) : Prop :=
  taskEvent a.system l = .wake → a.called = false → SameEpoch start t a

/-- What a call of wake_tasks must do with a task that called task_sleep(t). -/
def WakesOnTime (me : Tcb N) (t : Int) (a b : Clocked N) : Prop :=
  if t ≤ a.ticks then me ∈ tasks b.system.kernel .readyTasks
  else me ∈ tasks b.system.kernel .sleepingTasks

structure Sleeper (me : Tcb N) (start : UInt32) (t : Int) (a : Clocked N) : Prop where
  conserved : Conserved a.system
  marked : Marked a.system
  clock : (taskView a.system).clock = start + UInt32.ofNat a.ticks
  short : a.gap < 2147483648
  gap : a.called = false → a.gap = a.ticks ∨ (a.gap ≤ a.ticks ∧ a.ticks < t + a.gap)
  late : a.called = true → t ≤ a.ticks
  asleep : a.called = false → me ∈ (taskView a.system).sleeping
  alarm : a.called = false → (taskView a.system).wakeUpTime me = start + ticksOf t

theorem deadline_compares {c t n : Nat} (_ : c < 4294967296) (int : t < 2147483648)
    (recent : n < t + 2147483648) :
    ((c + t) % 4294967296 ≤ (c + n) % 4294967296 ↔ t ≤ n) ↔
      (c + t) / 4294967296 = (c + n) / 4294967296 := by
  omega

variable {a b : Clocked N} {me : Tcb N} {start : UInt32} {t : Int} {l : Label N}

theorem due_on_time (nonneg : 0 ≤ t) (int : t ≤ intMax) (sl : Sleeper me start t a)
    (waiting : a.called = false) :
    (isDue a.system.kernel me = true ↔ t ≤ a.ticks) ↔ SameEpoch start t a := by
  obtain ⟨d, rfl⟩ := Int.eq_ofNat_of_zero_le nonneg
  simp only [intMax] at int
  have alarm : (a.system.kernel.task me).wakeUpTime = start + ticksOf d := sl.alarm waiting
  have clock : systime a.system.kernel = start + UInt32.ofNat a.ticks := sl.clock
  have recent : a.ticks < d + 2147483648 := by
    have short := sl.short
    rcases sl.gap waiting with same | ⟨_, before⟩ <;> omega
  have mod : ((d : Int) % 4294967296).toNat = d := by omega
  have due : isDue a.system.kernel me = true ↔
      (start.toNat + d) % 4294967296 ≤ (start.toNat + a.ticks) % 4294967296 := by
    rw [isDue, decide_eq_true_iff, alarm, clock, UInt32.le_iff_toNat_le, UInt32.toNat_add,
      UInt32.toNat_add, ticksOf, mod, UInt32.toNat_ofNat_of_lt' (by simp [UInt32.size]; omega),
      UInt32.toNat_ofNat_of_lt' (by simp [UInt32.size]; omega)]
  rw [due, Int.ofNat_le, deadline_compares start.toNat_lt (by omega) recent, SameEpoch]
  omega

theorem wake_lists {s s' : System N} (c : Conserved s) (event : taskEvent s l = .wake)
    (go : step s l = some (.ok s')) : tasks s'.kernel = resumeLists (tasks s.kernel)
      .sleepingTasks (isDue s.kernel) (tasks s.kernel .sleepingTasks) [] := by
  cases l with
  | run m₁ m₂ =>
    simp only [taskEvent] at event
    split at event
    · cases event
    · rename_i point here
      simp only [step, advance, here] at go
      obtain ⟨k, woken, rfl⟩ := map_ok (Option.some.inj go)
      obtain ⟨m, known, lists⟩ := wake_exact c.placed
      cases known.symm.trans woken
      exact lists
    · cases event
  | call c' =>
    simp only [taskEvent] at event
    split at event
    all_goals first | cases event | split at event <;> cases event
  | tick => cases event
  | completion => cases event

theorem pass_step (passes : Passes t a l b) :
    Operates a.system l b.system ∧ b.gap < 2147483648 ∧
      match taskEvent a.system l with
      | .tick => b.ticks = a.ticks + 1 ∧ b.gap = a.gap + 1 ∧ b.called = a.called
      | .wake => b.ticks = a.ticks ∧ b.gap = 0 ∧ b.called = (a.called || decide (t ≤ a.ticks))
      | _ => b.ticks = a.ticks ∧ b.gap = a.gap ∧ b.called = a.called := by
  obtain ⟨passed, permitted, short⟩ := passes
  simp only [pass] at passed
  split at passed
  · rename_i s' go
    split at passed
    all_goals
      rename_i event
      cases Option.some.inj passed
      exact ⟨⟨go, permitted⟩, short, by simp⟩
  · cases passed

theorem sleeper_step (nonneg : 0 ≤ t) (int : t ≤ intMax) (sl : Sleeper me start t a)
    (passes : Passes t a l b) (epoch : WakesInEpoch start t a l) : Sleeper me start t b := by
  obtain ⟨go, short, count⟩ := pass_step passes
  have c := sl.conserved
  have conserved := (step_kept c go.2 go.1).conserved
  obtain ⟨marked, _, move⟩ := step_outcome c sl.marked go
  have clock := sl.clock
  have awake : ∀ waiting : a.called = false, a.system.curr ≠ me := by
    intro waiting same
    refine current_nowhere_else (q := .sleepingTasks) c.placed (by simp) ?_
    change a.system.curr ∈ _
    rw [same]
    exact sl.asleep waiting
  generalize event : taskEvent a.system l = e at move count
  generalize after : taskView b.system = v at move
  -- a step that is neither a tick nor a call of wake_tasks
  have settled : b.ticks = a.ticks ∧ b.gap = a.gap ∧ b.called = a.called →
      v.clock = (taskView a.system).clock → (a.called = false → me ∈ v.sleeping) →
      (a.called = false → v.wakeUpTime me = start + ticksOf t) → Sleeper me start t b := by
    rintro ⟨ticks, gap, called⟩ same asleep alarm
    refine ⟨conserved, marked, by rw [after, same, ticks]; exact clock, short, ?_, ?_, ?_, ?_⟩
    · rw [called, ticks, gap]; exact sl.gap
    · rw [called, ticks]; exact sl.late
    · rw [called, after]; exact asleep
    · rw [called, after]; exact alarm
  cases move with
  | other => exact settled count rfl sl.asleep sl.alarm
  | wait awaited here going => exact settled count rfl sl.asleep sl.alarm
  | finish awaited here => exact settled count rfl sl.asleep sl.alarm
  | exit code here => exact settled count rfl sl.asleep sl.alarm
  | sleep d =>
    refine settled count rfl (fun waiting => List.mem_append_left _ (sl.asleep waiting))
      fun waiting => ?_
    exact (Function.update_of_ne (awake waiting).symm _ _).trans (sl.alarm waiting)
  | init u id idle =>
    refine settled count rfl sl.asleep fun waiting => ?_
    have other : me ≠ u := by
      rintro rfl
      have alive := ((c.placed.queued me).mp ⟨_, sl.asleep waiting⟩).1
      revert idle alive
      change (waitPoint (a.system.ctl me) = _ ∨ waitPoint (a.system.ctl me) = _) →
        live (a.system.ctl me) = true → False
      cases a.system.ctl me <;> simp [waitPoint, live]
    exact (Function.update_of_ne other _ _).trans (sl.alarm waiting)
  | tick =>
    obtain ⟨ticks, gap, called⟩ := count
    refine ⟨conserved, marked, ?_, short, ?_, ?_, ?_, ?_⟩
    · rw [after, ticks, UInt32.ofNat_add, ← UInt32.add_assoc, ← clock]
      rfl
    · intro waiting
      rw [called] at waiting
      rw [ticks, gap]
      rcases sl.gap waiting with same | ⟨le, before⟩
      · exact Or.inl (by omega)
      · exact Or.inr (by omega)
    · rw [called, ticks]
      intro late
      have enough := sl.late late
      omega
    · rw [called, after]; exact sl.asleep
    · rw [called, after]; exact sl.alarm
  | wake =>
    obtain ⟨ticks, gap, called⟩ := count
    refine ⟨conserved, marked, by rw [after, ticks]; exact clock, short, ?_, ?_, ?_, ?_⟩
    · intro waiting
      rw [called, Bool.or_eq_false_iff, decide_eq_false_iff_not] at waiting
      rw [ticks, gap]
      exact Or.inr (by omega)
    · rw [called, ticks, Bool.or_eq_true, decide_eq_true_iff]
      rintro (late | late)
      · exact sl.late late
      · exact late
    · intro waiting
      rw [called, Bool.or_eq_false_iff, decide_eq_false_iff_not] at waiting
      have early := (due_on_time nonneg int sl waiting.1).mpr (epoch event waiting.1)
      have notDue : isDue a.system.kernel me = false :=
        Bool.eq_false_iff.mpr fun due => waiting.2 (early.mp due)
      rw [after, List.mem_filter]
      exact ⟨sl.asleep waiting.1, congrArg Bool.not notDue⟩
    · intro waiting
      rw [called, Bool.or_eq_false_iff] at waiting
      rw [after]
      exact sl.alarm waiting.1

/-- The next call of wake_tasks decides rightly exactly when it compares within one epoch. -/
theorem wakes_on_time (nonneg : 0 ≤ t) (int : t ≤ intMax) (sl : Sleeper me start t a)
    (waiting : a.called = false) (passes : Passes t a l b)
    (event : taskEvent a.system l = .wake) : WakesOnTime me t a b ↔ SameEpoch start t a := by
  rw [← due_on_time nonneg int sl waiting]
  have c := sl.conserved
  have lists := wake_lists c event (pass_step passes).1.1
  have asleep : me ∈ tasks a.system.kernel .sleepingTasks := sl.asleep waiting
  have elsewhere : me ∉ tasks a.system.kernel .readyTasks := fun ready => by
    cases c.placed.wellFormed.unique asleep ready
  have ready : me ∈ tasks b.system.kernel .readyTasks ↔ isDue a.system.kernel me = true := by
    rw [lists, resumeLists_target, List.mem_append, List.mem_filter]
    simp [asleep, elsewhere]
  have stays : me ∈ tasks b.system.kernel .sleepingTasks ↔
      ¬ isDue a.system.kernel me = true := by
    rw [lists, resumeLists_source _ _ _ (by simp), List.append_nil, List.mem_filter]
    simp [asleep]
  unfold WakesOnTime
  split
  · rename_i enough
    rw [ready]
    exact ⟨fun due => ⟨fun _ => enough, fun _ => due⟩, fun both => both.mpr enough⟩
  · rename_i early
    rw [stays]
    exact ⟨fun not => ⟨fun due => absurd due not, fun enough => absurd enough early⟩,
      fun both due => early (both.mp due)⟩

theorem sleeper_starts {s s' : System N} (c : Conserved s) (marked : Marked s)
    (go : Operates s (.call (.taskSleep t)) s') :
    Sleeper s.curr s.kernel.sysclock t ⟨s', 0, 0, false⟩ := by
  obtain ⟨marked', _, move⟩ := step_outcome c marked go
  generalize after : taskView s' = v at move
  cases move with
  | sleep =>
    refine ⟨(step_kept c go.2 go.1).conserved, marked', ?_, by simp, fun _ => Or.inl rfl, by simp,
      fun _ => ?_, fun _ => ?_⟩
    · rw [after]
      exact (UInt32.add_zero _).symm
    · rw [after]
      exact List.mem_append_right _ (List.mem_singleton_self _)
    · rw [after]
      exact Function.update_self _ _ _

end Clocks

theorem sleepers_wake_on_time {s s' : System N} {t : Int} {labels : List (Label N)}
    {b : Clocked N} (c : Conserved s) (marked : Marked s)
    (go : Operates s (.call (.taskSleep t)) s') (nonneg : 0 ≤ t) (int : t ≤ intMax)
    (run : Run (fun a l b => Passes t a l b ∧ WakesInEpoch s.kernel.sysclock t a l)
      ⟨s', 0, 0, false⟩ labels b) :
    (b.ticks < t → s.curr ∈ tasks b.system.kernel .sleepingTasks) ∧
    ∀ l b', Passes t b l b' → taskEvent b.system l = .wake → b.called = false →
      (WakesOnTime s.curr t b b' ↔ SameEpoch s.kernel.sysclock t b) := by
  have sl := run_invariant (Sleeper s.curr s.kernel.sysclock t)
    (fun _ _ _ sl both => sleeper_step nonneg int sl both.1 both.2) run
    (sleeper_starts c marked go)
  refine ⟨fun early => ?_, fun l b' passes event waiting => ?_⟩
  · cases waiting : b.called
    · exact sl.asleep waiting
    · have late := sl.late waiting
      omega
  · exact wakes_on_time nonneg int sl waiting passes event

section Wrapping

instance (start : UInt32) (t : Int) (a : Clocked N) (l : Label N) :
    Decidable (WakesInEpoch start t a l) := by
  unfold WakesInEpoch SameEpoch
  infer_instance

def bootAt (clock : UInt32) : System N :=
  { bootSystem with kernel := { bootKernel with sysclock := clock } }

theorem bootAt_sound (clock : UInt32) :
    Conserved (bootAt clock : System N) ∧ Marked (bootAt clock : System N) := by
  have c := boot_conserved (N := N) boot_booted
  have p := c.placed
  have marked := boot_marked (N := N) boot_booted
  exact ⟨⟨⟨p.wellFormed, p.queued, p.running, p.dispatcher⟩, c.dispatcherRole, c.driverRole,
    c.driverOnly, c.chosen, c.dispatcherId, c.handler, c.dormantDriver⟩, marked⟩

/-- main sleeps from the given moment on. -/
def asleepAt (clock : UInt32) (t : Int) : Clocked (Fin 1) :=
  match step (bootAt clock) (.call (.taskSleep t)) with
  | some (.ok s') => ⟨s', 0, 0, false⟩
  | _ => ⟨bootAt clock, 0, 0, false⟩

def twoLooks : List (Label (Fin 1)) :=
  [.run true true, .run true true, .run true true, .tick, .run true true, .run true true]

theorem asleepAt_starts (clock : UInt32) (t : Int) : ∃ s' : System (Fin 1),
    Operates (bootAt clock) (.call (.taskSleep t)) s' ∧ asleepAt clock t = ⟨s', 0, 0, false⟩ := by
  have c := (bootAt_sound (N := Fin 1) clock).1
  obtain ⟨m, slept, _⟩ := sleep_exact c.placed (by simp [bootAt, bootKernel, zeroedKernel]) t
  have go : step (bootAt clock) (.call (.taskSleep t)) =
      some ((taskSleep (bootAt clock).kernel t).map fun k =>
        ((bootAt clock : System (Fin 1)).withKernel k).goto .mainTask (.body 0)) := rfl
  rw [slept] at go
  simp only [Except.map] at go
  exact ⟨_, ⟨go, trivial⟩, by rw [asleepAt, go]⟩

end Wrapping

theorem one_tick_is_slept : ∃ b : Clocked (Fin 1),
    Run (fun a l b => Passes 1 a l b ∧ WakesInEpoch 5 1 a l) (asleepAt 5 1) (twoLooks.take 4) b ∧
    b.ticks = 1 ∧ b.called = false ∧ ∀ b', Passes 1 b (.run true true) b' →
      taskEvent b.system (.run true true) = .wake →
      (WakesOnTime .mainTask 1 b b' ↔ SameEpoch 5 1 b) := by
  obtain ⟨s', go, starts⟩ := asleepAt_starts 5 1
  have sound := bootAt_sound (N := Fin 1) 5
  obtain ⟨b, found, ticks, waiting⟩ := exec_reaches
    (guarded (fun a l b => (Permitted a.system l ∧ b.gap < 2147483648) ∧ WakesInEpoch 5 1 a l)
      (pass 1)) (asleepAt 5 1) (twoLooks.take 4) (fun b => b.ticks = 1 ∧ b.called = false)
    (by decide +kernel)
  have run : Run (fun a l b => Passes 1 a l b ∧ WakesInEpoch 5 1 a l) (asleepAt 5 1)
      (twoLooks.take 4) b :=
    run_mono (fun _ _ _ next => ⟨⟨next.1, next.2.1⟩, next.2.2⟩) (guarded_run found)
  have exact' := (sleepers_wake_on_time sound.1 sound.2 go (by decide) (by decide)
    (starts ▸ run)).2
  exact ⟨b, run, ticks, waiting, fun b' passes event => exact' _ b' passes event waiting⟩

/-- At the last value of the clock the deadline of one tick wraps to 0, and the task is woken
    before any tick; two ticks before the wrap it is not woken although its time has come. -/
theorem deadline_wraps :
    (¬ ∀ (s s' : System (Fin 1)) (t : Int) (labels : List (Label (Fin 1))) (b : Clocked (Fin 1)),
      Conserved s → Marked s → Operates s (.call (.taskSleep t)) s' → 0 ≤ t → t ≤ intMax →
      Run (Passes t) ⟨s', 0, 0, false⟩ labels b → b.ticks < t →
      s.curr ∈ tasks b.system.kernel .sleepingTasks) ∧
    (¬ ∀ (s s' : System (Fin 1)) (t : Int) (labels : List (Label (Fin 1))) (b : Clocked (Fin 1)),
      Conserved s → Marked s → Operates s (.call (.taskSleep t)) s' → 0 ≤ t → t ≤ intMax →
      Run (Passes t) ⟨s', 0, 0, false⟩ labels b → b.called = true →
      s.curr ∉ tasks b.system.kernel .sleepingTasks) := by
  constructor
  · intro claim
    obtain ⟨s', go, starts⟩ := asleepAt_starts 4294967295 1
    have sound := bootAt_sound (N := Fin 1) 4294967295
    obtain ⟨b, found, ticks, awake⟩ := exec_reaches
      (guarded (fun a l b => Permitted a.system l ∧ b.gap < 2147483648) (pass 1))
      (asleepAt 4294967295 1) (twoLooks.take 2)
      (fun b => b.ticks = 0 ∧ tasks b.system.kernel .sleepingTasks = []) (by decide +kernel)
    have asleep := claim _ s' 1 _ b sound.1 sound.2 go (by decide) (by decide)
      (starts ▸ guarded_run found) (by rw [ticks]; decide)
    rw [awake] at asleep
    cases asleep
  · intro claim
    obtain ⟨s', go, starts⟩ := asleepAt_starts 4294967294 1
    have sound := bootAt_sound (N := Fin 1) 4294967294
    obtain ⟨b, found, called, asleep⟩ := exec_reaches
      (guarded (fun a l b => Permitted a.system l ∧ b.gap < 2147483648) (pass 1))
      (asleepAt 4294967294 1) ([.tick, .tick] ++ twoLooks.take 2)
      (fun b => b.called = true ∧ tasks b.system.kernel .sleepingTasks = [.mainTask])
      (by decide +kernel)
    have awake := claim _ s' 1 _ b sound.1 sound.2 go (by decide) (by decide)
      (starts ▸ guarded_run found) called
    rw [asleep] at awake
    exact awake (List.mem_singleton_self _)

end SleepingTasks
