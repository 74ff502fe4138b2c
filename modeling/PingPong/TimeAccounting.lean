import PingPong.QuantumLimit
import PingPong.ReportedTime

/-!
Where the ticks of the timer go. In each turn of its loop the dispatcher reads the clock when it
gets the processor, before it gives it to a task and when the task has given it back; the ticks
between two readings are its own or those of the task.
-/
namespace TimeAccounting
open MachineModel KernelModel TaskPlacement SystemModel SystemFrames TransitionRuns
open TaskConservation ProcessorTime
open StepViews (advance_apart completion_apart)
open QuantumLimit (quanta_apart tick_quantum call_quanta dispatcher_quantum manager_quantum
  init_quantum)
open ReportedTime (Awaits readAt awaits_one awaits_same ofNat_succ setTask_charge dispatch_time
  back_time)
variable {N : Type} [DecidableEq N]

section Ledgers

/-- A run's accounts since the dispatcher got the processor for the first time: the ticks, those
    handled with each task as curr, and what has been added to each processor_time. -/
structure Ledger (N : Type) where
  system : System N
  entered : Bool
  elapsed : Nat
  slices : Tcb N → Nat
  added : Tcb N → Nat

/-- task_init sets processor_time; it adds nothing to it. -/
def initialises : Label N → Tcb N → Bool
  | .call (.taskInit u _), t => t = u
  | .call (.diskMgrInit _ _), t => t = .diskDriverTask
  | _, _ => false

def charge (s s' : System N) (l : Label N) (t : Tcb N) : Nat :=
  if initialises l t then 0
  else ((s'.kernel.task t).processorTime - (s.kernel.task t).processorTime).toNat

def isTick : Label N → Bool
  | .tick => true
  | _ => false

def book (a : Ledger N) (l : Label N) (s' : System N) : Ledger N where
  system := s'
  entered := a.entered || s'.curr = .dispatcherTask
  elapsed := if isTick l && a.entered then a.elapsed + 1 else a.elapsed
  slices :=
    if isTick l && a.entered then
      Function.update a.slices a.system.curr (a.slices a.system.curr + 1)
    else a.slices
  added t := a.added t + charge a.system s' l t

/-- The dispatcher has read the clock and has not charged itself yet. -/
def Reading (s : System N) : Prop :=
  match s.ctl .dispatcherTask with
  | .dispatcher point => (readAt point).isSome
  | _ => False

/-- The time since then. -/
def owed (s : System N) : UInt32 :=
  match s.ctl .dispatcherTask with
  | .dispatcher point => ((readAt point).map (s.kernel.sysclock - ·)).getD 0
  | _ => 0

/-- All switching goes through the dispatcher, and ticks occur while a task is curr, or in
    wake_tasks() and scheduler(). Each of these two is one step here: in the midst of it the
    handler changes nothing but the clock, which wake_tasks() reads in its first line only, and
    the descriptor of the dispatcher, so that tick is one before the step or after it. -/
def Regular (s : System N) : Label N → Prop
  | .call (.taskSwitch (some t)) => t = .dispatcherTask
  | .tick => s.curr = .dispatcherTask → Reading s
  | _ => True

variable [Fintype N]

def Runs (a : Ledger N) (l : Label N) (b : Ledger N) : Prop :=
  Operates a.system l b.system ∧ Regular a.system l ∧ b = book a l b.system

structure Started (a : Ledger N) : Prop where
  booted : Booted a.system
  entered : a.entered = false
  elapsed : a.elapsed = 0
  slices : ∀ t, a.slices t = 0
  added : ∀ t, a.added t = 0

/-- What has not been charged yet is what the clock shows since the dispatcher's last reading of
    it, and belongs to the dispatcher or to the task it waits for. -/
structure Accounted (a : Ledger N) : Prop where
  conserved : Conserved a.system
  split : a.elapsed = ∑ t, a.slices t
  rests : ∀ t, t ≠ .dispatcherTask → (∀ start, ¬ Awaits a.system t start) →
    a.added t = a.slices t
  runs : ∀ t start, Awaits a.system t start → t ≠ .dispatcherTask ∧ ∃ n : Nat, n ≤ 10 ∧
    a.slices t = a.added t + n ∧ a.system.kernel.sysclock = start + UInt32.ofNat n ∧
    (a.system.curr = t → n < 10 ∧ (a.system.kernel.task t).quantum = n)
  owes : UInt32.ofNat (a.slices .dispatcherTask) =
    UInt32.ofNat (a.added .dispatcherTask) + owed a.system
  reads : Reading a.system → a.system.curr = .dispatcherTask
  current : a.entered = true ∧
      (a.system.curr = .dispatcherTask ∨ ∃ start, Awaits a.system a.system.curr start) ∨
    a.entered = false ∧ a.system.curr ≠ .dispatcherTask ∧
      a.system.ctl .dispatcherTask = .dispatcher .top

end Ledgers

section Steps
variable {a b : Ledger N} {l : Label N}

omit [DecidableEq N] in
theorem reading_same {s s' : System N}
    (dispatcher : s'.ctl .dispatcherTask = s.ctl .dispatcherTask) : Reading s' ↔ Reading s := by
  unfold Reading
  rw [dispatcher]

omit [DecidableEq N] in
theorem reading_point {s : System N} {point : DispatcherPoint N}
    (here : s.ctl .dispatcherTask = .dispatcher point) :
    Reading s ↔ (readAt point).isSome = true := by
  unfold Reading
  rw [here]

omit [DecidableEq N] in
theorem owed_point {s : System N} {point : DispatcherPoint N}
    (here : s.ctl .dispatcherTask = .dispatcher point) :
    owed s = ((readAt point).map (s.kernel.sysclock - ·)).getD 0 := by
  unfold owed
  rw [here]

omit [DecidableEq N] in
theorem owed_same {s s' : System N} (clock : s'.kernel.sysclock = s.kernel.sysclock)
    (dispatcher : s'.ctl .dispatcherTask = s.ctl .dispatcherTask) : owed s' = owed s := by
  unfold owed
  rw [dispatcher, clock]

omit [DecidableEq N] in
theorem owed_zero {s : System N} (idle : ¬ Reading s) : owed s = 0 := by
  unfold Reading at idle
  unfold owed
  split at idle
  · rename_i point here
    rw [Option.not_isSome_iff_eq_none.mp idle]
    rfl
  · rfl

omit [DecidableEq N] in
theorem awaits_back {s : System N} {point : DispatcherPoint N}
    (here : s.ctl .dispatcherTask = .dispatcher point) {t : Tcb N} {start : UInt32} :
    Awaits s t start ↔ point = .back t start := by
  unfold Awaits
  rw [here, Ctl.dispatcher.injEq]

theorem sum_tick [Fintype N] (f : Tcb N → Nat) (t : Tcb N) :
    ∑ u, Function.update f t (f t + 1) u = (∑ u, f u) + 1 := by
  rw [Finset.sum_update_of_mem (Finset.mem_univ t), ← Finset.erase_eq,
    ← Finset.add_sum_erase Finset.univ f (Finset.mem_univ t)]
  omega

theorem charge_zero {s s' : System N} {t : Tcb N}
    (time : initialises l t = true ∨
      (s'.kernel.task t).processorTime = (s.kernel.task t).processorTime) :
    charge s s' l t = 0 := by
  unfold charge
  split
  · rfl
  · rename_i not
    rcases time with init | same
    · exact absurd init not
    · rw [same, UInt32.sub_self]
      rfl

variable [Fintype N]

theorem still_accounted (ac : Accounted a) (conserved : Conserved b.system)
    (booked : b = book a l b.system) (timer : isTick l = false)
    (clock : b.system.kernel.sysclock = a.system.kernel.sysclock)
    (times : ∀ t, initialises l t = true ∨ (b.system.kernel.task t).processorTime =
      (a.system.kernel.task t).processorTime)
    (quantum : a.system.curr ≠ .dispatcherTask →
      (b.system.kernel.task a.system.curr).quantum = (a.system.kernel.task a.system.curr).quantum)
    (curr : b.system.curr = a.system.curr ∨ b.system.curr = .dispatcherTask)
    (dispatcher : b.system.ctl .dispatcherTask = a.system.ctl .dispatcherTask) :
    Accounted b := by
  have awaits := awaits_same dispatcher
  have elapsed : b.elapsed = a.elapsed := by
    rw [booked]
    simp [book, timer]
  have slices : b.slices = a.slices := by
    rw [booked]
    simp [book, timer]
  have added : b.added = a.added := by
    funext t
    rw [booked]
    simp only [book, charge_zero (times t), Nat.add_zero]
  have entered : b.entered = (a.entered || b.system.curr = .dispatcherTask) := by
    rw [booked]
    rfl
  refine ⟨conserved, by rw [elapsed, slices]; exact ac.split, ?_, ?_, ?_, ?_, ?_⟩
  · intro t user rests
    rw [slices, added]
    exact ac.rests t user fun start => (awaits t start).not.mp (rests start)
  · intro t start running
    obtain ⟨user, n, most, sum, passed, own⟩ := ac.runs t start ((awaits t start).mp running)
    rw [slices, added, clock]
    refine ⟨user, n, most, sum, passed, fun here => ?_⟩
    have before : a.system.curr = t := by
      rcases curr with same | gone
      · exact same.symm.trans here
      · exact absurd (here.symm.trans gone) user
    obtain ⟨less, count⟩ := own before
    subst before
    exact ⟨less, (quantum user).trans count⟩
  · rw [slices, added, owed_same clock dispatcher]
    exact ac.owes
  · intro reading
    have idle := ac.reads ((reading_same dispatcher).mp reading)
    rcases curr with same | gone
    · exact same.trans idle
    · exact gone
  · rw [entered]
    rcases ac.current with ⟨yes, idle | ⟨start, turn⟩⟩ | ⟨no, user, top⟩
    · refine Or.inl ⟨by simp [yes], Or.inl ?_⟩
      rcases curr with same | gone
      · exact same.trans idle
      · exact gone
    · refine Or.inl ⟨by simp [yes], ?_⟩
      rcases curr with same | gone
      · rw [same]
        exact Or.inr ⟨start, (awaits _ start).mpr turn⟩
      · exact Or.inl gone
    · by_cases gone : b.system.curr = .dispatcherTask
      · exact Or.inl ⟨by simp [gone], Or.inl gone⟩
      · refine Or.inr ⟨by simp [no, gone], gone, dispatcher.trans top⟩

theorem untimed_accounted (ac : Accounted a) (conserved : Conserved b.system)
    (booked : b = book a l b.system) (timer : isTick l = false)
    (untimed : Untimed a.system b.system)
    (quantum : a.system.curr ≠ .dispatcherTask →
      (b.system.kernel.task a.system.curr).quantum =
        (a.system.kernel.task a.system.curr).quantum) : Accounted b := by
  have time := untimed.time
  simp only [timeView, Prod.mk.injEq] at time
  exact still_accounted ac conserved booked timer time.1 (fun t => Or.inr (congrFun time.2.1 t))
    quantum untimed.curr untimed.dispatcher

/-- A tick while a task is curr, in the slice that the dispatcher gave it. -/
theorem slice_accounted (ac : Accounted a) (conserved : Conserved b.system)
    (booked : b = book a .tick b.system) (entered : a.entered = true) {start : UInt32}
    (turn : Awaits a.system a.system.curr start)
    (run : interruptionHandler a.system.kernel = .ok b.system.kernel)
    (ctl : b.system.ctl = a.system.ctl) : Accounted b := by
  obtain ⟨user, n, most, sum, passed, own⟩ := ac.runs _ start turn
  obtain ⟨less, count⟩ := own rfl
  obtain ⟨clock, times, -, curr⟩ := tick_time run
  have quantum := (tick_quantum run).2
  have dispatcher : b.system.ctl .dispatcherTask = a.system.ctl .dispatcherTask := by rw [ctl]
  have awaits := awaits_same dispatcher
  have elapsed : b.elapsed = a.elapsed + 1 := by
    rw [booked]
    simp [book, isTick, entered]
  have slices : b.slices =
      Function.update a.slices a.system.curr (a.slices a.system.curr + 1) := by
    rw [booked]
    simp [book, isTick, entered]
  have added : b.added = a.added := by
    funext t
    rw [booked]
    simp only [book, charge_zero (Or.inr (times t)), Nat.add_zero]
  have others : ∀ t, t ≠ a.system.curr → b.slices t = a.slices t := by
    intro t ne
    rw [slices, Function.update_of_ne ne]
  have mine : b.slices a.system.curr = a.slices a.system.curr + 1 := by
    rw [slices, Function.update_self]
  have reads : Reading b.system → a.system.curr = .dispatcherTask := fun reading =>
    ac.reads ((reading_same dispatcher).mp reading)
  refine ⟨conserved, ?_, ?_, ?_, ?_, ?_, ?_⟩
  · rw [elapsed, ac.split, slices, sum_tick]
  · intro t ne rests
    have apart : t ≠ a.system.curr := by
      rintro rfl
      exact rests start ((awaits _ start).mpr turn)
    rw [added, others t apart]
    exact ac.rests t ne fun start => (awaits t start).not.mp (rests start)
  · intro t start' running
    obtain ⟨rfl, rfl⟩ := awaits_one ((awaits t start').mp running) turn
    rw [added, mine, clock, passed, sum]
    refine ⟨user, n + 1, by omega, by omega, ?_, fun here => ?_⟩
    · rw [ofNat_succ]
      exact UInt32.add_assoc ..
    · -- the handler has not yielded, so the quantum is not full
      have fits : toInt ((n : Int) + 1) = n + 1 := by
        apply toInt_eq_self
        · unfold intMin
          omega
        · unfold intMax
          omega
      have apart : b.system.curr ≠ .dispatcherTask := fun gone => user (here.symm.trans gone)
      change (a.system.kernel.task a.system.kernel.curr).quantum = n at count
      rw [count, fits] at quantum
      rcases quantum with ⟨-, gone, -⟩ | ⟨not, -, next⟩
      · exact absurd gone apart
      · unfold quantumLimit at not
        exact ⟨by omega, next.trans (by omega)⟩
  · rw [added, others _ user.symm, owed_zero fun reading => user (reads reading)]
    have before := ac.owes
    rw [owed_zero fun reading => user (ac.reads reading)] at before
    exact before
  · intro reading
    exact absurd (reads reading) user
  · refine Or.inl ⟨by rw [booked]; simp [book, entered], ?_⟩
    have curr' : b.system.curr = a.system.curr ∨ b.system.curr = .dispatcherTask := curr
    rcases curr' with same | gone
    · rw [same]
      exact Or.inr ⟨start, (awaits _ start).mpr turn⟩
    · exact Or.inl gone

/-- A tick in wake_tasks() or scheduler(): the dispatcher stays curr, whatever its quantum. -/
theorem idle_accounted (ac : Accounted a) (conserved : Conserved b.system)
    (booked : b = book a .tick b.system) (idle : a.system.curr = .dispatcherTask)
    (reading : Reading a.system)
    (run : interruptionHandler a.system.kernel = .ok b.system.kernel)
    (ctl : b.system.ctl = a.system.ctl) : Accounted b := by
  obtain ⟨clock, times, -, curr⟩ := tick_time run
  have dispatcher : b.system.ctl .dispatcherTask = a.system.ctl .dispatcherTask := by rw [ctl]
  obtain ⟨point, here⟩ := dispatcher_point ac.conserved
  obtain ⟨start, read⟩ := Option.isSome_iff_exists.mp ((reading_point here).mp reading)
  have nobody : ∀ t start', ¬ Awaits a.system t start' := by
    intro t start' turn
    rw [(awaits_back here).mp turn] at read
    cases read
  have entered : a.entered = true := by
    rcases ac.current with ⟨yes, -⟩ | ⟨-, user, -⟩
    · exact yes
    · exact absurd idle user
  have gone : b.system.curr = .dispatcherTask := by
    rcases curr with same | gone
    · exact same.trans idle
    · exact gone
  have elapsed : b.elapsed = a.elapsed + 1 := by
    rw [booked]
    simp [book, isTick, entered]
  have slices : b.slices =
      Function.update a.slices a.system.curr (a.slices a.system.curr + 1) := by
    rw [booked]
    simp [book, isTick, entered]
  have added : b.added = a.added := by
    funext t
    rw [booked]
    simp only [book, charge_zero (Or.inr (times t)), Nat.add_zero]
  refine ⟨conserved, ?_, ?_, ?_, ?_, ?_, ?_⟩
  · rw [elapsed, ac.split, slices, sum_tick]
  · intro t ne rests
    rw [added, slices, idle, Function.update_of_ne ne]
    exact ac.rests t ne fun start' => nobody t start'
  · intro t start' running
    exact absurd ((awaits_same dispatcher t start').mp running) (nobody t start')
  · have before := ac.owes
    rw [owed_point here, read, Option.map_some, Option.getD_some] at before
    rw [added, slices, idle, Function.update_self, ofNat_succ, before,
      owed_point (dispatcher.trans here), read, Option.map_some, Option.getD_some, clock]
    grind
  · intro _
    exact gone
  · exact Or.inl ⟨by rw [booked]; simp [book, entered], Or.inl gone⟩

/-- A tick before the dispatcher has had the processor is nobody's. -/
theorem early_accounted (ac : Accounted a) (conserved : Conserved b.system)
    (booked : b = book a .tick b.system) (early : a.entered = false)
    (top : a.system.ctl .dispatcherTask = .dispatcher .top)
    (run : interruptionHandler a.system.kernel = .ok b.system.kernel)
    (ctl : b.system.ctl = a.system.ctl) : Accounted b := by
  obtain ⟨clock, times, -, -⟩ := tick_time run
  have dispatcher : b.system.ctl .dispatcherTask = a.system.ctl .dispatcherTask := by rw [ctl]
  have nobody : ∀ t start, ¬ Awaits b.system t start := by
    intro t start turn
    cases (awaits_back (dispatcher.trans top)).mp turn
  have outside : ∀ {s : System N}, s.ctl .dispatcherTask = .dispatcher .top → ¬ Reading s := by
    intro s here reading
    cases (reading_point here).mp reading
  have elapsed : b.elapsed = a.elapsed := by
    rw [booked]
    simp [book, early]
  have slices : b.slices = a.slices := by
    rw [booked]
    simp [book, early]
  have added : b.added = a.added := by
    funext t
    rw [booked]
    simp only [book, charge_zero (Or.inr (times t)), Nat.add_zero]
  refine ⟨conserved, by rw [elapsed, slices]; exact ac.split, ?_, ?_, ?_, ?_, ?_⟩
  · intro t user _
    rw [slices, added]
    exact ac.rests t user fun start turn =>
      nobody t start ((awaits_same dispatcher t start).mpr turn)
  · intro t start running
    exact absurd running (nobody t start)
  · have before := ac.owes
    rw [owed_zero (outside top)] at before
    rw [slices, added, owed_zero (outside (dispatcher.trans top))]
    exact before
  · intro reading
    exact absurd reading (outside (dispatcher.trans top))
  · by_cases gone : b.system.curr = .dispatcherTask
    · exact Or.inl ⟨by rw [booked]; simp [book, gone], Or.inl gone⟩
    · refine Or.inr ⟨?_, gone, dispatcher.trans top⟩
      rw [booked]
      simp [book, early, gone]

theorem book_run {m₁ m₂ : Bool} (ac : Accounted a) (booked : b = book a (.run m₁ m₂) b.system)
    (idle : a.system.curr = .dispatcherTask) :
    b.elapsed = a.elapsed ∧ b.slices = a.slices ∧ b.entered = true ∧
      ∀ t, b.added t = a.added t + ((b.system.kernel.task t).processorTime -
        (a.system.kernel.task t).processorTime).toNat := by
  have entered : a.entered = true := by
    rcases ac.current with ⟨yes, -⟩ | ⟨-, user, -⟩
    · exact yes
    · exact absurd idle user
  refine ⟨?_, ?_, ?_, fun t => ?_⟩
  · rw [booked]
    simp [book, isTick]
  · rw [booked]
    simp [book, isTick]
  · rw [booked]
    simp [book, entered]
  · rw [booked]
    simp [book, charge, initialises]

theorem added_ofNat {n : Nat} {before after more : UInt32} (charged : after = before + more) :
    UInt32.ofNat (n + (after - before).toNat) = UInt32.ofNat n + more := by
  have amount : after - before = more := by
    rw [charged]
    grind
  rw [amount, UInt32.ofNat_add, UInt32.ofNat_toNat]

theorem loop_accounted {m₁ m₂ : Bool} (ac : Accounted a) (conserved : Conserved b.system)
    (booked : b = book a (.run m₁ m₂) b.system) (idle : a.system.curr = .dispatcherTask)
    {old new : DispatcherPoint N} (here : a.system.ctl .dispatcherTask = .dispatcher old)
    (there : b.system.ctl .dispatcherTask = .dispatcher new)
    (apart : ∀ t start, old ≠ .back t start) (apart' : ∀ t start, new ≠ .back t start)
    (curr : b.system.curr = .dispatcherTask) (more : UInt32)
    (times : ∀ t, (b.system.kernel.task t).processorTime =
      if t = .dispatcherTask then (a.system.kernel.task t).processorTime + more
      else (a.system.kernel.task t).processorTime)
    (balance : owed a.system = more + owed b.system) : Accounted b := by
  obtain ⟨elapsed, slices, entered, added⟩ := book_run ac booked idle
  have nobody : ∀ t start, ¬ Awaits a.system t start := fun t start turn =>
    apart t start ((awaits_back here).mp turn)
  refine ⟨conserved, by rw [elapsed, slices]; exact ac.split, ?_, ?_, ?_, fun _ => curr,
    Or.inl ⟨entered, Or.inl curr⟩⟩
  · intro t user _
    rw [slices, added, times, if_neg user, UInt32.sub_self]
    exact ac.rests t user fun start => nobody t start
  · intro t start running
    exact absurd ((awaits_back there).mp running) (apart' t start)
  · rw [slices, ac.owes, balance, added, added_ofNat (times .dispatcherTask)]
    exact (UInt32.add_assoc ..).symm

theorem dispatch_accounted {m₁ m₂ : Bool} (ac : Accounted a) (conserved : Conserved b.system)
    (booked : b = book a (.run m₁ m₂) b.system) (idle : a.system.curr = .dispatcherTask)
    {start : UInt32} {next : Tcb N}
    (here : a.system.ctl .dispatcherTask = .dispatcher (.dispatch start next))
    (quantum : (b.system.kernel.task next).quantum = 0)
    (run : dispatcherStep a.system (.dispatch start next) = .ok b.system) : Accounted b := by
  obtain ⟨elapsed, slices, entered, added⟩ := book_run ac booked idle
  obtain ⟨clock, curr, there, times⟩ := dispatch_time run
  have nobody : ∀ t start', ¬ Awaits a.system t start' := by
    intro t start' turn
    cases (awaits_back here).mp turn
  have user : next ≠ .dispatcherTask := by
    rintro rfl
    have ready := (ac.conserved.chosen start .dispatcherTask here).2
    exact (ac.conserved.placed.queued _).mp ⟨_, ready⟩ |>.2 rfl
  have free : ∀ t, t ≠ .dispatcherTask → b.added t = b.slices t := by
    intro t other
    rw [slices, added, times, if_neg other, UInt32.sub_self]
    exact ac.rests t other fun start' => nobody t start'
  have silent : ¬ Reading b.system := by
    intro reading
    cases (reading_point there).mp reading
  refine ⟨conserved, by rw [elapsed, slices]; exact ac.split, ?_, ?_, ?_, ?_,
    Or.inl ⟨entered, Or.inr ⟨_, curr ▸ there⟩⟩⟩
  · intro t other _
    exact free t other
  · intro t start' running
    obtain ⟨rfl, rfl⟩ := awaits_one there running
    refine ⟨user, 0, by omega, (free _ user).symm, ?_, fun _ => ⟨by omega, quantum⟩⟩
    rw [clock]
    exact (UInt32.add_zero _).symm
  · rw [slices, ac.owes, owed_point here, owed_zero silent, UInt32.add_zero, added,
      added_ofNat ((times .dispatcherTask).trans (if_pos rfl))]
    rfl
  · intro reading
    exact absurd reading silent

theorem back_accounted {m₁ m₂ : Bool} (ac : Accounted a) (conserved : Conserved b.system)
    (booked : b = book a (.run m₁ m₂) b.system) (idle : a.system.curr = .dispatcherTask)
    {start : UInt32} {next : Tcb N} (here : Awaits a.system next start)
    (run : dispatcherStep a.system (.back next start) = .ok b.system) : Accounted b := by
  obtain ⟨elapsed, slices, entered, added⟩ := book_run ac booked idle
  obtain ⟨-, curr, there, times⟩ := back_time run
  obtain ⟨user, n, most, sum, passed, -⟩ := ac.runs next start here
  have silent : ∀ {s : System N} {point : DispatcherPoint N},
      s.ctl .dispatcherTask = .dispatcher point → readAt point = none → ¬ Reading s := by
    intro s point at' none reading
    rw [reading_point at', none] at reading
    cases reading
  refine ⟨conserved, by rw [elapsed, slices]; exact ac.split, ?_, ?_, ?_,
    fun reading => absurd reading (silent there rfl), Or.inl ⟨entered, Or.inl (curr.trans idle)⟩⟩
  · intro t other _
    rw [slices, added, times]
    split
    · rename_i own
      -- fewer ticks than the clock can show
      have slice : (a.system.kernel.task t).processorTime +
          (a.system.kernel.sysclock - start) - (a.system.kernel.task t).processorTime =
          UInt32.ofNat n := by
        rw [passed]
        grind
      rw [slice, UInt32.toNat_ofNat', Nat.mod_eq_of_lt (by omega), own, sum]
    · rename_i another
      rw [UInt32.sub_self]
      exact ac.rests t other fun start' turn => another (awaits_one turn here).1
  · intro t start' running
    cases (awaits_back there).mp running
  · have before := ac.owes
    rw [owed_zero (silent here rfl), UInt32.add_zero] at before
    rw [slices, before, owed_zero (silent there rfl), UInt32.add_zero, added, times,
      if_neg user.symm, UInt32.sub_self]
    rfl

theorem quiet_accounted {m₁ m₂ : Bool} (ac : Accounted a) (conserved : Conserved b.system)
    (booked : b = book a (.run m₁ m₂) b.system) (idle : a.system.curr = .dispatcherTask)
    {k : Kernel N} {old new : DispatcherPoint N}
    (here : a.system.ctl .dispatcherTask = .dispatcher old)
    (after : (a.system.withKernel k).goto .dispatcherTask (.dispatcher new) = b.system)
    (apart : ∀ t start, old ≠ .back t start) (apart' : ∀ t start, new ≠ .back t start)
    (curr : k.curr = a.system.curr) (time : timeView k = timeView a.system.kernel)
    (balance : ((readAt old).map (k.sysclock - ·)).getD 0 =
      ((readAt new).map (k.sysclock - ·)).getD 0) : Accounted b := by
  simp only [timeView, Prod.mk.injEq] at time
  have kernel : b.system.kernel = k := by
    rw [← after]
    rfl
  have there : b.system.ctl .dispatcherTask = .dispatcher new := by
    rw [← after]
    exact Function.update_self Tcb.dispatcherTask (Ctl.dispatcher new) a.system.ctl
  refine loop_accounted ac conserved booked idle here there apart apart' ?_ 0 ?_ ?_
  · rw [System.curr, kernel]
    exact curr.trans idle
  · intro t
    rw [kernel, UInt32.add_zero, ite_self]
    exact congrFun time.2.1 t
  · rw [owed_point here, owed_point there, kernel, ← balance, time.1]
    exact (UInt32.zero_add _).symm

theorem dispatcher_accounted {m₁ m₂ : Bool} (ac : Accounted a) (conserved : Conserved b.system)
    (booked : b = book a (.run m₁ m₂) b.system) (idle : a.system.curr = .dispatcherTask)
    {point : DispatcherPoint N} (here : a.system.ctl .dispatcherTask = .dispatcher point)
    (quantum : ∀ start next, point = .dispatch start next →
      (b.system.kernel.task next).quantum = 0)
    (run : dispatcherStep a.system point = .ok b.system) : Accounted b := by
  cases point with
  | top =>
    simp only [dispatcherStep] at run
    split at run
    · refine quiet_accounted (k := a.system.kernel) ac conserved booked idle here
        (Except.ok.inj run) (by simp) (by simp) rfl rfl ?_
      exact (UInt32.sub_self _).symm
    · obtain ⟨k, ended, -⟩ := map_ok run
      rw [taskExit_dispatcher ac.conserved.placed idle ac.conserved.dispatcherId] at ended
      cases ended
  | wake start =>
    obtain ⟨k, woken, same⟩ := map_ok run
    obtain ⟨time, curr⟩ := wake_time woken
    exact quiet_accounted ac conserved booked idle here same (by simp) (by simp) curr time rfl
  | schedule start =>
    obtain ⟨⟨next, k⟩, picked, same⟩ := map_ok run
    obtain ⟨time, curr⟩ := scheduler_time picked
    cases next with
    | some next =>
      exact quiet_accounted ac conserved booked idle here same (by simp) (by simp) curr time rfl
    | none =>
      simp only [timeView, Prod.mk.injEq] at time
      have there : b.system.ctl .dispatcherTask = .dispatcher .top := by
        rw [← same]
        exact Function.update_self Tcb.dispatcherTask (Ctl.dispatcher .top) a.system.ctl
      refine loop_accounted ac conserved booked idle here there (by simp) (by simp) ?_
        (a.system.kernel.sysclock - start) ?_ ?_
      · rw [← same]
        exact curr.trans idle
      · intro t
        rw [← same]
        refine (setTask_charge k _ t _).trans ?_
        rw [congrFun time.2.1 t, systime, time.1]
      · rw [owed_point here, owed_point there]
        exact (UInt32.add_zero _).symm
  | dispatch start next =>
    exact dispatch_accounted ac conserved booked idle here (quantum start next rfl) run
  | back next start => exact back_accounted ac conserved booked idle here run

theorem init_accounted (ac : Accounted a) (conserved : Conserved b.system)
    (booked : b = book a l b.system) (timer : isTick l = false) {t : Tcb N}
    (init : initialises l t = true) (dead : live (a.system.ctl t) = false)
    (begins : Begins a.system b.system t)
    (quanta : ∀ u, u ≠ t → (b.system.kernel.task u).quantum =
      (a.system.kernel.task u).quantum) : Accounted b := by
  refine still_accounted ac conserved booked timer begins.clock ?_ (fun _ => quanta _ ?_)
    (Or.inl begins.curr) begins.dispatcher
  · intro u
    by_cases same : u = t
    · exact Or.inl (same ▸ init)
    · exact Or.inr (begins.others u same)
  · rintro rfl
    have alive : live (a.system.ctl a.system.curr) = true := current_live ac.conserved.placed
    rw [alive] at dead
    cases dead

theorem call_accounted (ac : Accounted a) (conserved : Conserved b.system) {c : Call N} {r : Int}
    (body : a.system.ctl a.system.curr = .body r) (run : call a.system c = .ok b.system)
    (permitted : Permitted a.system (.call c)) (regular : Regular a.system (.call c))
    (booked : b = book a (.call c) b.system) : Accounted b := by
  have user := body_user ac.conserved body
  have placed := ac.conserved.placed
  by_cases starts : ∃ t stack, c = .taskInit t stack
  · obtain ⟨t, stack, rfl⟩ := starts
    have begins := init_begins user placed.dispatcher permitted.1 run
    obtain ⟨⟨k, id⟩, started, same⟩ := map_ok run
    obtain ⟨-, quanta, -⟩ := init_quantum started
    refine init_accounted ac conserved booked rfl (decide_eq_true rfl) permitted.1 begins ?_
    rw [← same]
    exact quanta
  · by_cases manages : ∃ host stack, c = .diskMgrInit host stack
    · obtain ⟨host, stack, rfl⟩ := manages
      have driver := body_not_driver ac.conserved body
      obtain ⟨quanta, -⟩ := manager_quantum run
      rcases manager_time placed user driver permitted run with
        ⟨untimed, -⟩ | ⟨unknown, -, begins⟩
      · exact untimed_accounted ac conserved booked rfl untimed fun _ => quanta _ driver
      · exact init_accounted ac conserved booked rfl (decide_eq_true rfl) (permitted unknown).1
          begins quanta
    · have init : ∀ t stack, c ≠ .taskInit t stack := fun t stack same =>
        starts ⟨t, stack, same⟩
      have manager : ∀ host stack, c ≠ .diskMgrInit host stack := fun host stack same =>
        manages ⟨host, stack, same⟩
      have quanta := congrFun (call_quanta init manager run)
      by_cases exits : ∃ code, c = .taskExit code
      · obtain ⟨code, rfl⟩ := exits
        obtain ⟨clock, times, curr, dispatcher⟩ := exit_leaves user run
        exact still_accounted ac conserved booked rfl clock (fun t => Or.inr (times t))
          (fun _ => quanta _) (Or.inr curr) dispatcher
      · refine untimed_accounted ac conserved booked rfl ?_ fun _ => quanta _
        refine call_untimed placed user permitted init manager
          (fun code same => exits ⟨code, same⟩) ?_ run
        rintro t rfl
        exact regular

theorem accounted_step (ac : Accounted a) (go : Runs a l b) : Accounted b := by
  obtain ⟨⟨next, permitted⟩, regular, booked⟩ := go
  have conserved := (step_kept ac.conserved permitted next).conserved
  cases l with
  | tick =>
    obtain ⟨k, handled, same⟩ := map_ok (Option.some.inj next)
    have run : interruptionHandler a.system.kernel = .ok b.system.kernel := by
      rw [← same]
      exact handled
    have ctl : b.system.ctl = a.system.ctl := by
      rw [← same]
      rfl
    rcases ac.current with ⟨yes, idle | ⟨start, turn⟩⟩ | ⟨early, -, top⟩
    · exact idle_accounted ac conserved booked idle (regular idle) run ctl
    · exact slice_accounted ac conserved booked yes turn run ctl
    · exact early_accounted ac conserved booked early top run ctl
  | completion =>
    have quanta := congrFun (completion_apart quanta_apart next)
    exact untimed_accounted ac conserved booked rfl (completion_untimed next) fun _ => quanta _
  | call c =>
    obtain ⟨r, body, next⟩ := call_runs next
    exact call_accounted ac conserved body next permitted regular booked
  | run malloc₁ malloc₂ =>
    by_cases user : a.system.curr = .dispatcherTask
    · obtain ⟨point, here⟩ := dispatcher_point ac.conserved
      simp only [step, advance, user, here] at next
      refine dispatcher_accounted ac conserved booked user here ?_ (Option.some.inj next)
      rintro start next' rfl
      exact (dispatcher_quantum (Option.some.inj next)).1
    · have notDispatcher := user_point ac.conserved user
      have alive : live (a.system.ctl a.system.curr) = true := current_live ac.conserved.placed
      have quanta := congrFun (advance_apart quanta_apart notDispatcher next)
      exact untimed_accounted ac conserved booked rfl
        (advance_untimed alive user notDispatcher next) fun _ => quanta _

theorem started_accounted (started : Started a) : Accounted a := by
  have boot := started.booted
  have curr : a.system.curr = .mainTask := (boot_lists boot).2.1
  have nobody : ∀ t start, ¬ Awaits a.system t start := by
    intro t start turn
    cases (awaits_back boot.dispatcher).mp turn
  have silent : ¬ Reading a.system := by
    intro reading
    cases (reading_point boot.dispatcher).mp reading
  refine ⟨boot_conserved boot, ?_, ?_, ?_, ?_, fun reading => absurd reading silent, ?_⟩
  · rw [started.elapsed]
    exact (Finset.sum_eq_zero fun t _ => started.slices t).symm
  · intro t _ _
    rw [started.added, started.slices]
  · intro t start turn
    exact absurd turn (nobody t start)
  · rw [started.added, started.slices, owed_zero silent]
    rfl
  · refine Or.inr ⟨started.entered, ?_, boot.dispatcher⟩
    rw [curr]
    simp

end Steps

section Conservation
variable [Fintype N]

/-- At the top of the dispatcher's loop every tick since it first got the processor is in exactly
    one task's slices, or the dispatcher's own, and has been charged there and nowhere else. -/
theorem processor_time_is_conserved {a b : Ledger N} {labels : List (Label N)}
    (started : Started a) (run : Run Runs a labels b)
    (top : b.system.ctl .dispatcherTask = .dispatcher .top) :
    (∑ t, b.added t) % 2 ^ 32 = b.elapsed % 2 ^ 32 ∧
    (∀ t, t ≠ .dispatcherTask → b.added t = b.slices t) ∧
    b.added .dispatcherTask % 2 ^ 32 = b.slices .dispatcherTask % 2 ^ 32 ∧
    b.elapsed = ∑ t, b.slices t := by
  have ac : Accounted b := run_invariant Accounted (fun _ _ _ => accounted_step) run
    (started_accounted started)
  have tasks : ∀ t, t ≠ .dispatcherTask → b.added t = b.slices t := by
    intro t user
    refine ac.rests t user fun start turn => ?_
    cases (awaits_back top).mp turn
  have own : b.added .dispatcherTask % 2 ^ 32 = b.slices .dispatcherTask % 2 ^ 32 := by
    have sum := ac.owes
    rw [owed_point top] at sum
    have same := congrArg UInt32.toNat (sum.trans (UInt32.add_zero _))
    rw [UInt32.toNat_ofNat', UInt32.toNat_ofNat'] at same
    exact same.symm
  refine ⟨?_, tasks, own, ac.split⟩
  rw [ac.split, Finset.sum_nat_mod, Finset.sum_nat_mod (f := b.slices)]
  refine congrArg (· % 2 ^ 32) (Finset.sum_congr rfl fun t _ => ?_)
  by_cases user : t = .dispatcherTask
  · rw [user]
    exact own
  · rw [tasks t user]

instance (s : System N) : Decidable (Reading s) := by
  unfold Reading
  generalize s.ctl .dispatcherTask = c
  rcases c with _ | _ <;> infer_instance

instance (s : System N) (l : Label N) : Decidable (Regular s l) := by
  unfold Regular
  rcases l with _ | _ | c | _ <;> try infer_instance
  rcases c with _ | _ <;> try infer_instance
  case taskSwitch o => rcases o with _ | _ <;> infer_instance

def bookedStep (a : Ledger N) (l : Label N) : Option (Ledger N) :=
  (guardedStep (fun s l _ => Permitted s l ∧ Regular s l) a.system l).map (book a l)

theorem bookedStep_runs {a b : Ledger N} {l : Label N} (next : bookedStep a l = some b) :
    Runs a l b := by
  obtain ⟨s', stepped, same⟩ := Option.map_eq_some_iff.mp next
  obtain ⟨go, permitted, regular⟩ := guardedStep_eq stepped
  subst same
  exact ⟨⟨go, permitted⟩, regular, rfl⟩

def opened : Ledger (Fin 1) := ⟨bootSystem, false, 0, fun _ => 0, fun _ => 0⟩

/-- main has a tick before the dispatcher gets the processor, the dispatcher has three in its
    loop, and the task ends after two. -/
def sixTicks : List (Label (Fin 1)) :=
  [Label.call (.taskInit (.user 0) true), .tick, .call .taskYield, .run true true, .tick,
    .run true true, .tick, .tick, .run true true, .run true true, .call .taskYield,
    .run true true, .run true true, .run true true, .run true true, .run true true, .tick, .tick,
    .call (.taskExit 0), .run true true]

theorem five_ticks_are_charged :
    ∃ b, Run Runs opened sixTicks b ∧ b.elapsed = 5 ∧ b.slices .dispatcherTask = 3 ∧
      b.added (.user 0) = 2 ∧ (∑ t, b.added t) % 2 ^ 32 = 5 := by
  obtain ⟨b, found, top, elapsed, idle, slice⟩ := exec_reaches bookedStep opened sixTicks
    (fun b => b.system.ctl .dispatcherTask = .dispatcher .top ∧ b.elapsed = 5 ∧
      b.slices .dispatcherTask = 3 ∧ b.slices (.user 0) = 2) (by decide +kernel)
  have run : Run Runs opened sixTicks b :=
    run_mono (fun _ _ _ next => bookedStep_runs next) (exec_run found)
  have started : Started opened := ⟨boot_booted, rfl, rfl, fun _ => rfl, fun _ => rfl⟩
  obtain ⟨sum, tasks, -⟩ := processor_time_is_conserved started run top
  refine ⟨b, run, elapsed, idle, (tasks (.user 0) (by decide)).trans slice, ?_⟩
  rw [elapsed] at sum
  omega

end Conservation
end TimeAccounting
