import PingPong.BarrierRounds

/-! What the barrier of coordination/barrier.c gives its threads in every run, whatever their number
and also where one of them takes the token of another: the returns and the arrivals balance round
by round, and the threads are all blocked only where the barrier lacks threads. -/
namespace BarrierProgress
open TransitionRuns FiniteTally BarrierRounds
variable {T : Type} [Fintype T]

omit [Fintype T] in
def startAt (n : Nat) : State T := ⟨barrierInit n, fun _ => ⟨.outside, 0, 0⟩⟩

/-- The calls in which a thread has incremented the counter. -/
def arrived (x : Thread) : Nat :=
  match x.point with
  | .lock | .increment => x.entered - 1
  | _ => x.entered

/-- The returns that a thread opening the barrier still has to bring about, its own included. -/
def pending (n : Nat) (x : Thread) : Int :=
  match x.point with
  | .post i => n - i
  | .unlockLast => 1
  | _ => 0

def arrivals (s : State T) : Nat := ∑ t, arrived (s.thread t)

def returns (s : State T) : Nat := ∑ t, (s.thread t).returned

/-- Nobody opens the barrier, or is about to see whether to. -/
def Settled (s : State T) : Prop :=
  ∀ t, match (s.thread t).point with
    | .compare | .reset | .post _ | .unlockLast => False
    | _ => True

section Balance

def Inside (n : Nat) (x : Thread) : Prop :=
  match x.point with
  | .outside => x.entered = x.returned
  | .post i => x.entered = x.returned + 1 ∧ i ≤ n - 1
  | _ => x.entered = x.returned + 1

/-- The counter is at the size only while a thread is about to reset it. -/
def Opening (x : Thread) : Prop := x.point = .compare ∨ x.point = .reset

structure Balanced (n r : Nat) (s : State T) : Prop where
  size : s.barrier.size = n
  some : 0 < s.barrier.size
  inside : ∀ t, Inside s.barrier.size (s.thread t)
  mutex : s.barrier.sizeS + tally (fun _ => holds) s.thread = 1
  arrivals : tally (fun _ x => (arrived x : Int)) s.thread =
    s.barrier.size * r + s.barrier.counter
  returns : tally (fun _ x => (x.returned : Int)) s.thread + s.barrier.barrierS +
    tally (fun _ => pending s.barrier.size) s.thread = s.barrier.size * r
  atMost : s.barrier.counter ≤ s.barrier.size
  full : s.barrier.counter = s.barrier.size → ∃ t, Opening (s.thread t)
  reset : ∀ t, (s.thread t).point = .reset → s.barrier.counter = s.barrier.size

variable {s s' : State T} {t : T} {n r : Nat}

theorem start_balanced (some : 0 < n) : Balanced n 0 (startAt n : State T) := by
  have zero : ∀ w : Thread → Int, w ⟨.outside, 0, 0⟩ = 0 →
      tally (fun _ => w) (startAt n : State T).thread = 0 := fun w none => tally_zero fun _ => none
  refine ⟨rfl, some, fun _ => rfl, ?_, ?_, ?_, Nat.zero_le _, ?_, fun _ here => by cases here⟩
  · rw [zero holds rfl]
    rfl
  · rw [zero _ rfl]
    simp [startAt, barrierInit]
  · rw [zero _ rfl, zero _ rfl]
    simp [startAt, barrierInit]
  · intro full
    exact absurd full some.ne

theorem alone (balanced : Balanced n r s) {u : T} (here : holds (s.thread t) = 1)
    (there : holds (s.thread u) = 1) : u = t := by
  classical
  by_contra other
  have both := two_le_tally (w := fun _ => holds) (c := s.thread) (fun a => holds_nonneg _) other
  have mutex := balanced.mutex
  omega

theorem opening_holds {x : Thread} (opening : Opening x) : holds x = 1 := by
  rcases opening with here | here <;> simp [holds, here]

variable [DecidableEq T]

theorem balanced_move {b : Barrier} {x : Thread} {r' : Nat} (balanced : Balanced n r s)
    (size : b.size = s.barrier.size) (inside : Inside s.barrier.size x)
    (mutex : b.sizeS + holds x = s.barrier.sizeS + holds (s.thread t))
    (arrivals : (arrived x : Int) - arrived (s.thread t) =
      s.barrier.size * r' + b.counter - (s.barrier.size * r + s.barrier.counter))
    (returns : (x.returned : Int) + b.barrierS + pending s.barrier.size x - s.barrier.size * r' =
      (s.thread t).returned + s.barrier.barrierS + pending s.barrier.size (s.thread t) -
        s.barrier.size * r)
    (atMost : b.counter ≤ s.barrier.size)
    (full : b.counter = s.barrier.size → ∃ u, Opening (Function.update s.thread t x u))
    (reset : ∀ u, (Function.update s.thread t x u).point = .reset →
      b.counter = s.barrier.size) :
    Balanced n r' ⟨b, Function.update s.thread t x⟩ := by
  have oldMutex := balanced.mutex
  have oldArrivals := balanced.arrivals
  have oldReturns := balanced.returns
  refine ⟨size.trans balanced.size, size ▸ balanced.some, fun u => ?_, ?_, ?_, ?_, ?_, ?_, ?_⟩
  · dsimp only
    rw [size, Function.update_apply]
    split
    · exact inside
    · exact balanced.inside u
  · dsimp only
    rw [tally_update]
    omega
  · dsimp only
    rw [size, tally_update]
    omega
  · dsimp only
    rw [size, tally_update, tally_update]
    omega
  · exact size ▸ atMost
  · dsimp only
    rw [size]
    exact full
  · dsimp only
    rw [size]
    exact reset

omit [DecidableEq T] in
/-- The thread that moves holds size_s, so it alone can be opening the barrier. -/
theorem below_size (balanced : Balanced n r s) (here : holds (s.thread t) = 1)
    (own : ¬ Opening (s.thread t)) : s.barrier.counter < s.barrier.size := by
  refine lt_of_le_of_ne balanced.atMost fun full => ?_
  obtain ⟨u, opening⟩ := balanced.full full
  rw [alone balanced here (opening_holds opening)] at opening
  exact own opening

theorem still_full {x : Thread} (balanced : Balanced n r s) (own : ¬ Opening (s.thread t))
    (full : s.barrier.counter = s.barrier.size) :
    ∃ u, Opening (Function.update s.thread t x u) := by
  obtain ⟨u, opening⟩ := balanced.full full
  refine ⟨u, ?_⟩
  rw [Function.update_of_ne]
  · exact opening
  · rintro rfl
    exact own opening

theorem still_reset {x : Thread} (balanced : Balanced n r s) (own : x.point ≠ .reset) (u : T)
    (point : (Function.update s.thread t x u).point = .reset) :
    s.barrier.counter = s.barrier.size := by
  by_cases same : u = t
  · subst same
    rw [Function.update_self] at point
    exact absurd point own
  · rw [Function.update_of_ne same] at point
    exact balanced.reset u point

theorem sole_reset {x : Thread} (balanced : Balanced n r s) (here : holds (s.thread t) = 1)
    (own : x.point ≠ .reset) (u : T) : (Function.update s.thread t x u).point ≠ .reset := by
  intro point
  by_cases same : u = t
  · subst same
    rw [Function.update_self] at point
    exact own point
  · rw [Function.update_of_ne same] at point
    exact same (alone balanced here (opening_holds (Or.inr point)))

theorem balanced_still {b : Barrier} {x : Thread} (balanced : Balanced n r s)
    (size : b.size = s.barrier.size) (counter : b.counter = s.barrier.counter)
    (inside : Inside s.barrier.size x) (own : ¬ Opening (s.thread t)) (next : x.point ≠ .reset)
    (mutex : b.sizeS + holds x = s.barrier.sizeS + holds (s.thread t))
    (same : arrived x = arrived (s.thread t))
    (returns : (x.returned : Int) + b.barrierS + pending s.barrier.size x =
      (s.thread t).returned + s.barrier.barrierS + pending s.barrier.size (s.thread t)) :
    Balanced n r ⟨b, Function.update s.thread t x⟩ := by
  refine balanced_move balanced size inside mutex ?_ (by omega) (counter ▸ balanced.atMost) ?_ ?_
  · rw [same, counter]
    omega
  · rw [counter]
    exact still_full balanced own
  · rw [counter]
    exact still_reset balanced next

theorem balanced_step (balanced : Balanced n r s) (go : step s t = some s') :
    ∃ r', Balanced n r' s' := by
  obtain ⟨⟨b, x⟩, run, rfl⟩ := Option.map_eq_some_iff.mp go
  have inside := balanced.inside t
  have some := balanced.some
  cases point : (s.thread t).point with
  | outside =>
    simp only [barrierWait, point, Option.some.injEq, Prod.mk.injEq] at run
    obtain ⟨rfl, rfl⟩ := run
    simp only [Inside, point] at inside
    refine ⟨r, balanced_still balanced rfl rfl ?_ (by simp [Opening, point]) (by simp) ?_ ?_ ?_⟩
    · simp [Inside, inside]
    · simp [holds, point]
    · simp [arrived, point]
    · simp [pending, point]
  | lock =>
    simp only [barrierWait, point, Option.ite_none_right_eq_some, Option.some.injEq,
      Prod.mk.injEq] at run
    obtain ⟨free, rfl, rfl⟩ := run
    simp only [Inside, point] at inside
    refine ⟨r, balanced_still balanced rfl rfl ?_ (by simp [Opening, point])
      (by simp [Thread.goto]) ?_ ?_ ?_⟩
    · simp [Inside, Thread.goto, inside]
    · simp only [holds, point, Thread.goto]
      omega
    · simp [arrived, point, Thread.goto]
    · simp [pending, point, Thread.goto]
  | increment =>
    simp only [barrierWait, point, Option.some.injEq, Prod.mk.injEq] at run
    obtain ⟨rfl, rfl⟩ := run
    simp only [Inside, point] at inside
    have room := below_size balanced (t := t) (by simp [holds, point]) (by simp [Opening, point])
    refine ⟨r, balanced_move balanced rfl ?_ ?_ ?_ ?_ room ?_ ?_⟩
    · simp [Inside, Thread.goto, inside]
    · simp [holds, point, Thread.goto]
    · simp only [arrived, point, Thread.goto]
      push_cast
      omega
    · simp [pending, point, Thread.goto]
    · exact fun _ => ⟨t, Or.inl (by rw [Function.update_self]; rfl)⟩
    · intro u there
      exact absurd there (sole_reset balanced (by simp [holds, point]) (by simp [Thread.goto]) u)
  | compare =>
    simp only [Inside, point] at inside
    have held : holds (s.thread t) = 1 := by simp [holds, point]
    by_cases full : s.barrier.counter = s.barrier.size
    · simp only [barrierWait, point, if_pos full, Option.some.injEq, Prod.mk.injEq] at run
      obtain ⟨rfl, rfl⟩ := run
      refine ⟨r, balanced_move balanced rfl ?_ ?_ ?_ ?_ balanced.atMost ?_ fun _ _ => full⟩
      · simp [Inside, Thread.goto, inside]
      · simp [holds, point, Thread.goto]
      · simp [arrived, point, Thread.goto]
      · simp [pending, point, Thread.goto]
      · exact fun _ => ⟨t, Or.inr (by rw [Function.update_self]; rfl)⟩
    · simp only [barrierWait, point, if_neg full, Option.some.injEq, Prod.mk.injEq] at run
      obtain ⟨rfl, rfl⟩ := run
      refine ⟨r, balanced_move balanced rfl ?_ ?_ ?_ ?_ balanced.atMost ?_ ?_⟩
      · simp [Inside, Thread.goto, inside]
      · simp [holds, point, Thread.goto]
      · simp [arrived, point, Thread.goto]
      · simp [pending, point, Thread.goto]
      · exact fun reached => absurd reached full
      · intro u there
        exact absurd there (sole_reset balanced held (by simp [Thread.goto]) u)
  | reset =>
    simp only [barrierWait, point, Option.some.injEq, Prod.mk.injEq] at run
    obtain ⟨rfl, rfl⟩ := run
    simp only [Inside, point] at inside
    have full := balanced.reset t point
    have held : holds (s.thread t) = 1 := by simp [holds, point]
    refine ⟨r + 1, balanced_move balanced rfl ?_ ?_ ?_ ?_ (Nat.zero_le _) ?_ ?_⟩
    · simp [Inside, Thread.goto, inside]
    · simp [holds, point, Thread.goto]
    · simp only [arrived, point, Thread.goto, full]
      push_cast
      rw [mul_add, mul_one]
      omega
    · simp only [pending, point, Thread.goto]
      push_cast
      rw [mul_add, mul_one]
      omega
    · exact fun none => absurd none.symm some.ne'
    · intro u there
      exact absurd there (sole_reset balanced held (by simp [Thread.goto]) u)
  | post i =>
    simp only [Inside, point] at inside
    simp only [barrierWait, point] at run
    split at run
    · simp only [Option.some.injEq, Prod.mk.injEq] at run
      obtain ⟨rfl, rfl⟩ := run
      refine ⟨r, balanced_still balanced rfl rfl ?_ (by simp [Opening, point])
        (by simp [Thread.goto]) ?_ ?_ ?_⟩
      · simp only [Inside, Thread.goto]
        omega
      · simp [holds, point, Thread.goto]
      · simp [arrived, point, Thread.goto]
      · simp only [pending, point, Thread.goto]
        push_cast
        omega
    · simp only [Option.some.injEq, Prod.mk.injEq] at run
      obtain ⟨rfl, rfl⟩ := run
      refine ⟨r, balanced_still balanced rfl rfl ?_ (by simp [Opening, point])
        (by simp [Thread.goto]) ?_ ?_ ?_⟩
      · simp [Inside, Thread.goto, inside]
      · simp [holds, point, Thread.goto]
      · simp [arrived, point, Thread.goto]
      · simp only [pending, point, Thread.goto]
        omega
  | unlockLast =>
    simp only [barrierWait, point, Option.some.injEq, Prod.mk.injEq] at run
    obtain ⟨rfl, rfl⟩ := run
    simp only [Inside, point] at inside
    refine ⟨r, balanced_still balanced rfl rfl ?_ (by simp [Opening, point])
      (by simp [Thread.back]) ?_ ?_ ?_⟩
    · simp [Inside, Thread.back, inside]
    · simp [holds, point, Thread.back]
    · simp [arrived, point, Thread.back]
    · simp only [pending, point, Thread.back]
      push_cast
      omega
  | unlock =>
    simp only [barrierWait, point, Option.some.injEq, Prod.mk.injEq] at run
    obtain ⟨rfl, rfl⟩ := run
    simp only [Inside, point] at inside
    refine ⟨r, balanced_still balanced rfl rfl ?_ (by simp [Opening, point])
      (by simp [Thread.goto]) ?_ ?_ ?_⟩
    · simp [Inside, Thread.goto, inside]
    · simp [holds, point, Thread.goto]
    · simp [arrived, point, Thread.goto]
    · simp [pending, point, Thread.goto]
  | await =>
    simp only [barrierWait, point, Option.ite_none_right_eq_some, Option.some.injEq,
      Prod.mk.injEq] at run
    obtain ⟨token, rfl, rfl⟩ := run
    simp only [Inside, point] at inside
    refine ⟨r, balanced_still balanced rfl rfl ?_ (by simp [Opening, point])
      (by simp [Thread.back]) ?_ ?_ ?_⟩
    · simp [Inside, Thread.back, inside]
    · simp [holds, point, Thread.back]
    · simp [arrived, point, Thread.back]
    · simp only [pending, point, Thread.back]
      push_cast
      omega

end Balance

section Runs
variable {s : State T} {n r : Nat}

theorem arrivals_eq (balanced : Balanced n r s) : arrivals s = n * r + s.barrier.counter := by
  have sum := balanced.arrivals
  rw [tally, ← Nat.cast_sum, balanced.size] at sum
  exact_mod_cast sum

theorem pending_nonneg (balanced : Balanced n r s) (t : T) :
    0 ≤ pending s.barrier.size (s.thread t) := by
  have inside := balanced.inside t
  have some := balanced.some
  unfold pending
  split
  · rename_i i point
    simp only [Inside, point] at inside
    omega
  · decide
  · exact le_refl 0

theorem returns_eq (balanced : Balanced n r s) :
    (returns s : Int) + s.barrier.barrierS + tally (fun _ => pending s.barrier.size) s.thread =
      n * r := by
  have sum := balanced.returns
  rw [tally, ← Nat.cast_sum, balanced.size] at sum
  rw [balanced.size]
  exact_mod_cast sum

/-- Blocked threads hold nothing, so nobody waits for size_s. -/
theorem stuck_waits [DecidableEq T] (balanced : Balanced n r s) (stuck : ∀ u, step s u = none)
    (t : T) : (s.thread t).point = .await ∧ s.barrier.barrierS = 0 := by
  have blocked : ∀ u, barrierWait s.barrier (s.thread u) = none :=
    fun u => Option.map_eq_none_iff.mp (stuck u)
  have point : ∀ u, (s.thread u).point = .lock ∧ s.barrier.sizeS = 0 ∨
      (s.thread u).point = .await ∧ s.barrier.barrierS = 0 := by
    intro u
    have none := blocked u
    cases at' : (s.thread u).point with
    | lock => exact Or.inl ⟨rfl, by simpa [barrierWait, at'] using none⟩
    | await => exact Or.inr ⟨rfl, by simpa [barrierWait, at'] using none⟩
    | post i =>
      simp only [barrierWait, at'] at none
      split at none
      · cases none
      · cases none
    | _ => simp [barrierWait, at'] at none
  have idle : tally (fun _ => holds) s.thread = 0 :=
    tally_zero fun u => by rcases point u with ⟨at', _⟩ | ⟨at', _⟩ <;> simp [holds, at']
  have mutex := balanced.mutex
  rcases point t with ⟨_, taken⟩ | waits
  · omega
  · exact waits

/-- Each of the threads, all of which wait, has come to the round that is not full. -/
theorem stuck_lacks [DecidableEq T] (balanced : Balanced n r s) (stuck : ∀ u, step s u = none) :
    Fintype.card T = s.barrier.counter ∧ s.barrier.counter < n := by
  have waits := stuck_waits balanced stuck
  have drained : tally (fun _ => pending s.barrier.size) s.thread = 0 :=
    tally_zero fun u => by simp [pending, (waits u).1]
  have all : arrivals s = returns s + Fintype.card T := by
    have each : ∀ u, arrived (s.thread u) = (s.thread u).returned + 1 := by
      intro u
      have inside := balanced.inside u
      simp only [Inside, (waits u).1] at inside
      simp [arrived, (waits u).1, inside]
    simp [arrivals, returns, each, Finset.sum_add_distrib]
  have sum := returns_eq balanced
  have came := arrivals_eq balanced
  rw [drained] at sum
  have below : s.barrier.counter < n := by
    rw [← balanced.size]
    refine lt_of_le_of_ne balanced.atMost fun full => ?_
    obtain ⟨u, opening⟩ := balanced.full full
    rcases opening with at' | at' <;> rw [(waits u).1] at at' <;> cases at'
  have whole : (Fintype.card T : Int) = s.barrier.counter + s.barrier.barrierS := by
    push_cast [all] at came
    omega
  refine ⟨?_, below⟩
  cases isEmpty_or_nonempty T with
  | inl none =>
    have nobody : Fintype.card T = 0 := Fintype.card_eq_zero
    omega
  | inr someone =>
    obtain ⟨t⟩ := someone
    have empty := (waits t).2
    omega

end Runs

/-- In every run of any number of threads, each round of arrivals releases at most n returns; they
    and the tokens left are exactly n while nobody opens the barrier; and some thread can go on
    unless all of them wait in a round that needs more threads than there are. -/
theorem barrier_balances {T : Type} [DecidableEq T] [Fintype T] {n : Nat} (size : 0 < n)
    {threads : List T} {s : State T}
    (run : Run (fun a t b => step a t = some b) (startAt n) threads s) :
    returns s ≤ n * (arrivals s / n) ∧
    (Settled s → returns s + s.barrier.barrierS = n * (arrivals s / n)) ∧
    ((∃ u s', step s u = some s') ∨
      (∀ u, (s.thread u).point = .await) ∧ Fintype.card T = arrivals s % n) := by
  obtain ⟨r, balanced⟩ : ∃ r, Balanced n r s :=
    run_invariant (fun s => ∃ r, Balanced n r s) (fun _ _ _ ⟨_, balanced⟩ go =>
      balanced_step balanced go) run ⟨0, start_balanced size⟩
  have came := arrivals_eq balanced
  have sum := returns_eq balanced
  have rounds : r ≤ arrivals s / n := by
    rw [came, Nat.mul_add_div size]
    exact Nat.le_add_right _ _
  have coming : 0 ≤ tally (fun _ => pending s.barrier.size) s.thread :=
    tally_nonneg (pending_nonneg balanced)
  refine ⟨?_, fun settled => ?_, ?_⟩
  · have least : n * r ≤ n * (arrivals s / n) := Nat.mul_le_mul_left _ rounds
    have most : (returns s : Int) ≤ ((n * r : Nat) : Int) := by
      push_cast
      omega
    exact (Int.ofNat_le.mp most).trans least
  · have drained : tally (fun _ => pending s.barrier.size) s.thread = 0 :=
      tally_zero fun u => by
        have at' := settled u
        unfold pending
        split <;> simp_all
    have below : s.barrier.counter < n := by
      rw [← balanced.size]
      refine lt_of_le_of_ne balanced.atMost fun full => ?_
      obtain ⟨u, opening⟩ := balanced.full full
      have at' := settled u
      rcases opening with here | here <;> rw [here] at at' <;> exact at'
    rw [came, Nat.mul_add_div size, Nat.div_eq_of_lt below, Nat.add_zero]
    rw [drained] at sum
    exact_mod_cast (by push_cast at sum ⊢; omega :
      ((returns s + s.barrier.barrierS : Nat) : Int) = ((n * r : Nat) : Int))
  · by_cases goes : ∃ u s', step s u = some s'
    · exact Or.inl goes
    · have stuck : ∀ u, step s u = none := fun u =>
        Option.eq_none_iff_forall_ne_some.mpr fun s' go => goes ⟨u, s', go⟩
      obtain ⟨all, below⟩ := stuck_lacks balanced stuck
      refine Or.inr ⟨fun u => (stuck_waits balanced stuck u).1, ?_⟩
      rw [came, Nat.mul_add_mod, Nat.mod_eq_of_lt below, all]

/-- Three threads over a barrier of size two: the third takes the token that the second posted for
    the first, comes back, and posts another. -/
def thirdOvertakes (first second third : T) : List T :=
  List.replicate 5 first ++ List.replicate 8 second ++ List.replicate 14 third

theorem third_thread_balances : ∃ s : State (Fin 3),
    Run (fun a t b => step a t = some b) (startAt 2) (thirdOvertakes 0 1 2) s ∧
    (s.thread 0).point = .await ∧ (s.thread 0).returned = 0 ∧ (s.thread 2).returned = 2 ∧
    returns s + s.barrier.barrierS = 2 * (arrivals s / 2) := by
  obtain ⟨s, found, waits, behind, overtakes, settled⟩ := exec_reaches step (startAt 2)
    (thirdOvertakes 0 1 2)
    (fun s => (s.thread 0).point = .await ∧ (s.thread 0).returned = 0 ∧
      (s.thread 2).returned = 2 ∧ ∀ t : Fin 3, (s.thread t).point = .await ∨
        (s.thread t).point = .outside)
    (by decide +kernel)
  have run := exec_run found
  refine ⟨s, run, waits, behind, overtakes, (barrier_balances (by decide) run).2.1 fun t => ?_⟩
  rcases settled t with here | here <;> rw [here] <;> trivial

end BarrierProgress
