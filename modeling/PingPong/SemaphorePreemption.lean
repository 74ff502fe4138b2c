import PingPong.KernelViews
import PingPong.TaskConservation

/-! One semaphore of the program under preemption: the timer may strike between any two
   steps of sem_down and sem_up. What the counter, the queue and the tasks on their way
   owe each other, and what follows for wake-ups and for mutual exclusion. -/
namespace SemaphorePreemption
open MachineModel CircularList QueueModel KernelModel KernelEffects TaskPlacement SystemModel
open SystemFrames TransitionRuns FiniteTally TaskConservation KernelViews
variable {N : Type} [DecidableEq N] [Fintype N]

section Accounts

abbrev value (n : Nat) (s : System N) : Int := (s.kernel.sem (.user n)).value

abbrev waiters (n : Nat) (s : System N) : List (Tcb N) := tasks s.kernel (.semQueue (.user n))

def sum (f : Tcb N → Nat) : Int := ∑ t, (f t : Int)

/-- A sem_down between its decrement and its return. -/
def inside (n : Nat) : Ctl N → Int
  | .semDown m (.leave _) | .semDown m .suspend | .semDown m .woken => if m = n then 1 else 0
  | _ => 0

/-- A sem_down that has to wait and is not in the queue yet. -/
def bound (n : Nat) : Ctl N → Int
  | .semDown m (.leave v) => if m = n ∧ v < 0 then 1 else 0
  | .semDown m .suspend => if m = n then 1 else 0
  | _ => 0

/-- A sem_up between its increment and the wake-up it owes. -/
def raising (n : Nat) : Ctl N → Int
  | .semUp m (.leave v) | .semUp m (.test v) => if m = n ∧ v ≤ 0 then 1 else 0
  | .semUp m .resume => if m = n then 1 else 0
  | _ => 0

omit [Fintype N] [DecidableEq N] in
theorem inside_off {n : Nat} {c : Ctl N} (off : ctlClient c ≠ .semaphore n) :
    inside n c = 0 := by
  unfold inside
  split <;> simp_all [ctlClient]

omit [Fintype N] [DecidableEq N] in
theorem bound_off {n : Nat} {c : Ctl N} (off : ctlClient c ≠ .semaphore n) :
    bound n c = 0 := by
  unfold bound
  split <;> simp_all [ctlClient]

omit [Fintype N] [DecidableEq N] in
theorem raising_off {n : Nat} {c : Ctl N} (off : ctlClient c ≠ .semaphore n) :
    raising n c = 0 := by
  unfold raising
  split <;> simp_all [ctlClient]

theorem sum_counted {table : Nat → Tcb N → Nat} {n : Nat} {t : Tcb N} :
    sum (counted table n t n) = sum (table n) + 1 := by
  have step := tally_update (fun _ (x : Nat) => (x : Int)) (table n) t (table n t + 1)
  have same : counted table n t n = Function.update (table n) t (table n t + 1) := by
    simp [counted]
  simp only [tally] at step
  rw [sum, same, step, sum]
  push_cast
  omega

end Accounts

/-- A semaphore just initialised with v, in storage whose lock is 0; nobody uses it yet. -/
structure Fresh (n : Nat) (v : Int) (s : System N) : Prop where
  conserved : Conserved s
  sem : s.kernel.sem (.user n) = ⟨v, 0, 1⟩
  nonneg : 0 ≤ v
  isInt : v ≤ intMax
  noWaiters : waiters n s = []
  outside : ∀ t, ctlClient (s.ctl t) ≠ .semaphore n
  returned : ∀ t, s.history.returned n t = 0
  started : ∀ t, s.history.started n t = 0
  incremented : ∀ t, s.history.incremented n t = 0
  emptyTests : s.history.emptyTests n = 0

/-- Nobody initialises or destroys the semaphore again. -/
def Spares (n : Nat) : Label N → Prop
  | .call (.semInit (some m) _) | .call (.semDestroy (some m)) => m ≠ n
  | _ => True

/-- The counter stays in the range of an int. -/
def CounterFits (n : Nat) (s : System N) : Label N → Prop
  | .run _ _ => match s.ctl s.curr with
      | .semDown m .update => m = n → intMin < value n s
      | .semUp m .update => m = n → value n s < intMax
      | _ => True
  | _ => True

instance (n : Nat) (l : Label N) : Decidable (Spares n l) := by
  unfold Spares
  rcases l with _ | _ | c | _ <;> try infer_instance
  rcases c with _ | _ <;> try infer_instance
  case semInit o _ | semDestroy o => rcases o with _ | _ <;> infer_instance

instance (n : Nat) (s : System N) (l : Label N) : Decidable (CounterFits n s l) := by
  unfold CounterFits
  generalize s.ctl s.curr = c
  rcases l with _ | _ | _ | _ <;> try infer_instance
  rcases c with _ | _ <;> try infer_instance
  case semDown point | semUp point => rcases point with _ | _ <;> infer_instance

def Preempts (n : Nat) (s : System N) (l : Label N) (s' : System N) : Prop :=
  step s l = some (.ok s') ∧ Permitted s l ∧ Spares n l ∧ CounterFits n s l

section Steps
variable {n : Nat} {s s' : System N}

/-- The steps about the semaphore: three calls, and the points of sem_down and sem_up. -/
theorem semaphore_cases {l : Label N} (mine : client s l = .semaphore n)
    (run : step s l = some (.ok s')) (once : ∀ v, l ≠ .call (.semInit (some n) v)) :
    (∃ code, s.ctl s.curr = .body code ∧ l = .call (.semDown (some n)) ∧
      s' = semDownCall s (some n)) ∨
    (∃ code, s.ctl s.curr = .body code ∧ l = .call (.semUp (some n)) ∧
      s' = semUpCall s (some n)) ∨
    (∃ point m₁ m₂, s.ctl s.curr = .semDown n point ∧ l = .run m₁ m₂ ∧
      semDownStep s n point = .ok s') ∨
    (∃ point m₁ m₂, s.ctl s.curr = .semUp n point ∧ l = .run m₁ m₂ ∧
      semUpStep s n point = .ok s') ∨
    (∃ code, s.ctl s.curr = .body code ∧ l = .call (.semDestroy (some n)) ∧
      call s (.semDestroy (some n)) = .ok s') := by
  cases l with
  | tick => cases mine
  | completion => cases mine
  | call c =>
    obtain ⟨code, body, run⟩ := call_runs run
    simp only [client, callClient] at mine
    split at mine
    case h_2 =>
      cases mine
      exact absurd rfl (once _)
    case h_3 =>
      cases mine
      cases run
      exact Or.inl ⟨code, body, rfl, rfl⟩
    case h_4 =>
      cases mine
      cases run
      exact Or.inr (Or.inl ⟨code, body, rfl, rfl⟩)
    case h_5 =>
      cases mine
      exact Or.inr (Or.inr (Or.inr (Or.inr ⟨code, body, rfl, run⟩)))
    all_goals cases mine
  | run m₁ m₂ =>
    simp only [step, advance] at run
    simp only [client, ctlClient] at mine
    split at mine
    · rename_i m point here
      cases mine
      rw [here] at run
      exact Or.inr (Or.inr (Or.inl ⟨point, m₁, m₂, here, rfl, Option.some.inj run⟩))
    · rename_i m point here
      cases mine
      rw [here] at run
      exact Or.inr (Or.inr (Or.inr (Or.inl ⟨point, m₁, m₂, here, rfl, Option.some.inj run⟩)))
    all_goals cases mine

theorem semaphore_step {l : Label N} (mine : client s l = .semaphore n)
    (run : step s l = some (.ok s')) (spares : Spares n l) :
    (∃ code, s.ctl s.curr = .body code ∧ l = .call (.semDown (some n)) ∧
      s' = semDownCall s (some n)) ∨
    (∃ code, s.ctl s.curr = .body code ∧ l = .call (.semUp (some n)) ∧
      s' = semUpCall s (some n)) ∨
    (∃ point m₁ m₂, s.ctl s.curr = .semDown n point ∧ l = .run m₁ m₂ ∧
      semDownStep s n point = .ok s') ∨
    (∃ point m₁ m₂, s.ctl s.curr = .semUp n point ∧ l = .run m₁ m₂ ∧
      semUpStep s n point = .ok s') := by
  have once : ∀ v, l ≠ .call (.semInit (some n) v) := by
    rintro v rfl
    exact spares rfl
  rcases semaphore_cases mine run once with down | up | downs | ups | ⟨_, _, rfl, _⟩
  · exact Or.inl down
  · exact Or.inr (Or.inl up)
  · exact Or.inr (Or.inr (Or.inl downs))
  · exact Or.inr (Or.inr (Or.inr ups))
  · exact absurd rfl spares

end Steps

/-- The books of the semaphore: every return and every wait is backed by the initial value,
    an increment, or a test that found the queue empty. -/
structure Books (n : Nat) (v : Int) (s : System N) : Prop where
  conserved : Conserved s
  range : intMin ≤ value n s ∧ value n s ≤ intMax
  waiting : ∀ t ∈ waiters n s, s.ctl t = .semDown n .woken
  grants : value n s + sum (s.history.returned n) + total (inside n) s =
    v + sum (s.history.incremented n)
  waits : (waiters n s).length + total (bound n) s =
    total (raising n) s + max 0 (-value n s) + s.history.emptyTests n

structure Ledger (n : Nat) (v : Int) (s : System N) : Prop extends Books n v s where
  active : (s.kernel.sem (.user n)).active ≠ 0

section LedgerSteps
variable {n : Nat} {v : Int} {s s' : System N}

theorem fresh_ledger (fresh : Fresh n v s) : Ledger n v s := by
  have none : ∀ {w : Ctl N → Int}, (∀ c, ctlClient c ≠ .semaphore n → w c = 0) →
      total w s = 0 := fun off => tally_zero fun t => off _ (fresh.outside t)
  have returned : sum (s.history.returned n) = 0 :=
    Finset.sum_eq_zero fun t _ => by rw [fresh.returned]; rfl
  have incremented : sum (s.history.incremented n) = 0 :=
    Finset.sum_eq_zero fun t _ => by rw [fresh.incremented]; rfl
  have start : value n s = v := by rw [value, fresh.sem]
  have nonneg := fresh.nonneg
  refine ⟨⟨fresh.conserved, ?_, ?_, ?_, ?_⟩, by rw [fresh.sem]; simp⟩
  · rw [start]
    exact ⟨by simp only [intMin]; omega, fresh.isInt⟩
  · rw [fresh.noWaiters]
    intro t mem
    cases mem
  · rw [none (fun _ => inside_off), returned, incremented, start]
    omega
  · rw [none (fun _ => bound_off), none (fun _ => raising_off), fresh.noWaiters,
      fresh.emptyTests, start]
    simp only [List.length_nil]
    omega

theorem books_framed (books : Books n v s) (conserved : Conserved s')
    (framed : Framed (.semaphore n) s s') : Books n v s' := by
  have sem := framed.sem (.user n) rfl
  have queue : waiters n s' = waiters n s := framed.lists (.semQueue (.user n)) (by simp) rfl
  have data : SemaphoreData n s s' := framed.data
  refine ⟨conserved, by rw [value, sem]; exact books.range, ?_, ?_, ?_⟩
  · intro t mem
    rw [queue] at mem
    have here := books.waiting t mem
    rcases framed.ctl t with same | ⟨before, _⟩
    · rw [same]; exact here
    · exact absurd (by rw [here]; rfl) before
  · rw [value, sem, data.returned, data.incremented, total_framed (fun _ => inside_off) framed]
    exact books.grants
  · rw [queue, value, sem, data.emptyTests, total_framed (fun _ => bound_off) framed,
      total_framed (fun _ => raising_off) framed]
    exact books.waits

theorem books_entry (books : Books n v s) (conserved : Conserved s') {old new : Ctl N}
    (here : s.ctl s.curr = old) (ctl : s'.ctl = Function.update s.ctl s.curr new)
    (range : intMin ≤ value n s' ∧ value n s' ≤ intMax)
    (queue : ∀ t ∈ waiters n s', t ∈ waiters n s ∨ t = s.curr ∧ new = .semDown n .woken)
    (grants : value n s' + sum (s'.history.returned n) + inside n new =
      value n s + sum (s.history.returned n) + inside n old +
        (sum (s'.history.incremented n) - sum (s.history.incremented n)))
    (waits : ((waiters n s').length + bound n new - raising n new - max 0 (-value n s') -
        s'.history.emptyTests n : Int) =
      (waiters n s).length + bound n old - raising n old - max 0 (-value n s) -
        s.history.emptyTests n) : Books n v s' := by
  subst here
  have grants' := books.grants
  have waits' := books.waits
  refine ⟨conserved, range, ?_, ?_, ?_⟩
  · intro t mem
    rw [ctl, Function.update_apply]
    rcases queue t mem with old | ⟨rfl, woken⟩
    · have other : t ≠ s.curr := by
        rintro rfl
        exact current_nowhere_else books.conserved.placed (by simp) old
      rw [if_neg other]
      exact books.waiting t old
    · rw [if_pos rfl, woken]
  · rw [total_update _ ctl]
    omega
  · rw [total_update _ ctl, total_update _ ctl]
    omega

theorem books_write (f : Semaphore → Semaphore) (w : Int) (books : Books n v s)
    (conserved : Conserved s') {old new : Ctl N} (here : s.ctl s.curr = old)
    (kernel : s'.kernel = s.kernel.setSem (.user n) f)
    (ctl : s'.ctl = Function.update s.ctl s.curr new)
    (changed : (f (s.kernel.sem (.user n))).value = w)
    (range : intMin ≤ w ∧ w ≤ intMax)
    (grants : w + sum (s'.history.returned n) + inside n new =
      value n s + sum (s.history.returned n) + inside n old +
        (sum (s'.history.incremented n) - sum (s.history.incremented n)))
    (waits : bound n new - raising n new - max 0 (-w) =
      bound n old - raising n old - max 0 (-value n s))
    (tests : s'.history.emptyTests n = s.history.emptyTests n) : Books n v s' := by
  have queue : waiters n s' = waiters n s := by rw [waiters, kernel]; rfl
  have written : value n s' = w := by rw [value, kernel, Kernel.setSem_same, changed]
  refine books_entry books conserved here ctl (by rw [written]; exact range) ?_
    (by rw [written]; exact grants) ?_
  · rw [queue]
    exact fun t mem => Or.inl mem
  · rw [queue, tests, written]
    omega

theorem books_keep (books : Books n v s) (conserved : Conserved s') {old new : Ctl N}
    (here : s.ctl s.curr = old) (ctl : s'.ctl = Function.update s.ctl s.curr new)
    (sem : s'.kernel.sem (.user n) = s.kernel.sem (.user n))
    (queue : ∀ t ∈ waiters n s', t ∈ waiters n s ∨ t = s.curr ∧ new = .semDown n .woken)
    (grants : sum (s'.history.returned n) + inside n new =
      sum (s.history.returned n) + inside n old)
    (increments : s'.history.incremented n = s.history.incremented n)
    (waits : ((waiters n s').length + bound n new - raising n new -
        s'.history.emptyTests n : Int) =
      (waiters n s).length + bound n old - raising n old - s.history.emptyTests n) :
    Books n v s' := by
  have same : value n s' = value n s := by rw [value, sem]
  refine books_entry books conserved here ctl (by rw [same]; exact books.range) queue ?_ ?_
  · rw [same, increments]
    omega
  · rw [same]
    omega

theorem books_down (books : Books n v s) (conserved : Conserved s') {point : DownPoint}
    (here : s.ctl s.curr = .semDown n point)
    (fits : point = .update → intMin < value n s) (run : semDownStep s n point = .ok s') :
    Books n v s' := by
  have range := books.range
  cases point with
  | enter =>
    simp only [semDownStep] at run
    split at run
    · cases run; exact books
    · cases run
      exact books_write (fun x => { x with lock := 1 }) (value n s) books conserved here rfl rfl
        rfl range (by simp [inside]) (by simp [bound, raising]) rfl
  | update =>
    cases run
    have low := fits rfl
    have next : toInt (value n s - 1) = value n s - 1 := toInt_eq_self (by omega) (by omega)
    refine books_write (fun x => { x with value := toInt (value n s - 1) }) (value n s - 1)
      books conserved here rfl rfl next (by omega) ?_ ?_ rfl
    · simp [inside]; omega
    · change bound n (.semDown n (.leave (toInt (value n s - 1))) : Ctl N) - _ - _ = _
      rw [next]
      simp only [bound, raising, true_and]
      split <;> omega
  | leave w =>
    simp only [semDownStep] at run
    cases run
    by_cases wait : w < 0
    · rw [if_pos wait] at conserved ⊢
      exact books_write (fun x => { x with lock := 0 }) (value n s) books conserved here rfl rfl
        rfl range (by simp [inside]) (by simp [bound, raising, wait]) rfl
    · rw [if_neg wait] at conserved ⊢
      refine books_write (fun x => { x with lock := 0 }) (value n s) books conserved here rfl
        rfl rfl range ?_ (by simp [bound, raising, wait]) rfl
      have returned : sum ((semDownReturn (s.withKernel (leaveCs s.kernel (.user n)))
          n).history.returned n) = sum (s.history.returned n) + 1 := sum_counted
      rw [returned]
      simp [inside, semDownReturn, System.answer]
      omega
  | suspend =>
    obtain ⟨k, suspended, rfl⟩ := map_ok run
    have user := not_dispatcher books.conserved (t := s.curr) (by rw [here]; simp [role])
    obtain ⟨m, known, lists, _⟩ := suspend_kept books.conserved.placed user (.semQueue (.user n))
    rw [known, Except.ok.injEq] at suspended
    subst suspended
    have queue : waiters n ((s.withKernel (givenUp s.kernel m)).goto s.curr
        (.semDown n .woken)) = waiters n s ++ [s.curr] := by
      change elems m _ = _
      rw [lists, moveTask_target _ (by simp)]
      rfl
    refine books_keep books conserved here rfl rfl ?_ (by simp [inside]) rfl ?_
    · rw [queue]
      intro t mem
      rcases List.mem_append.mp mem with old | new
      · exact Or.inl old
      · exact Or.inr ⟨List.mem_singleton.mp new, rfl⟩
    · rw [queue]
      simp [bound, raising]
  | woken =>
    cases run
    have returned : sum ((semDownReturn s n).history.returned n) =
        sum (s.history.returned n) + 1 := sum_counted
    refine books_keep books conserved here rfl rfl (fun t mem => Or.inl mem) ?_ rfl ?_
    · rw [returned]
      simp [inside]
    · simp [bound, raising, semDownReturn, System.answer]

theorem books_up (books : Books n v s) (conserved : Conserved s') {point : UpPoint}
    (here : s.ctl s.curr = .semUp n point)
    (fits : point = .update → value n s < intMax) (run : semUpStep s n point = .ok s') :
    Books n v s' := by
  have range := books.range
  cases point with
  | enter =>
    simp only [semUpStep] at run
    split at run
    · cases run; exact books
    · cases run
      exact books_write (fun x => { x with lock := 1 }) (value n s) books conserved here rfl rfl
        rfl range (by simp [inside]) (by simp [bound, raising]) rfl
  | update =>
    cases run
    have high := fits rfl
    have next : toInt (value n s + 1) = value n s + 1 := toInt_eq_self (by omega) (by omega)
    have incremented : sum (counted s.history.incremented n s.curr n) =
        sum (s.history.incremented n) + 1 := sum_counted
    refine books_write (fun x => { x with value := toInt (value n s + 1) }) (value n s + 1)
      books conserved here rfl rfl next (by omega) ?_ ?_ rfl
    · dsimp only
      rw [incremented]
      simp [inside]
      omega
    · change _ - raising n (.semUp n (.leave (toInt (value n s + 1))) : Ctl N) - _ = _
      rw [next]
      simp only [bound, raising, true_and]
      split <;> omega
  | leave w =>
    cases run
    exact books_write (fun x => { x with lock := 0 }) (value n s) books conserved here rfl rfl
      rfl range (by simp [inside]) (by simp [bound, raising]) rfl
  | test w =>
    simp only [semUpStep] at run
    split at run
    · rename_i owed
      split at run
      · cases run
        exact books_keep books conserved here rfl rfl (fun t mem => Or.inl mem)
          (by simp [inside]) rfl (by simp [waiters, bound, raising, owed])
      · cases run
        refine books_keep books conserved here rfl rfl (fun t mem => Or.inl mem)
          (by simp [inside]) rfl ?_
        simp [waiters, bound, raising, owed, System.answer]
        omega
    · rename_i free
      cases run
      exact books_keep books conserved here rfl rfl (fun t mem => Or.inl mem)
        (by simp [inside, System.answer]) rfl
        (by simp [waiters, bound, raising, free, System.answer])
  | resume =>
    obtain ⟨k, resumed, rfl⟩ := map_ok run
    rw [books.conserved.placed.wellFormed.head] at resumed
    rcases waiting : tasks s.kernel (.semQueue (.user n)) with _ | ⟨t, rest⟩
    · rw [waiting] at resumed; cases resumed
    · rw [waiting, List.head?_cons] at resumed
      obtain ⟨m, known, lists, _⟩ := resume_kept books.conserved.placed (t := t)
        (q := .semQueue (.user n)) (by rw [waiting]; simp)
      rw [known, Except.ok.injEq] at resumed
      subst resumed
      have queue : ∀ {s'' : System N}, s''.kernel.queues = m → waiters n s'' = rest := by
        intro s'' same
        change elems s''.kernel.queues _ = _
        rw [same, lists, moveTask_source _ (by simp), waiting, List.erase_cons_head]
      refine books_keep books conserved here rfl rfl ?_ (by simp [inside, System.answer]) rfl ?_
      · rw [queue rfl, waiters, waiting]
        exact fun a mem => Or.inl (List.mem_cons_of_mem _ mem)
      · rw [queue rfl, waiters, waiting]
        simp [bound, raising, System.answer]

theorem down_active {point : DownPoint} (run : semDownStep s n point = .ok s') :
    (s'.kernel.sem (.user n)).active = (s.kernel.sem (.user n)).active := by
  cases point with
  | enter =>
    simp only [semDownStep] at run
    split at run <;> cases run <;> simp
  | update => cases run; simp
  | leave w =>
    simp only [semDownStep] at run
    cases run
    split <;> simp [leaveCs, semDownReturn, System.answer]
  | suspend =>
    obtain ⟨k, suspended, rfl⟩ := map_ok run
    exact congrArg Semaphore.active (congrFun (suspend_sem suspended) _)
  | woken => cases run; rfl

theorem up_active {point : UpPoint} (run : semUpStep s n point = .ok s') :
    (s'.kernel.sem (.user n)).active = (s.kernel.sem (.user n)).active := by
  cases point with
  | enter =>
    simp only [semUpStep] at run
    split at run <;> cases run <;> simp
  | update => cases run; simp
  | leave w => cases run; simp [leaveCs]
  | test w =>
    simp only [semUpStep] at run
    split at run
    · split at run <;> cases run <;> rfl
    · cases run; rfl
  | resume =>
    obtain ⟨k, resumed, rfl⟩ := map_ok run
    exact congrArg Semaphore.active (congrFun (resume_blind blind_sem resumed) _)

theorem books_step {l : Label N} (books : Books n v s) (preempts : Preempts n s l s') :
    Books n v s' ∧ (s'.kernel.sem (.user n)).active = (s.kernel.sem (.user n)).active := by
  have ok := step_kept books.conserved preempts.2.1 preempts.1
  by_cases mine : client s l = .semaphore n
  · rcases semaphore_step mine preempts.1 preempts.2.2.1 with ⟨code, body, _, rfl⟩ |
      ⟨code, body, _, rfl⟩ | ⟨point, m₁, m₂, here, rfl, run⟩ | ⟨point, m₁, m₂, here, rfl, run⟩
    · have conserved := ok.conserved
      by_cases closed : (s.kernel.sem (.user n)).active = 0
      · rw [semDownCall, if_pos closed] at conserved ⊢
        exact ⟨books_keep books conserved body rfl rfl (fun t mem => Or.inl mem)
          (by simp [inside, System.answer]) rfl
          (by simp [waiters, bound, raising, System.answer]), rfl⟩
      · rw [semDownCall, if_neg closed] at conserved ⊢
        exact ⟨books_keep books conserved body rfl rfl (fun t mem => Or.inl mem)
          (by simp [inside]) rfl (by simp [waiters, bound, raising]), rfl⟩
    · have conserved := ok.conserved
      by_cases closed : (s.kernel.sem (.user n)).active = 0
      · rw [semUpCall, if_pos closed] at conserved ⊢
        exact ⟨books_keep books conserved body rfl rfl (fun t mem => Or.inl mem)
          (by simp [inside, System.answer]) rfl
          (by simp [waiters, bound, raising, System.answer]), rfl⟩
      · rw [semUpCall, if_neg closed] at conserved ⊢
        exact ⟨books_keep books conserved body rfl rfl (fun t mem => Or.inl mem)
          (by simp [inside]) rfl (by simp [waiters, bound, raising]), rfl⟩
    · refine ⟨books_down books ok.conserved here ?_ run, down_active run⟩
      rintro rfl
      simpa [CounterFits, here] using preempts.2.2.2
    · refine ⟨books_up books ok.conserved here ?_ run, up_active run⟩
      rintro rfl
      simpa [CounterFits, here] using preempts.2.2.2
  · have framed := ok.framed _ (by simp) (Ne.symm mine)
    have sem : s'.kernel.sem (.user n) = s.kernel.sem (.user n) := framed.sem (.user n) rfl
    exact ⟨books_framed books ok.conserved framed, by rw [sem]⟩

theorem ledger_step {l : Label N} (ledger : Ledger n v s) (preempts : Preempts n s l s') :
    Ledger n v s' := by
  obtain ⟨books, active⟩ := books_step ledger.toBooks preempts
  exact ⟨books, by rw [active]; exact ledger.active⟩

end LedgerSteps

def initialised (n : Nat) (v : Int) : System N :=
  (bootSystem.withKernel (semInit bootKernel (some (.user n)) v).1).answer 0

theorem initialised_fresh {n : Nat} {v : Int} (nonneg : 0 ≤ v) (isInt : v ≤ intMax) :
    Fresh n v (initialised n v : System N) := by
  have c := boot_conserved (N := N) boot_booted
  have lists : tasks (bootSystem : System N).kernel = bootLists :=
    (boot_lists boot_booted).1.elems_eq
  have none : tasks (bootSystem : System N).kernel (.semQueue (.user n)) = [] := by rw [lists]; rfl
  have go : step (bootSystem : System N) (.call (.semInit (some n) v)) =
      some (.ok (initialised n v)) := rfl
  have permitted : Permitted (bootSystem : System N) (.call (.semInit (some n) v)) := none
  obtain ⟨_, kept, _, sem⟩ := semInit_kept c.placed none v
  refine ⟨(step_kept c permitted go).conserved, ?_, nonneg, isInt, ?_, ?_, fun _ => rfl,
    fun _ => rfl,
    fun _ => rfl, rfl⟩
  · simpa [initialised, System.answer, bootSystem, bootKernel, zeroedKernel] using sem
  · exact (congrFun kept (.semQueue (.user n))).trans none
  · intro t
    cases t <;> simp [initialised, System.answer, bootSystem, ctlClient, System.curr, System.goto,
      System.withKernel, semInit, bootKernel, zeroedKernel, Kernel.setSem]

/-- Runs to compute with: the conditions of Preempts and one more on every step. -/
def preemptGuard (n : Nat) (extra : System N → Label N → Prop) (s : System N) (l : Label N)
    (_ : System N) : Prop :=
  (Permitted s l ∧ Spares n l ∧ CounterFits n s l) ∧ extra s l

instance (n : Nat) (extra : System N → Label N → Prop) [∀ s l, Decidable (extra s l)]
    (s : System N) (l : Label N) (s' : System N) : Decidable (preemptGuard n extra s l s') :=
  inferInstanceAs (Decidable (_ ∧ _))

theorem exec_preempts {n : Nat} {extra : System N → Label N → Prop}
    [∀ s l, Decidable (extra s l)] {s s' : System N} {labels : List (Label N)}
    (done : exec (guardedStep (preemptGuard n extra)) s labels = some s') :
    Run (fun s l s' => Preempts n s l s' ∧ extra s l) s labels s' := by
  refine run_mono (fun s l s' next => ?_) (exec_guarded done)
  obtain ⟨go, ⟨permitted, spares, fits⟩, more⟩ := next
  exact ⟨⟨go, permitted, spares, fits⟩, more⟩

section Grants
variable {n : Nat} {v : Int} {s s' : System N}

omit [DecidableEq N] [Fintype N] in
theorem bound_le_inside (n : Nat) (c : Ctl N) : bound n c ≤ inside n c := by
  cases c with
  | semDown m point =>
    cases point with
    | leave w =>
      by_cases same : m = n
      · by_cases wait : w < 0 <;> simp [bound, inside, same, wait]
      · simp [bound, inside, same]
    | _ => by_cases same : m = n <;> simp [bound, inside, same]
  | _ => simp [bound, inside]

omit [DecidableEq N] [Fintype N] in
theorem raising_nonneg (n : Nat) (c : Ctl N) : 0 ≤ raising n c := by
  unfold raising
  split <;> (try split) <;> simp

/-- Whoever waits, or is about to wait, has not returned. -/
theorem waiting_is_inside (books : Books n v s) :
    (waiters n s).length + total (bound n) s ≤ total (inside n) s := by
  have nonneg : ∀ c : Ctl N, 0 ≤ inside n c - bound n c := fun c =>
    Int.sub_nonneg_of_le (bound_le_inside n c)
  have counted := length_le_tally (w := fun _ c => inside n c - bound n c) (c := s.ctl)
    (books.conserved.placed.wellFormed.ring (.semQueue (.user n))).nodup
    (fun t => nonneg (s.ctl t)) (fun t mem => by rw [books.waiting t mem]; simp [inside, bound])
  have split : tally (fun _ c => inside n c - bound n c) s.ctl =
      total (inside n) s - total (bound n) s := Finset.sum_sub_distrib _ _
  rw [split] at counted
  change ((tasks s.kernel (.semQueue (.user n))).length : Int) + _ ≤ _
  omega

theorem returns_are_backed (books : Books n v s) :
    sum (s.history.returned n) ≤ v + sum (s.history.incremented n) := by
  have grants := books.grants
  have waits := books.waits
  have before := waiting_is_inside books
  have raised : 0 ≤ total (raising n) s := tally_nonneg fun t => raising_nonneg n (s.ctl t)
  omega

end Grants

section Exclusion
variable {n : Nat} {v : Int} {s s' : System N}

/-- A task calls sem_down outside its critical section and sem_up inside it. -/
def Disciplined (n : Nat) (s : System N) : Label N → Prop
  | .call (.semDown (some m)) => m = n →
      s.history.returned n s.curr = s.history.started n s.curr
  | .call (.semUp (some m)) => m = n →
      s.history.returned n s.curr = s.history.started n s.curr + 1
  | _ => True

instance (n : Nat) (s : System N) (l : Label N) : Decidable (Disciplined n s l) := by
  unfold Disciplined
  rcases l with _ | _ | c | _ <;> try infer_instance
  rcases c with _ | _ <;> try infer_instance
  case semDown o | semUp o => rcases o with _ | _ <;> infer_instance

/-- Between the return of its sem_down and its call of sem_up. -/
def InCritical (n : Nat) (s : System N) (t : Tcb N) : Prop :=
  s.history.started n t < s.history.returned n t

def rising (n : Nat) : Ctl N → Nat
  | .semUp m .enter | .semUp m .update => if m = n then 1 else 0
  | _ => 0

omit [Fintype N] [DecidableEq N] in
theorem rising_off {c : Ctl N} (off : ctlClient c ≠ .semaphore n) : rising n c = 0 := by
  unfold rising
  split <;> simp_all [ctlClient]

structure Turn (n : Nat) (s : System N) (t : Tcb N) : Prop where
  account : s.history.started n t = s.history.incremented n t + rising n (s.ctl t)
  order : s.history.returned n t = s.history.started n t ∨
    s.history.returned n t = s.history.started n t + 1
  busy : ctlClient (s.ctl t) = .semaphore n →
    s.history.returned n t = s.history.started n t

theorem fresh_turn (fresh : Fresh n v s) (t : Tcb N) : Turn n s t := by
  refine ⟨?_, Or.inl ?_, fun inside => absurd inside (fresh.outside t)⟩
  · rw [fresh.started, fresh.incremented, rising_off (fresh.outside t)]
  · rw [fresh.returned, fresh.started]

theorem turn_framed {t : Tcb N} (turn : Turn n s t) (framed : Framed (.semaphore n) s s') :
    Turn n s' t := by
  have data : SemaphoreData n s s' := framed.data
  rcases framed.ctl t with same | ⟨before, after⟩
  · refine ⟨?_, ?_, ?_⟩
    · rw [data.started, data.incremented, same]; exact turn.account
    · rw [data.returned, data.started]; exact turn.order
    · rw [same, data.returned, data.started]; exact turn.busy
  · refine ⟨?_, ?_, fun inside => absurd inside after⟩
    · rw [data.started, data.incremented, rising_off after, turn.account, rising_off before]
    · rw [data.returned, data.started]; exact turn.order

omit [Fintype N] in
theorem turn_entry (turns : ∀ t, Turn n s t) {old new : Ctl N} (here : s.ctl s.curr = old)
    (a b c : Nat) (ctl : s'.ctl = Function.update s.ctl s.curr new)
    (returned : s'.history.returned n = Function.update (s.history.returned n) s.curr
      (s.history.returned n s.curr + a))
    (started : s'.history.started n = Function.update (s.history.started n) s.curr
      (s.history.started n s.curr + b))
    (incremented : s'.history.incremented n = Function.update (s.history.incremented n) s.curr
      (s.history.incremented n s.curr + c))
    (account : rising n old + b = rising n new + c)
    (order : s.history.returned n s.curr + a = s.history.started n s.curr + b ∨
      ctlClient new ≠ .semaphore n ∧
        s.history.returned n s.curr + a = s.history.started n s.curr + b + 1) :
    ∀ t, Turn n s' t := by
  subst here
  intro t
  have turn := turns t
  by_cases same : t = s.curr
  · subst same
    have before := turn.account
    refine ⟨?_, ?_, ?_⟩
    · rw [started, incremented, ctl, Function.update_self, Function.update_self,
        Function.update_self]
      omega
    · rw [returned, started, Function.update_self, Function.update_self]
      exact order.imp id And.right
    · rw [returned, started, ctl, Function.update_self, Function.update_self,
        Function.update_self]
      intro mine
      exact order.resolve_right fun out => out.1 mine
  · refine ⟨?_, ?_, ?_⟩
    · rw [started, incremented, ctl, Function.update_of_ne same, Function.update_of_ne same,
        Function.update_of_ne same]
      exact turn.account
    · rw [returned, started, Function.update_of_ne same, Function.update_of_ne same]
      exact turn.order
    · rw [returned, started, ctl, Function.update_of_ne same, Function.update_of_ne same,
        Function.update_of_ne same]
      exact turn.busy

omit [Fintype N] in
theorem turn_move (turns : ∀ t, Turn n s t) {old new : Ctl N} (here : s.ctl s.curr = old)
    (mine : ctlClient old = .semaphore n) (ctl : s'.ctl = Function.update s.ctl s.curr new)
    (returned : s'.history.returned = s.history.returned)
    (started : s'.history.started = s.history.started)
    (incremented : s'.history.incremented = s.history.incremented)
    (account : rising n old = rising n new) : ∀ t, Turn n s' t := by
  refine turn_entry turns here 0 0 0 ctl ?_ ?_ ?_ (by rw [account]) (Or.inl ?_)
  · rw [returned, Nat.add_zero, Function.update_eq_self]
  · rw [started, Nat.add_zero, Function.update_eq_self]
  · rw [incremented, Nat.add_zero, Function.update_eq_self]
  · exact (turns s.curr).busy (by rw [here]; exact mine)

omit [Fintype N] in
theorem turn_return (turns : ∀ t, Turn n s t) {point : DownPoint}
    (here : s.ctl s.curr = .semDown n point) (ctl : s'.ctl = Function.update s.ctl s.curr (.body 0))
    (returned : s'.history.returned = counted s.history.returned n s.curr)
    (started : s'.history.started = s.history.started)
    (incremented : s'.history.incremented = s.history.incremented) : ∀ t, Turn n s' t := by
  have level := (turns s.curr).busy (by rw [here]; rfl)
  refine turn_entry turns here 1 0 0 ctl ?_ ?_ ?_ (by simp [rising]) (Or.inr ?_)
  · rw [returned]; simp [counted]
  · rw [started, Nat.add_zero, Function.update_eq_self]
  · rw [incremented, Nat.add_zero, Function.update_eq_self]
  · exact ⟨by simp [ctlClient], by omega⟩

theorem turn_down (turns : ∀ t, Turn n s t) {point : DownPoint}
    (here : s.ctl s.curr = .semDown n point) (run : semDownStep s n point = .ok s') :
    ∀ t, Turn n s' t := by
  cases point with
  | enter =>
    simp only [semDownStep] at run
    split at run
    · cases run; exact turns
    · cases run
      exact turn_move turns here rfl rfl rfl rfl rfl (by simp [rising])
  | update =>
    cases run
    exact turn_move turns here rfl rfl rfl rfl rfl (by simp [rising])
  | leave w =>
    simp only [semDownStep] at run
    cases run
    split
    · exact turn_move turns here rfl rfl rfl rfl rfl (by simp [rising])
    · exact turn_return turns here rfl rfl rfl rfl
  | suspend =>
    obtain ⟨k, suspended, rfl⟩ := map_ok run
    exact turn_move turns here rfl rfl rfl rfl rfl (by simp [rising])
  | woken =>
    cases run
    exact turn_return turns here rfl rfl rfl rfl

theorem turn_up (turns : ∀ t, Turn n s t) {point : UpPoint}
    (here : s.ctl s.curr = .semUp n point) (conserved : Conserved s)
    (run : semUpStep s n point = .ok s') : ∀ t, Turn n s' t := by
  cases point with
  | enter =>
    simp only [semUpStep] at run
    split at run
    · cases run; exact turns
    · cases run
      exact turn_move turns here rfl rfl rfl rfl rfl (by simp [rising])
  | update =>
    cases run
    have level := (turns s.curr).busy (by rw [here]; rfl)
    refine turn_entry turns here 0 0 1 rfl ?_ ?_ ?_ (by simp [rising]) (Or.inl level)
    · rw [Nat.add_zero, Function.update_eq_self]
    · rw [Nat.add_zero, Function.update_eq_self]
    · simp [counted]
  | leave w =>
    cases run
    exact turn_move turns here rfl rfl rfl rfl rfl (by simp [rising])
  | test w =>
    simp only [semUpStep] at run
    split at run
    · split at run
      · cases run
        exact turn_move turns here rfl rfl rfl rfl rfl (by simp [rising])
      · cases run
        exact turn_move turns here rfl rfl rfl rfl rfl (by simp [rising])
    · cases run
      exact turn_move turns here rfl rfl rfl rfl rfl (by simp [rising])
  | resume =>
    obtain ⟨k, resumed, rfl⟩ := map_ok run
    rw [conserved.placed.wellFormed.head] at resumed
    rcases waiting : tasks s.kernel (.semQueue (.user n)) with _ | ⟨t, rest⟩
    · rw [waiting] at resumed; cases resumed
    · rw [waiting, List.head?_cons] at resumed
      obtain ⟨m, known, _⟩ := resume_kept conserved.placed (t := t)
        (q := .semQueue (.user n)) (by rw [waiting]; simp)
      rw [known, Except.ok.injEq] at resumed
      subst resumed
      exact turn_move turns here rfl rfl rfl rfl rfl (by simp [rising])

theorem turn_step {l : Label N} (ledger : Ledger n v s) (turns : ∀ t, Turn n s t)
    (preempts : Preempts n s l s') (disciplined : Disciplined n s l) : ∀ t, Turn n s' t := by
  have ok := step_kept ledger.conserved preempts.2.1 preempts.1
  by_cases mine : client s l = .semaphore n
  · rcases semaphore_step mine preempts.1 preempts.2.2.1 with
      ⟨code, body, rfl, rfl⟩ | ⟨code, body, rfl, rfl⟩ | ⟨point, m₁, m₂, here, rfl, run⟩ |
      ⟨point, m₁, m₂, here, rfl, run⟩
    · have level : s.history.returned n s.curr = s.history.started n s.curr := disciplined rfl
      rw [semDownCall, if_neg ledger.active]
      refine turn_entry turns body 0 0 0 rfl ?_ ?_ ?_ (by simp [rising]) (Or.inl level)
      · rw [Nat.add_zero, Function.update_eq_self]; rfl
      · rw [Nat.add_zero, Function.update_eq_self]; rfl
      · rw [Nat.add_zero, Function.update_eq_self]; rfl
    · have ahead : s.history.returned n s.curr = s.history.started n s.curr + 1 := disciplined rfl
      rw [semUpCall, if_neg ledger.active]
      refine turn_entry turns body 0 1 0 rfl ?_ ?_ ?_ (by simp [rising]) (Or.inl ahead)
      · rw [Nat.add_zero, Function.update_eq_self]
      · simp [counted]
      · rw [Nat.add_zero, Function.update_eq_self]
    · exact turn_down turns here run
    · exact turn_up turns here ledger.conserved run
  · exact fun t => turn_framed (turns t) (ok.framed _ (by simp) (Ne.symm mine))

/-- With one unit, two tasks in their critical sections would be two returns without an increment
    between them. -/
theorem critical_is_exclusive (ledger : Ledger n 1 s) (turns : ∀ t, Turn n s t) {t u : Tcb N}
    (first : InCritical n s t) (second : InCritical n s u) : t = u := by
  by_contra ne
  have backed := returns_are_backed ledger.toBooks
  have nonneg : ∀ a, 0 ≤ (s.history.returned n a : Int) - s.history.started n a := by
    intro a
    rcases (turns a).order with level | ahead <;> omega
  have pair := two_le_tally (w := fun a (_ : Ctl N) =>
    (s.history.returned n a : Int) - s.history.started n a) (c := s.ctl) nonneg ne
  have split : tally (fun a (_ : Ctl N) => (s.history.returned n a : Int) -
      s.history.started n a) s.ctl = sum (s.history.returned n) - sum (s.history.started n) :=
    Finset.sum_sub_distrib _ _
  have later : sum (s.history.incremented n) ≤ sum (s.history.started n) := by
    refine Finset.sum_le_sum fun a _ => ?_
    have account := (turns a).account
    omega
  simp only [InCritical] at first second
  rw [split] at pair
  omega

end Exclusion

/-- Whatever the timer does, every return of sem_down is backed by the initial value or an
    increment; with one unit and disciplined tasks the critical section is exclusive. -/
theorem returns_never_exceed_units {n : Nat} {v : Int} {s : System N} (fresh : Fresh n v s) :
    (∀ s' labels, Run (Preempts n) s labels s' →
      ∑ t, (s'.history.returned n t : Int) ≤ v + ∑ t, (s'.history.incremented n t : Int)) ∧
    (v = 1 → ∀ s' labels,
      Run (fun s l s' => Preempts n s l s' ∧ Disciplined n s l) s labels s' →
      ∀ t u, InCritical n s' t → InCritical n s' u → t = u) := by
  constructor
  · intro s' labels run
    have ledger := run_invariant (Ledger n v)
      (fun _ _ _ ledger preempts => ledger_step ledger preempts) run (fresh_ledger fresh)
    exact returns_are_backed ledger.toBooks
  · rintro rfl s' labels run t u first second
    obtain ⟨ledger, turns⟩ := run_invariant (fun s => Ledger n 1 s ∧ ∀ t, Turn n s t)
      (fun _ _ _ both step => ⟨ledger_step both.1 step.1,
        turn_step both.1 both.2 step.1 step.2⟩) run ⟨fresh_ledger fresh, fresh_turn fresh⟩
    exact critical_is_exclusive ledger turns first second

/-- main is preempted inside its sem_down; once it has the unit, the other task waits for it, and
    is woken by the sem_up of main. -/
def contended : List (Label (Fin 1)) :=
  [Label.call (.taskInit (.user 0) true), .call (.semDown (some 0))] ++
  List.replicate 2 (Label.run true true) ++ List.replicate 10 Label.tick ++
  List.replicate 5 (Label.run true true) ++
  [Label.call (.taskSwitch (some (.user 0))), .call (.semDown (some 0))] ++
  List.replicate 9 (Label.run true true) ++ [Label.call (.semUp (some 0))] ++
  List.replicate 5 (Label.run true true) ++
  [Label.call (.taskSwitch (some (.user 0))), .run true true]

theorem contended_unit_is_backed : ∃ s' : System (Fin 1),
    Run (fun s l s' => Preempts 0 s l s' ∧ Disciplined 0 s l) (initialised 0 1) contended s' ∧
    s'.history.returned 0 .mainTask = 1 ∧ InCritical 0 s' (.user 0) ∧
    ∑ t, (s'.history.returned 0 t : Int) ≤ 1 + ∑ t, (s'.history.incremented 0 t : Int) ∧
    ∀ t u, InCritical 0 s' t → InCritical 0 s' u → t = u := by
  have fresh := initialised_fresh (N := Fin 1) (n := 0) (v := 1) (by decide) (by decide)
  obtain ⟨bounded, exclusive⟩ := returns_never_exceed_units fresh
  obtain ⟨s', found, first, second⟩ := exec_reaches (guardedStep (preemptGuard 0 (Disciplined 0)))
    (initialised 0 1 : System (Fin 1)) contended (fun s => s.history.returned 0 .mainTask = 1 ∧
      s.history.started 0 (.user 0) < s.history.returned 0 (.user 0)) (by decide +kernel)
  have run := exec_preempts found
  exact ⟨s', run, first, second, bounded s' _ (run_mono (fun _ _ _ both => both.1) run),
    exclusive rfl s' _ run⟩

section Wakeups
variable {n : Nat} {v : Int} {s s' : System N}

/-- Not in the middle of a sem_down or sem_up; a task may wait in the queue. -/
def Settled (n : Nat) : Ctl N → Prop
  | .semDown _ .woken => True
  | .semDown m _ | .semUp m _ => m ≠ n
  | _ => True

instance (n : Nat) (c : Ctl N) : Decidable (Settled n c) := by
  unfold Settled
  split <;> infer_instance

def Quiescent (n : Nat) (s : System N) : Prop := ∀ t, Settled n (s.ctl t)

/-- The running task is a sem_up that owes a wake-up and finds nobody in the queue. -/
def TestsEmpty (n : Nat) (s : System N) : Label N → Prop
  | .run _ _ => match s.ctl s.curr with
      | .semUp m (.test v) => m = n ∧ v ≤ 0 ∧ waiters n s = []
      | _ => False
  | _ => False

omit [DecidableEq N] [Fintype N] in
theorem settled_bound {c : Ctl N} (settled : Settled n c) : bound n c = 0 := by
  unfold bound
  split <;> simp_all [Settled]

omit [DecidableEq N] [Fintype N] in
theorem settled_raising {c : Ctl N} (settled : Settled n c) : raising n c = 0 := by
  unfold raising
  split <;> simp_all [Settled]

theorem tests_are_mine {l : Label N} (tests : TestsEmpty n s l) : client s l = .semaphore n := by
  cases l with
  | run m₁ m₂ =>
    simp only [TestsEmpty] at tests
    split at tests
    · rename_i m w here
      simp only [client, here, ctlClient, tests.1]
    · exact tests.elim
  | _ => exact tests.elim

theorem emptyTests_step {l : Label N} (ledger : Ledger n v s) (preempts : Preempts n s l s') :
    (TestsEmpty n s l → s'.history.emptyTests n = s.history.emptyTests n + 1) ∧
      (¬ TestsEmpty n s l → s'.history.emptyTests n = s.history.emptyTests n) := by
  have ok := step_kept ledger.conserved preempts.2.1 preempts.1
  by_cases mine : client s l = .semaphore n
  · rcases semaphore_step mine preempts.1 preempts.2.2.1 with
      ⟨code, body, rfl, rfl⟩ | ⟨code, body, rfl, rfl⟩ | ⟨point, m₁, m₂, here, rfl, run⟩ |
      ⟨point, m₁, m₂, here, rfl, run⟩
    · rw [semDownCall, if_neg ledger.active]
      exact ⟨fun tests => tests.elim, fun _ => rfl⟩
    · rw [semUpCall, if_neg ledger.active]
      exact ⟨fun tests => tests.elim, fun _ => rfl⟩
    · refine ⟨fun tests => by simp [TestsEmpty, here] at tests, fun _ => ?_⟩
      cases point with
      | enter =>
        simp only [semDownStep] at run
        split at run <;> cases run <;> rfl
      | update => cases run; rfl
      | leave w =>
        simp only [semDownStep] at run
        cases run
        split <;> rfl
      | suspend =>
        obtain ⟨k, _, rfl⟩ := map_ok run
        rfl
      | woken => cases run; rfl
    · simp only [TestsEmpty, here]
      cases point with
      | enter =>
        simp only [semUpStep] at run
        refine ⟨fun tests => tests.elim, fun _ => ?_⟩
        split at run <;> cases run <;> rfl
      | update => cases run; exact ⟨fun tests => tests.elim, fun _ => rfl⟩
      | leave w => cases run; exact ⟨fun tests => tests.elim, fun _ => rfl⟩
      | test w =>
        have head := ledger.conserved.placed.wellFormed.head (.semQueue (.user n))
        simp only [semUpStep] at run
        split at run
        · rename_i owed
          split at run
          · rename_i found
            cases run
            refine ⟨fun tests => absurd ?_ found, fun _ => rfl⟩
            have empty : tasks s.kernel (.semQueue (.user n)) = [] := tests.2.2
            rw [head, empty]
            rfl
          · rename_i missing
            have empty : waiters n s = [] := by
              rw [head] at missing
              exact List.head?_eq_none_iff.mp (not_not.mp missing)
            cases run
            exact ⟨fun _ => by simp, fun no => absurd ⟨rfl, owed, empty⟩ no⟩
        · rename_i free
          cases run
          exact ⟨fun tests => absurd tests.2.1 free, fun _ => rfl⟩
      | resume =>
        obtain ⟨k, _, rfl⟩ := map_ok run
        exact ⟨fun tests => tests.elim, fun _ => rfl⟩
  · have data : SemaphoreData n s s' := (ok.framed _ (by simp) (Ne.symm mine)).data
    exact ⟨fun tests => absurd (tests_are_mine tests) mine, fun _ => data.emptyTests⟩

/-- The queue of a quiescent state, where it may be longer than the counter says. -/
theorem quiescent_queue (ledger : Ledger n v s) (quiet : Quiescent n s) :
    ((waiters n s).length : Int) = max 0 (-value n s) + s.history.emptyTests n := by
  have waits := ledger.waits
  have noBound : total (bound n) s = 0 := tally_zero fun t => settled_bound (quiet t)
  have noRaising : total (raising n) s = 0 := tally_zero fun t => settled_raising (quiet t)
  omega

theorem run_ledger {labels : List (Label N)} (ledger : Ledger n v s)
    (run : Run (Preempts n) s labels s') : Ledger n v s' :=
  run_invariant (Ledger n v) (fun _ _ _ ledger preempts => ledger_step ledger preempts) run ledger

theorem clean_run {labels : List (Label N)} (ledger : Ledger n v s)
    (none : s.history.emptyTests n = 0)
    (run : Run (fun s l s' => Preempts n s l s' ∧ ¬ TestsEmpty n s l) s labels s') :
    Ledger n v s' ∧ s'.history.emptyTests n = 0 := by
  refine run_invariant (fun s => Ledger n v s ∧ s.history.emptyTests n = 0) ?_ run ⟨ledger, none⟩
  intro s l s' ⟨ledger, none⟩ ⟨preempts, clean⟩
  refine ⟨ledger_step ledger preempts, ?_⟩
  rw [(emptyTests_step ledger preempts).2 clean, none]

theorem run_is_clean {labels : List (Label N)} (ledger : Ledger n v s)
    (run : Run (Preempts n) s labels s') (none : s'.history.emptyTests n = 0) :
    Run (fun s l s' => Preempts n s l s' ∧ ¬ TestsEmpty n s l) s labels s' := by
  induction run with
  | start => exact .start _
  | step before last ih =>
    obtain ⟨counts, skips⟩ := emptyTests_step (run_ledger ledger before) last
    have clean : ¬ TestsEmpty n _ _ := fun tests => by
      have more := counts tests
      omega
    exact .step (ih (by rw [← skips clean]; exact none)) ⟨last, clean⟩

end Wakeups

/-- The queue agrees with the counter in a quiescent state exactly when no sem_up has tested it
    empty while it owed a wake-up; the timer may strike anywhere. -/
theorem waiters_match_counter {n : Nat} {v : Int} {s s' : System N} {labels : List (Label N)}
    (fresh : Fresh n v s) (run : Run (Preempts n) s labels s') (quiet : Quiescent n s') :
    (((waiters n s').length : Int) = max 0 (-value n s') ↔
      Run (fun s l s' => Preempts n s l s' ∧ ¬ TestsEmpty n s l) s labels s') ∧
    (Run (fun s l s' => Preempts n s l s' ∧ ¬ TestsEmpty n s l) s labels s' →
      0 ≤ value n s' → waiters n s' = []) := by
  have ledger := fresh_ledger fresh
  have queue := quiescent_queue (run_ledger ledger run) quiet
  constructor
  · constructor
    · intro agree
      exact run_is_clean ledger run (by omega)
    · intro clean
      have none := (clean_run ledger fresh.emptyTests clean).2
      omega
  · intro clean free
    have none := (clean_run ledger fresh.emptyTests clean).2
    exact List.eq_nil_of_length_eq_zero (by omega)

theorem one_waiter_matches : ∃ (s' : System (Fin 1)) (labels : List (Label (Fin 1))),
    waiters 0 s' = [.mainTask] ∧ (((waiters 0 s').length : Int) = max 0 (-value 0 s') ↔
      Run (fun s l s' => Preempts 0 s l s' ∧ ¬ TestsEmpty 0 s l) (initialised 0 0) labels s') := by
  have fresh := initialised_fresh (N := Fin 1) (n := 0) (v := 0) (by decide) (by decide)
  obtain ⟨s', found, quiet, waiting⟩ := exec_reaches
    (guardedStep (preemptGuard 0 fun _ _ => True)) (initialised 0 0 : System (Fin 1))
    ([Label.call (.semDown (some 0))] ++ List.replicate 4 (Label.run true true))
    (fun s => (∀ a, Settled 0 (s.ctl a)) ∧ waiters 0 s = [.mainTask]) (by decide +kernel)
  have run := run_mono (fun _ _ _ both => both.1) (exec_preempts found)
  exact ⟨s', _, waiting, (waiters_match_counter fresh run quiet).1⟩

/-- The timer may not strike inside 'decrement under lock', 'increment under lock' and 'test the
    queue and resume its head'. -/
def Indivisible (n : Nat) (s : System N) : Label N → Prop
  | .tick | .completion => match s.ctl s.curr with
      | .semDown m .update | .semDown m (.leave _) => m ≠ n
      | .semUp m .update | .semUp m (.leave _) | .semUp m .resume => m ≠ n
      | _ => True
  | _ => True

instance (n : Nat) (s : System N) (l : Label N) : Decidable (Indivisible n s l) := by
  unfold Indivisible
  generalize s.ctl s.curr = c
  rcases l with _ | _ | _ | _ <;> try infer_instance
  all_goals
    rcases c with _ | _ <;> try infer_instance
    case semDown point | semUp point => rcases point with _ | _ <;> infer_instance

/-- A task decrements the counter to -1 and is preempted; main increments it to 0 and finds the
    queue empty; the task suspends itself and nobody will wake it. -/
def lostWakeup : List (Label (Fin 1)) :=
  [Label.call (.taskInit (.user 0) true), .call (.taskSwitch (some (.user 0))),
   .call (.semDown (some 0)), .run true true, .run true true, .run true true] ++
  List.replicate 10 Label.tick ++ List.replicate 4 (Label.run true true) ++
  [Label.call (.semUp (some 0)), .run true true, .run true true, .run true true, .run true true,
   .call (.taskSwitch (some (.user 0))), .run true true]

theorem wakeup_is_lost :
    ¬ ∀ (s s' : System (Fin 1)) (labels : List (Label (Fin 1))), Fresh 0 0 s →
      Run (fun s l s' => Preempts 0 s l s' ∧ Indivisible 0 s l) s labels s' →
      Quiescent 0 s' → ((waiters 0 s').length : Int) = max 0 (-value 0 s') := by
  intro claim
  obtain ⟨s', found, quiet, blocked, zero⟩ := exec_reaches
    (guardedStep (preemptGuard 0 (Indivisible 0))) (initialised 0 0) lostWakeup
    (fun t => (∀ a, Settled 0 (t.ctl a)) ∧ (waiters 0 t).length = 1 ∧ value 0 t = 0)
    (by decide +kernel)
  have agree := claim _ _ _ (initialised_fresh (by decide) (by decide)) (exec_preempts found) quiet
  rw [blocked, zero] at agree
  cases agree

end SemaphorePreemption
