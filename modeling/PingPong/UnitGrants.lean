import PingPong.SemaphorePreemption

/-!
sem_down and sem_up on a semaphore that may be destroyed. A task that sleeps in sem_down cannot
tell sem_destroy from sem_up: it returns 0 whoever has woken it.
-/
namespace UnitGrants
open MachineModel CircularList QueueModel KernelModel KernelEffects TaskPlacement SystemModel
open SystemFrames TransitionRuns FiniteTally SemaphorePreemption
variable {N : Type} [DecidableEq N] [Fintype N]

def InitOnce (n : Nat) : Label N → Prop
  | .call (.semInit (some m) _) => m ≠ n
  | _ => True

/-- sem_destroy finds nobody in the queue. -/
def Vacant (n : Nat) (s : System N) : Label N → Prop
  | .call (.semDestroy (some m)) =>
      m = n → (s.kernel.sem (.user n)).active ≠ 0 → waiters n s = []
  | _ => True

/-- Calls of sem_down, sem_up and sem_destroy, wherever the timer strikes. -/
def Calls (n : Nat) (s : System N) (l : Label N) (s' : System N) : Prop :=
  step s l = some (.ok s') ∧ Permitted s l ∧ InitOnce n l ∧ CounterFits n s l

instance (n : Nat) (l : Label N) : Decidable (InitOnce n l) := by
  unfold InitOnce
  rcases l with _ | _ | c | _ <;> try infer_instance
  rcases c with _ | _ <;> try infer_instance
  case semInit o _ => rcases o with _ | _ <;> infer_instance

instance (n : Nat) (s : System N) (l : Label N) : Decidable (Vacant n s l) := by
  unfold Vacant
  rcases l with _ | _ | c | _ <;> try infer_instance
  rcases c with _ | _ <;> try infer_instance
  case semDestroy o => rcases o with _ | _ <;> infer_instance

section Steps
variable {n : Nat} {v : Int} {s s' : System N} {l : Label N}

theorem destroy_vacant (c : Conserved s) (active : (s.kernel.sem (.user n)).active ≠ 0)
    (vacant : waiters n s = []) :
    call s (.semDestroy (some n)) =
      .ok ((s.withKernel (s.kernel.setSem (.user n) fun x =>
        { x with active := 0 })).answer 0) := by
  have head : s.kernel.queues.head (.semQueue (.user n)) = none := by
    rw [c.placed.wellFormed.head]
    exact List.head?_eq_none_iff.mpr vacant
  have drained : ∀ fuel, drainQueue (.semQueue (.user n)) fuel
      (s.kernel.setSem (.user n) fun x => { x with active := 0 }) =
        .ok (s.kernel.setSem (.user n) fun x => { x with active := 0 }) := by
    intro fuel
    cases fuel <;> simp [drainQueue, head]
  simp [call, semDestroy, active, drained, Except.map]

theorem destroy_closed (closed : (s.kernel.sem (.user n)).active = 0) :
    call s (.semDestroy (some n)) = .ok (s.answer (-1)) := by
  simp [call, semDestroy, closed, Except.map]
  rfl

theorem calls_step (books : Books n v s) (go : Calls n s l s') (vacant : Vacant n s l) :
    Books n v s' ∧ ((s.kernel.sem (.user n)).active = 0 →
      (s'.kernel.sem (.user n)).active = 0) := by
  obtain ⟨run, permitted, once, fits⟩ := go
  by_cases spares : Spares n l
  · obtain ⟨next, active⟩ := books_step books ⟨run, permitted, spares, fits⟩
    exact ⟨next, fun closed => by rw [active]; exact closed⟩
  · have conserved := (step_kept books.conserved permitted run).conserved
    obtain ⟨code, body, rfl, destroys⟩ : ∃ code, s.ctl s.curr = .body code ∧
        l = .call (.semDestroy (some n)) ∧ call s (.semDestroy (some n)) = .ok s' := by
      unfold Spares at spares
      split at spares
      · rename_i m w
        exact absurd once spares
      · rename_i m
        obtain rfl := not_not.mp spares
        obtain ⟨code, body, run⟩ := call_runs run
        exact ⟨code, body, rfl, run⟩
      · exact absurd trivial spares
    by_cases closed : (s.kernel.sem (.user n)).active = 0
    · rw [destroy_closed closed] at destroys
      cases destroys
      refine ⟨?_, fun _ => closed⟩
      exact books_keep books conserved body rfl rfl (fun t mem => Or.inl mem)
        (by simp [inside, System.answer]) rfl (by simp [waiters, bound, raising, System.answer])
    · rw [destroy_vacant books.conserved closed (vacant rfl closed)] at destroys
      cases destroys
      refine ⟨?_, fun closed' => absurd closed' closed⟩
      exact books_write (fun x => { x with active := 0 }) (value n s) books conserved body rfl rfl
        rfl books.range (by simp [inside, System.answer])
        (by simp [bound, raising]) rfl

theorem calls_run {s₀ : System N} {labels : List (Label N)} (books : Books n v s₀)
    (run : Run (fun s l s' => Calls n s l s' ∧ Vacant n s l) s₀ labels s) :
    Books n v s ∧ ((s₀.kernel.sem (.user n)).active = 0 →
      (s.kernel.sem (.user n)).active = 0) := by
  refine run_invariant (fun s => Books n v s ∧ ((s₀.kernel.sem (.user n)).active = 0 →
    (s.kernel.sem (.user n)).active = 0)) ?_ run ⟨books, id⟩
  rintro a l b ⟨earlier, closed⟩ ⟨go, vacant⟩
  obtain ⟨next, stays⟩ := calls_step earlier go vacant
  exact ⟨next, fun before => stays (closed before)⟩

end Steps

section Destruction
variable {n : Nat} {s s₁ s₂ : System N}

/-- A sem_destroy that finds the semaphore in use. -/
def Destroys (n : Nat) (s s₁ : System N) : Prop :=
  (s.kernel.sem (.user n)).active ≠ 0 ∧ Calls n s (.call (.semDestroy (some n))) s₁

/-- A task that was blocked at the time of s returns a negative result, and so does a new call. -/
def ToldLater (n : Nat) (s s₂ : System N) : Prop :=
  (∀ m₁ m₂ s₃ code, s₂.curr ∈ waiters n s → s₂.ctl s₂.curr = .semDown n .woken →
    step s₂ (.run m₁ m₂) = some (.ok s₃) → s₃.ctl s₂.curr = .body code → code < 0) ∧
  ∀ s₃, step s₂ (.call (.semDown (some n))) = some (.ok s₃) → s₃ = s₂.answer (-1)

theorem destroys_closes (c : Conserved s) (destroys : Destroys n s s₁)
    (vacant : waiters n s = []) : (s₁.kernel.sem (.user n)).active = 0 := by
  obtain ⟨active, run, _⟩ := destroys
  obtain ⟨-, -, run⟩ := call_runs run
  rw [destroy_vacant c active vacant] at run
  cases run
  change ((s.kernel.setSem (.user n) fun x => { x with active := 0 }).sem (.user n)).active = 0
  rw [Kernel.setSem_same]

theorem closed_refuses (closed : (s₂.kernel.sem (.user n)).active = 0) {s₃ : System N}
    (run : step s₂ (.call (.semDown (some n))) = some (.ok s₃)) : s₃ = s₂.answer (-1) := by
  obtain ⟨-, -, run⟩ := call_runs run
  simp only [call, semDownCall, closed, ↓reduceIte] at run
  cases run
  rfl

end Destruction

/-- At every moment no more calls of sem_down have returned 0 than there are units, and
    sem_destroy is noticed by those who were blocked and by those who come later. -/
theorem returns_are_granted {n : Nat} {v : Int} {s₀ s : System N} {labels : List (Label N)}
    (fresh : Fresh n v s₀) (run : Run (fun s l s' => Calls n s l s' ∧ Vacant n s l) s₀ labels s) :
    ∑ t, (s.history.returned n t : Int) ≤ v + ∑ t, (s.history.incremented n t : Int) ∧
    ∀ s₁ s₂ more, Destroys n s s₁ → Vacant n s (.call (.semDestroy (some n))) →
      Run (fun s l s' => Calls n s l s' ∧ Vacant n s l) s₁ more s₂ → ToldLater n s s₂ := by
  obtain ⟨books, -⟩ := calls_run (fresh_ledger fresh).toBooks run
  refine ⟨returns_are_backed books, fun s₁ s₂ more destroys vacant later => ?_⟩
  have none := vacant rfl destroys.1
  have books₁ := (calls_step books destroys.2 vacant).1
  have closed := (calls_run books₁ later).2 (destroys_closes books.conserved destroys none)
  refine ⟨fun m₁ m₂ s₃ code blocked => ?_, fun s₃ => closed_refuses closed⟩
  rw [none] at blocked
  cases blocked

abbrev callGuard (n : Nat) (s : System N) (l : Label N) : Prop :=
  Permitted s l ∧ InitOnce n l ∧ CounterFits n s l

theorem unused_semaphore_is_destroyed : ∃ s s₁ : System (Fin 1),
    Run (fun s l s' => Calls 0 s l s' ∧ Vacant 0 s l) (initialised 0 1)
      ([.call (.semDown (some 0))] ++ List.replicate 3 (.run true true)) s ∧
    ∑ t, (s.history.returned 0 t : Int) ≤ 1 + ∑ t, (s.history.incremented 0 t : Int) ∧
    Destroys 0 s s₁ ∧ ToldLater 0 s s₁ := by
  let guard (s : System (Fin 1)) (l : Label (Fin 1)) (_ : System (Fin 1)) : Prop :=
    callGuard 0 s l ∧ Vacant 0 s l
  obtain ⟨s, found, active, vacant, more⟩ := exec_reaches (guardedStep guard) (initialised 0 1)
    ([.call (.semDown (some 0))] ++ List.replicate 3 (.run true true))
    (fun s => (s.kernel.sem (.user 0)).active ≠ 0 ∧ waiters 0 s = [] ∧
      (guardedStep guard s (.call (.semDestroy (some 0)))).isSome) (by decide +kernel)
  obtain ⟨s₁, last⟩ := Option.isSome_iff_exists.mp more
  have run : Run (fun s l s' => Calls 0 s l s' ∧ Vacant 0 s l) (initialised 0 1)
      ([.call (.semDown (some 0))] ++ List.replicate 3 (.run true true)) s :=
    run_mono (fun _ _ _ next => ⟨⟨next.1, next.2.1⟩, next.2.2⟩) (exec_guarded found)
  have destroys : Destroys 0 s s₁ := ⟨active, (guardedStep_eq last).1, (guardedStep_eq last).2.1⟩
  obtain ⟨granted, told⟩ := returns_are_granted (initialised_fresh (by decide) (by decide)) run
  exact ⟨s, s₁, run, granted, destroys,
    told s₁ s₁ [] destroys (fun _ _ => vacant) (.start s₁)⟩

def blockedTask : List (Label (Fin 1)) :=
  [Label.call (.taskInit (.user 0) true), .call (.taskSwitch (some (.user 0))),
    .call (.semDown (some 0))] ++ List.replicate 8 (Label.run true true)

theorem blocked_task_returns_zero :
    (¬ ∀ (s₀ s : System (Fin 1)) (labels : List (Label (Fin 1))), Fresh 0 0 s₀ →
      Run (Calls 0) s₀ labels s →
      ∑ t, (s.history.returned 0 t : Int) ≤ 0 + ∑ t, (s.history.incremented 0 t : Int)) ∧
    ¬ ∀ (s₀ s s₁ s₂ : System (Fin 1)) (labels more : List (Label (Fin 1))), Fresh 0 0 s₀ →
      Run (Calls 0) s₀ labels s → Destroys 0 s s₁ → Run (Calls 0) s₁ more s₂ →
      ToldLater 0 s s₂ := by
  have fresh := initialised_fresh (N := Fin 1) (n := 0) (v := 0) (by decide) (by decide)
  constructor
  · intro claim
    obtain ⟨s, found, returned, none⟩ := exec_reaches
      (guardedStep fun s l _ => callGuard 0 s l) (initialised 0 0)
      (blockedTask ++ [.call (.semDestroy (some 0)), .call (.taskSwitch (some (.user 0))),
        .run true true])
      (fun s => ∑ t, (s.history.returned 0 t : Int) = 1 ∧
        ∑ t, (s.history.incremented 0 t : Int) = 0) (by decide +kernel)
    have run : Run (Calls 0) (initialised 0 0) _ s := exec_guarded found
    have bound := claim _ _ _ fresh run
    omega
  · intro claim
    obtain ⟨s, found, blocked, active, more⟩ := exec_reaches
      (guardedStep fun s l _ => callGuard 0 s l) (initialised 0 0) blockedTask
      (fun s => waiters 0 s = [.user 0] ∧ (s.kernel.sem (.user 0)).active ≠ 0 ∧
        ((guardedStep (fun s l _ => callGuard 0 s l) s (.call (.semDestroy (some 0)))).bind
          fun s₁ => guardedStep (fun s l _ => callGuard 0 s l) s₁
            (.call (.taskSwitch (some (.user 0))))).any
          (fun s₂ => decide (s₂.curr = .user 0 ∧ s₂.ctl (.user 0) = .semDown 0 .woken)) = true)
      (by decide +kernel)
    obtain ⟨s₂, reached, here⟩ := Option.any_eq_true _ _ |>.mp more
    obtain ⟨s₁, destroyed, switched⟩ := Option.bind_eq_some_iff.mp reached
    obtain ⟨curr, woken⟩ := of_decide_eq_true here
    have told := (claim _ s s₁ s₂ _ _ fresh (exec_guarded found)
      ⟨active, guardedStep_eq destroyed⟩ (run_one (guardedStep_eq switched))).1
    have returns : step s₂ (.run true true) = some (.ok (semDownReturn s₂ 0)) := by
      simp [step, advance, curr, woken, semDownStep]
    have negative := told true true _ 0 (by rw [curr, blocked]; simp) (by rw [curr]; exact woken)
      returns (Function.update_self _ _ _)
    exact absurd negative (by decide)

end UnitGrants
