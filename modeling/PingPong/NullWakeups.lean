import PingPong.SemaphorePreemption

/-!
sem_up reads s->queue twice, outside its lock: once to find out that somebody waits, and once
for the task to resume. Several calls that have passed the test share the waiters between them.
-/
namespace NullWakeups
open MachineModel CircularList QueueModel KernelModel KernelEffects TaskPlacement SystemModel
open SystemFrames TransitionRuns FiniteTally SemaphorePreemption
variable {N : Type} [DecidableEq N] [Fintype N]

section Resuming

/-- A sem_up that has found a waiter and is about to resume the head of the queue. -/
def resuming (n : Nat) : Ctl N → Int
  | .semUp m .resume => if m = n then 1 else 0
  | _ => 0

/-- Calls on a semaphore that is not initialised or destroyed again. -/
def Uses (n : Nat) (s : System N) (l : Label N) (s' : System N) : Prop :=
  step s l = some (.ok s') ∧ Permitted s l ∧ Spares n l

/-- The test of sem_up finds more waiters than there are calls that have passed it already. -/
def Covered (n : Nat) (s : System N) : Label N → Prop
  | .run _ _ => match s.ctl s.curr with
      | .semUp m (.test v) => m = n → v ≤ 0 → waiters n s ≠ [] →
          total (resuming n) s < (waiters n s).length
      | _ => True
  | _ => True

/-- Every call that is about to resume a task has a waiter of its own. -/
structure Manned (n : Nat) (s : System N) : Prop where
  conserved : Conserved s
  enough : total (resuming n) s ≤ (waiters n s).length

variable {n : Nat} {v : Int} {s s' : System N} {l : Label N}

omit [DecidableEq N] [Fintype N] in
theorem resuming_off {c : Ctl N} (off : ctlClient c ≠ .semaphore n) : resuming n c = 0 := by
  unfold resuming
  split
  · rename_i m
    simp only [ctlClient, ne_eq, Client.semaphore.injEq] at off
    exact if_neg off
  · rfl

omit [DecidableEq N] [Fintype N] in
theorem resuming_nonneg (c : Ctl N) : 0 ≤ resuming n c := by
  unfold resuming
  split
  · split <;> simp
  · simp

theorem fresh_manned (fresh : Fresh n v s) : Manned n s := by
  have none : total (resuming n) s = 0 := tally_zero fun t => resuming_off (fresh.outside t)
  refine ⟨fresh.conserved, ?_⟩
  rw [none]
  omega

theorem manned_framed (inv : Manned n s) (conserved : Conserved s')
    (framed : Framed (.semaphore n) s s') : Manned n s' := by
  have queue : waiters n s' = waiters n s := framed.lists (.semQueue (.user n)) (by simp) rfl
  refine ⟨conserved, ?_⟩
  rw [queue, total_framed (fun _ => resuming_off) framed]
  exact inv.enough

theorem manned_entry (inv : Manned n s) (conserved : Conserved s') {old new : Ctl N}
    (here : s.ctl s.curr = old) (ctl : s'.ctl = Function.update s.ctl s.curr new)
    (kept : (waiters n s).length - resuming n old ≤
      ((waiters n s').length - resuming n new : Int)) : Manned n s' := by
  subst here
  refine ⟨conserved, ?_⟩
  have enough := inv.enough
  rw [total_update _ ctl]
  omega

theorem manned_down (inv : Manned n s) (conserved : Conserved s') {point : DownPoint}
    (here : s.ctl s.curr = .semDown n point) (run : semDownStep s n point = .ok s') :
    Manned n s' := by
  cases point with
  | enter =>
    simp only [semDownStep] at run
    split at run
    · cases run
      exact inv
    · cases run
      exact manned_entry inv conserved here rfl (by simp [resuming, waiters, tasks])
  | update =>
    cases run
    exact manned_entry inv conserved here rfl (by simp [resuming, waiters, tasks])
  | leave w =>
    simp only [semDownStep] at run
    cases run
    by_cases wait : w < 0
    · rw [if_pos wait] at conserved ⊢
      exact manned_entry inv conserved here rfl (by simp [resuming, waiters, tasks, leaveCs])
    · rw [if_neg wait] at conserved ⊢
      refine manned_entry inv conserved here rfl ?_
      simp [resuming, waiters, tasks, leaveCs, semDownReturn, System.answer]
  | suspend =>
    obtain ⟨k, suspended, rfl⟩ := map_ok run
    have user := not_dispatcher inv.conserved (t := s.curr) (by rw [here]; simp [role])
    obtain ⟨m, known, lists, _⟩ := suspend_kept inv.conserved.placed user (.semQueue (.user n))
    cases known.symm.trans suspended
    have queue : waiters n ((s.withKernel (givenUp s.kernel m)).goto s.curr
        (.semDown n .woken)) = waiters n s ++ [s.curr] := by
      change elems m _ = _
      rw [lists, moveTask_target _ (by simp)]
      rfl
    refine manned_entry inv conserved here rfl ?_
    rw [queue]
    simp [resuming]
  | woken =>
    cases run
    exact manned_entry inv conserved here rfl
      (by simp [resuming, waiters, tasks, semDownReturn, System.answer])

theorem resume_not_null (inv : Manned n s) (here : s.ctl s.curr = .semUp n .resume) :
    waiters n s ≠ [] := by
  intro none
  have enough := inv.enough
  have mine : resuming n (s.ctl s.curr) ≤ total (resuming n) s :=
    le_tally (fun t => resuming_nonneg (s.ctl t)) s.curr
  rw [here] at mine
  rw [none] at enough
  simp only [resuming, ↓reduceIte, List.length_nil] at mine enough
  omega

theorem manned_up (inv : Manned n s) (conserved : Conserved s') {point : UpPoint}
    (here : s.ctl s.curr = .semUp n point)
    (covered : ∀ w, point = .test w → w ≤ 0 → waiters n s ≠ [] →
      total (resuming n) s < (waiters n s).length)
    (run : semUpStep s n point = .ok s') : Manned n s' := by
  cases point with
  | enter =>
    simp only [semUpStep] at run
    split at run
    · cases run
      exact inv
    · cases run
      exact manned_entry inv conserved here rfl (by simp [resuming, waiters, tasks])
  | update =>
    cases run
    exact manned_entry inv conserved here rfl (by simp [resuming, waiters, tasks])
  | leave w =>
    cases run
    exact manned_entry inv conserved here rfl (by simp [resuming, waiters, tasks, leaveCs])
  | test w =>
    simp only [semUpStep] at run
    split at run
    · rename_i owed
      split at run
      · rename_i found
        rw [inv.conserved.placed.wellFormed.head] at found
        have more := covered w rfl owed fun none => found (List.head?_eq_none_iff.mpr none)
        cases run
        refine ⟨conserved, ?_⟩
        have moved : total (resuming n) (s.goto s.curr (.semUp n .resume)) = total (resuming n) s -
            resuming n (s.ctl s.curr) + resuming n (.semUp n .resume) := total_update _ rfl
        rw [moved, here]
        simp only [resuming, ↓reduceIte]
        change total (resuming n) s - 0 + 1 ≤ ((waiters n s).length : Int)
        omega
      · cases run
        exact manned_entry inv conserved here rfl
          (by simp [resuming, waiters, tasks, System.answer])
    · cases run
      exact manned_entry inv conserved here rfl
        (by simp [resuming, waiters, tasks, System.answer])
  | resume =>
    obtain ⟨k, resumed, rfl⟩ := map_ok run
    rw [inv.conserved.placed.wellFormed.head] at resumed
    obtain ⟨t, rest, waiting⟩ := List.exists_cons_of_ne_nil (resume_not_null inv here)
    have waiting' : tasks s.kernel (.semQueue (.user n)) = t :: rest := waiting
    rw [waiting', List.head?_cons] at resumed
    obtain ⟨m, known, lists, _⟩ := resume_kept inv.conserved.placed (t := t)
      (q := .semQueue (.user n)) (by rw [waiting']; simp)
    cases known.symm.trans resumed
    refine manned_entry inv conserved here rfl ?_
    have queue : waiters n ((s.withKernel { s.kernel with
        queues := m, task := withStatus s.kernel.task t .ready }).answer 0) = rest := by
      change elems m _ = _
      rw [lists, moveTask_source _ (by simp), waiting', List.erase_cons_head]
    rw [queue, waiting]
    simp [resuming]

theorem manned_step (inv : Manned n s) (go : Uses n s l s') (covered : Covered n s l) :
    Manned n s' := by
  obtain ⟨run, permitted, spares⟩ := go
  have ok := step_kept inv.conserved permitted run
  by_cases mine : client s l = .semaphore n
  · rcases semaphore_step mine run spares with ⟨code, body, _, rfl⟩ | ⟨code, body, _, rfl⟩ |
      ⟨point, m₁, m₂, here, rfl, moves⟩ | ⟨point, m₁, m₂, here, rfl, moves⟩
    · by_cases closed : (s.kernel.sem (.user n)).active = 0
      · rw [semDownCall, if_pos closed] at ok ⊢
        exact manned_entry inv ok.conserved body rfl
          (by simp [resuming, waiters, tasks, System.answer])
      · rw [semDownCall, if_neg closed] at ok ⊢
        exact manned_entry inv ok.conserved body rfl (by simp [resuming, waiters, tasks])
    · by_cases closed : (s.kernel.sem (.user n)).active = 0
      · rw [semUpCall, if_pos closed] at ok ⊢
        exact manned_entry inv ok.conserved body rfl
          (by simp [resuming, waiters, tasks, System.answer])
      · rw [semUpCall, if_neg closed] at ok ⊢
        exact manned_entry inv ok.conserved body rfl (by simp [resuming, waiters, tasks])
    · exact manned_down inv ok.conserved here moves
    · refine manned_up inv ok.conserved here ?_ moves
      rintro w rfl
      simpa [Covered, here] using covered
  · exact manned_framed inv ok.conserved (ok.framed _ (by simp) (Ne.symm mine))

end Resuming

/-- sem_up always has a task to resume. -/
theorem up_resumes_a_task {s₀ s : System N} {n : Nat} {v : Int} {labels : List (Label N)}
    (fresh : Fresh n v s₀) (run : Run (fun s l s' => Uses n s l s' ∧ Covered n s l) s₀ labels s)
    (here : s.ctl s.curr = .semUp n .resume) (m₁ m₂ : Bool) :
    waiters n s ≠ [] ∧ ∃ s', step s (.run m₁ m₂) = some (.ok s') := by
  have inv : Manned n s :=
    run_invariant (Manned n) (fun _ _ _ inv go => manned_step inv go.1 go.2) run
      (fresh_manned fresh)
  have some := resume_not_null inv here
  refine ⟨some, ?_⟩
  obtain ⟨t, rest, waiting⟩ := List.exists_cons_of_ne_nil some
  have queue : tasks s.kernel (.semQueue (.user n)) = t :: rest := waiting
  obtain ⟨m, resumed, _⟩ := resume_kept inv.conserved.placed (t := t)
    (q := .semQueue (.user n)) (by rw [queue]; simp)
  have head : s.kernel.queues.head (.semQueue (.user n)) = Option.some t := by
    rw [inv.conserved.placed.wellFormed.head, queue]
    rfl
  have resumes : step s (.run m₁ m₂) = Option.some (.ok ((s.withKernel { s.kernel with
      queues := m, task := withStatus s.kernel.task t .ready }).answer 0)) := by
    simp only [step, advance, here, semUpStep, head, resumed, Except.map]
  exact ⟨_, resumes⟩

def upResumes : List (Label (Fin 1)) :=
  [Label.call (.taskInit (.user 0) true), .call (.taskSwitch (some (.user 0))),
    .call (.semDown (some 0))] ++ List.replicate 8 (Label.run true true) ++
  [Label.call (.semUp (some 0))] ++ List.replicate 4 (Label.run true true)

instance (n : Nat) (s : System N) (l : Label N) : Decidable (Covered n s l) := by
  unfold Covered
  generalize s.ctl s.curr = c
  rcases l with _ | _ | _ | _ <;> try infer_instance
  rcases c with _ | _ <;> try infer_instance
  case semUp point => rcases point with _ | _ <;> infer_instance

theorem main_resumes_a_task : ∃ s : System (Fin 1),
    Run (fun s l s' => Uses 0 s l s' ∧ Covered 0 s l) (initialised 0 0) upResumes s ∧
    s.ctl s.curr = .semUp 0 .resume ∧ waiters 0 s ≠ [] ∧
    ∃ s', step s (.run true true) = some (.ok s') := by
  obtain ⟨s, found, here⟩ := exec_reaches (guardedStep (preemptGuard 0 (Covered 0)))
    (initialised 0 0) upResumes (fun s => s.ctl s.curr = .semUp 0 .resume) (by decide +kernel)
  have run : Run (fun s l s' => Uses 0 s l s' ∧ Covered 0 s l) (initialised 0 0) upResumes s :=
    run_mono (fun _ _ _ next => ⟨⟨next.1.1, next.1.2.1, next.1.2.2.1⟩, next.2⟩)
      (exec_preempts found)
  have fresh := initialised_fresh (N := Fin 1) (n := 0) (v := 0) (by decide) (by decide)
  exact ⟨s, run, here, up_resumes_a_task fresh run here true true⟩

/-- One task waits, a second one has decremented the counter and is preempted before its
    task_suspend. Two calls of sem_up find the one that waits. -/
def sharedWaiter : List (Label (Fin 3)) :=
  [Label.call (.taskInit (.user 0) true), .call (.taskInit (.user 1) true),
    .call (.taskInit (.user 2) true), .call (.taskSwitch (some (.user 0))),
    .call (.semDown (some 0))] ++
  List.replicate 8 (Label.run true true) ++
  [Label.call (.taskSwitch (some (.user 1))), .call (.semDown (some 0))] ++
  List.replicate 3 (Label.run true true) ++ List.replicate 10 Label.tick ++
  List.replicate 5 (Label.run true true) ++ List.replicate 10 Label.tick ++
  List.replicate 5 (Label.run true true) ++ [Label.call (.semUp (some 0))] ++
  List.replicate 4 (Label.run true true) ++ List.replicate 10 Label.tick ++
  List.replicate 5 (Label.run true true) ++ [Label.call (.semUp (some 0))] ++
  List.replicate 5 (Label.run true true) ++ [Label.call (.taskSwitch (some (.user 2)))]

theorem up_resumes_null :
    ¬ ∀ (s₀ s : System (Fin 3)) (labels : List (Label (Fin 3))), Fresh 0 0 s₀ →
      Run (Uses 0) s₀ labels s → s.ctl s.curr = .semUp 0 .resume →
      ∀ m₁ m₂, step s (.run m₁ m₂) ≠ some (.error (.exit nullPtrError)) := by
  intro claim
  obtain ⟨s, found, here, head⟩ := exec_reaches (guardedStep (preemptGuard 0 fun _ _ => True))
    (initialised 0 0) sharedWaiter (fun s => s.ctl s.curr = .semUp 0 .resume ∧
      s.kernel.queues.head (.semQueue (.user 0)) = none) (by decide +kernel)
  have run : Run (Uses 0) (initialised 0 0) sharedWaiter s :=
    run_mono (fun _ _ _ next => ⟨next.1.1, next.1.2.1, next.1.2.2.1⟩) (exec_preempts found)
  refine claim _ s _ (initialised_fresh (by decide) (by decide)) run here true true ?_
  simp [step, advance, here, semUpStep, head, taskResume, Except.map]

end NullWakeups
