import PingPong.SystemModel

/-! What the moves of tasks between queues leave alone. A view of the kernel that shows neither
   the queues nor what scheduling writes into a descriptor is the same after each of them. The
   steps of the mqueue operations touch the kernel through its semaphores alone. -/
namespace KernelViews
open MachineModel CircularList QueueModel KernelModel SystemModel
variable {N : Type} [DecidableEq N] {α β : Type}

/-- An assignment to the status, the awaited task or the hour to be woken at. -/
def Schedules (f : Task → Task) : Prop :=
  ∀ d, f d = { d with status := (f d).status, waitingTask := (f d).waitingTask,
                      wakeUpTime := (f d).wakeUpTime }

/-- An assignment to the dynamic priority. -/
def Ages (f : Task → Task) : Prop := ∀ d, f d = { d with dynamicPriority := (f d).dynamicPriority }

structure Blind (view : Kernel N → α) : Prop where
  queues : ∀ k m, view { k with queues := m } = view k
  task : ∀ k t f, Schedules f → view (k.setTask t f) = view k

theorem blind_pair {first : Kernel N → α} {second : Kernel N → β} (one : Blind first)
    (other : Blind second) : Blind fun k => (first k, second k) :=
  ⟨fun k m => Prod.ext (one.queues k m) (other.queues k m),
   fun k t f schedules => Prod.ext (one.task k t f schedules) (other.task k t f schedules)⟩

theorem setTask_field {field : Task → α} (k : Kernel N) (t : Tcb N) {f : Task → Task}
    (keeps : ∀ d, field (f d) = field d) :
    (fun a => field ((k.setTask t f).task a)) = fun a => field (k.task a) := by
  funext a
  by_cases same : a = t
  · subst same
    simp [Kernel.setTask, keeps]
  · simp [Kernel.setTask, same]

/-- A field of all descriptors that scheduling does not write. -/
theorem blind_field {field : Task → α}
    (other : ∀ d status waiting hour, field { d with
      status := status, waitingTask := waiting, wakeUpTime := hour } = field d) :
    Blind fun (k : Kernel N) t => field (k.task t) :=
  ⟨fun _ _ => rfl, fun k t _ schedules =>
    setTask_field k t fun d => (congrArg field (schedules d)).trans (other d _ _ _)⟩

theorem blind_curr : Blind (Kernel.curr : Kernel N → Tcb N) :=
  ⟨fun _ _ => rfl, fun _ _ _ _ => rfl⟩

theorem blind_sem : Blind (Kernel.sem : Kernel N → SemAddr → Semaphore) :=
  ⟨fun _ _ => rfl, fun _ _ _ _ => rfl⟩

section Moves
variable {view : Kernel N → α} {k k' : Kernel N}

theorem status_blind (blind : Blind view) (k : Kernel N) (t : Tcb N) (status : TaskState) :
    view (k.setStatus t status) = view k := blind.task k t _ fun _ => rfl

theorem switch_dest {t : Option (Tcb N)} (run : taskSwitch k t = .ok k') : t = some k'.curr := by
  cases t with
  | none => cases run
  | some t =>
    cases run
    rfl

/-- For task_switch and task_suspend the view must not show curr either. -/
theorem switch_blind (blind : Blind view) (moves : ∀ k t, view { k with curr := t } = view k)
    {t : Option (Tcb N)} (run : taskSwitch k t = .ok k') : view k' = view k := by
  cases t with
  | none => cases run
  | some t =>
    cases run
    have first := status_blind blind k k.curr .suspended
    have second := status_blind blind (k.setStatus k.curr .suspended) t .running
    exact (moves _ t).trans (second.trans first)

variable [Fintype N]

theorem suspend_dest {q : Option TaskQueue} (run : taskSuspend k q = .ok k') :
    k'.curr = .dispatcherTask := by
  cases q with
  | none => cases run
  | some q =>
    obtain ⟨_, -, run⟩ := bind_ok run
    obtain ⟨_, -, run⟩ := bind_ok run
    exact (Option.some.inj (switch_dest run)).symm

theorem suspend_blind (blind : Blind view) (moves : ∀ k t, view { k with curr := t } = view k)
    {q : Option TaskQueue} (run : taskSuspend k q = .ok k') : view k' = view k := by
  cases q with
  | none => cases run
  | some q =>
    obtain ⟨⟨m, _⟩, -, run⟩ := bind_ok run
    obtain ⟨⟨m', _⟩, -, run⟩ := bind_ok run
    have marked := status_blind blind { k with queues := m } k.curr .suspended
    rw [switch_blind blind moves run, blind.queues, marked, blind.queues]

theorem suspend_sem {q : Option TaskQueue} (run : taskSuspend k q = .ok k') : k'.sem = k.sem :=
  suspend_blind blind_sem (fun _ _ => rfl) run

theorem resume_blind (blind : Blind view) {t : Option (Tcb N)} {q : Option TaskQueue}
    (run : taskResume k t q = .ok k') : view k' = view k := by
  cases t with
  | none => cases run
  | some t =>
    cases q with
    | none => cases run
    | some q =>
      obtain ⟨⟨m, _⟩, -, run⟩ := bind_ok run
      obtain ⟨⟨m', _⟩, -, run⟩ := bind_ok run
      cases run
      have marked := status_blind blind { k with queues := m } t .ready
      rw [blind.queues, marked, blind.queues]

omit [Fintype N] in
/-- What the body of a traversal keeps, the whole traversal keeps. -/
theorem sweep_keeps {σ : Type} {kernel : σ → Kernel N} {q : TaskQueue}
    {body : Tcb N → σ → Except Halt σ} (keep : σ → Prop)
    (step : ∀ aux s s', keep s → body aux s = .ok s' → keep s') {fuel : Nat}
    {aux : Option (Tcb N)} {s s' : σ} (run : sweep kernel q body fuel aux s = .ok s')
    (start : keep s) : keep s' := by
  induction fuel generalizing aux s with
  | zero =>
    cases aux with
    | none => cases run; exact start
    | some aux =>
      simp only [sweep] at run
      split at run
      · cases run
      · split at run
        · exact step _ _ _ start run
        · cases run
  | succ fuel ih =>
    cases aux with
    | none => cases run; exact start
    | some aux =>
      simp only [sweep] at run
      split at run
      · cases run
      · split at run
        · exact step _ _ _ start run
        · split at run
          · cases run
          · rename_i found
            exact ih run (step _ _ _ start found)

theorem resumeWhere_blind (blind : Blind view) {q : TaskQueue} {condition : Task → Bool}
    {after : Task → Task} (schedules : Schedules after)
    (run : resumeWhere k q condition after = .ok k') : view k' = view k := by
  refine sweep_keeps (fun j => view j = view k) ?_ run rfl
  intro aux j j' before body
  split at body
  · split at body
    · cases body
    · rename_i resumed
      cases body
      exact (blind.task _ aux after schedules).trans ((resume_blind blind resumed).trans before)
  · cases body
    exact before

theorem wake_blind (blind : Blind view) (run : wakeTasks k = .ok k') : view k' = view k := by
  simp only [wakeTasks] at run
  exact resumeWhere_blind blind (fun _ => rfl) run

theorem scheduler_blind (same : ∀ k t f, Ages f → view (k.setTask t f) = view k)
    {next : Option (Tcb N)} (run : scheduler k = .ok (next, k')) : view k' = view k := by
  simp only [scheduler] at run
  split at run
  · cases run
    rfl
  · obtain ⟨chosen, -, run⟩ := bind_ok run
    obtain ⟨j, aged, run⟩ := bind_ok run
    cases run
    have kept : view j = view k := by
      refine sweep_keeps (fun j => view j = view k) ?_ aged rfl
      intro aux j j' before body
      cases body
      exact (same j aux _ fun _ => rfl).trans before
    exact (same j chosen _ fun _ => rfl).trans kept

theorem drain_blind (blind : Blind view) {q : TaskQueue} {fuel : Nat}
    (run : drainQueue q fuel k = .ok k') : view k' = view k := by
  induction fuel generalizing k with
  | zero =>
    unfold drainQueue at run
    split at run
    · cases run; rfl
    · cases run
  | succ fuel ih =>
    unfold drainQueue at run
    split at run
    · cases run; rfl
    · dsimp only at run
      split at run
      · cases run
      · rename_i resumed
        exact (ih run).trans (resume_blind blind resumed)

end Moves

section Steps
variable {s s' : System N}

theorem semDownCall_kernel (s : System N) (n : Option Nat) :
    (semDownCall s n).kernel = s.kernel := by
  unfold semDownCall
  split
  · rfl
  · split
    · rfl
    · rfl

theorem semUpCall_kernel (s : System N) (n : Option Nat) :
    (semUpCall s n).kernel = s.kernel := by
  unfold semUpCall
  split
  · rfl
  · split
    · rfl
    · rfl

theorem mqueueSendCall_kernel (s : System N) (queue msg : Option Nat) :
    (mqueueSendCall s queue msg).kernel = s.kernel := by
  unfold mqueueSendCall
  split
  · split
    · rfl
    · rfl
  · rfl

theorem mqueueRecvCall_kernel (s : System N) (queue msg : Option Nat) :
    (mqueueRecvCall s queue msg).kernel = s.kernel := by
  unfold mqueueRecvCall
  split
  · split
    · rfl
    · rfl
  · rfl

variable [Fintype N]

/-- The kernel is left alone, or one operation of a semaphore has been called. -/
inductive SemCall (k : Kernel N) : Kernel N → Prop where
  | none : SemCall k k
  | down {k' : Kernel N} {a : SemAddr} {r : Option Int}
      (run : semDown k (some a) = .ok (k', r)) : SemCall k k'
  | up {k' : Kernel N} {a : SemAddr} {r : Int} (run : semUp k (some a) = .ok (k', r)) :
      SemCall k k'
  | destroy {k' : Kernel N} {a : SemAddr} {r : Int}
      (run : semDestroy k (some a) = .ok (k', r)) : SemCall k k'

theorem send_semCall {q a : Nat} {m₁ m₂ : Bool} {point : SendPoint}
    (run : mqueueSendStep s q a m₁ m₂ point = .ok s') : SemCall s.kernel s'.kernel := by
  cases point with
  | vaga | buffer =>
    obtain ⟨_, down, rfl⟩ := map_ok run
    exact .down down
  | check =>
    cases run
    split
    · exact .none
    · exact .none
  | store =>
    simp only [mqueueSendStep] at run
    split at run
    · cases run
      exact .none
    · split at run
      · cases run
        exact .none
      · cases run
        exact .none
  | upBuffer | upItem =>
    obtain ⟨_, up, rfl⟩ := map_ok run
    exact .up up

theorem recv_semCall {q a : Nat} {point : RecvPoint} (run : mqueueRecvStep s q a point = .ok s') :
    SemCall s.kernel s'.kernel := by
  cases point with
  | item | buffer =>
    obtain ⟨_, down, rfl⟩ := map_ok run
    exact .down down
  | check =>
    cases run
    split
    · exact .none
    · exact .none
  | take =>
    simp only [mqueueRecvStep] at run
    split at run
    · cases run
    · cases run
      exact .none
  | upBuffer | upVaga =>
    obtain ⟨_, up, rfl⟩ := map_ok run
    exact .up up

theorem destroy_semCall {q : Nat} {point : DestroyPoint}
    (run : mqueueDestroyStep s q point = .ok s') : SemCall s.kernel s'.kernel := by
  cases point with
  | buffer | item | vaga =>
    obtain ⟨_, destroyed, rfl⟩ := map_ok run
    exact .destroy destroyed
  | drain =>
    simp only [mqueueDestroyStep] at run
    split at run
    · cases run
      exact .none
    · cases run
      exact .none
  | close =>
    cases run
    exact .none

end Steps
end KernelViews
