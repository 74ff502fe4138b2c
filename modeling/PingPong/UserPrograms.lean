import PingPong.SemaphorePreemption
import PingPong.WaitingTasks
import PingPong.TaskLives

/-!
Programs that run on the kernel: the code of each task, on the variables of the program. The
timer may strike between any two instructions; the kernel never writes the variables.
-/
namespace UserPrograms
open MachineModel CircularList QueueModel KernelModel KernelEffects TaskPlacement SystemModel
open SystemFrames TransitionRuns TaskConservation KernelActs KernelViews SemaphorePreemption
open TaskRecords TaskLives
variable {N M : Type} [DecidableEq N]

section Processes

/-- What a task does next: a call of the kernel or an instruction of its own. The variables are
    those afterwards. -/
inductive Action (N M : Type) where
  | call (c : Call N) (memory : M)
  | own (memory : M)

/-- The flag is the outcome of the allocation in task_init. -/
abbrev Program (N M : Type) := Tcb N → Bool → M → Option (Action N M)

structure Process (N M : Type) where
  system : System N
  memory : M

inductive Move where
  | tick
  | completion
  | run (malloc₁ malloc₂ : Bool)
  | go (stack : Bool)
  deriving DecidableEq

variable [Fintype N]

def enter (p : Process N M) (l : Label N) (memory : M) : Option (Except Halt (Process N M)) :=
  (SystemModel.step p.system l).map fun r => r.map fun s => ⟨s, memory⟩

def step (code : Program N M) (p : Process N M) : Move → Option (Except Halt (Process N M))
  | .tick => enter p .tick p.memory
  | .completion => enter p .completion p.memory
  | .run malloc₁ malloc₂ => enter p (.run malloc₁ malloc₂) p.memory
  | .go stack =>
    match p.system.ctl p.system.curr with
    | .body _ =>
      match code p.system.curr stack p.memory with
      | none => none
      | some (.own memory) => some (.ok ⟨p.system, memory⟩)
      | some (.call c memory) => enter p (.call c) memory
    | _ => none

def Executes (code : Program N M) (p : Process N M) (l : Move) (p' : Process N M) : Prop :=
  step code p l = some (.ok p')

/-- A step is one of the system alone, a call by the running task, or an instruction of it. -/
inductive Stepped (code : Program N M) (p p' : Process N M) : Prop where
  | kernel (l : Label N) (plain : ∀ c, l ≠ .call c)
      (go : SystemModel.step p.system l = some (.ok p'.system)) (memory : p'.memory = p.memory)
  | call (c : Call N) (stack : Bool) (r : Int) (body : p.system.ctl p.system.curr = .body r)
      (action : code p.system.curr stack p.memory = some (.call c p'.memory))
      (go : SystemModel.call p.system c = .ok p'.system)
  | own (stack : Bool) (r : Int) (body : p.system.ctl p.system.curr = .body r)
      (action : code p.system.curr stack p.memory = some (.own p'.memory))
      (system : p'.system = p.system)

variable {code : Program N M} {p p' : Process N M}

theorem entered {l : Label N} {memory : M} (go : enter p l memory = some (.ok p')) :
    SystemModel.step p.system l = some (.ok p'.system) ∧ p'.memory = memory := by
  obtain ⟨r, stepped, same⟩ := Option.map_eq_some_iff.mp go
  obtain ⟨s, ok, rfl⟩ := map_ok same
  rw [stepped, ok]
  exact ⟨rfl, rfl⟩

theorem executes_cases {l : Move} (go : Executes code p l p') : Stepped code p p' := by
  cases l with
  | tick =>
    obtain ⟨stepped, same⟩ := entered go
    exact .kernel .tick (by simp) stepped same
  | completion =>
    obtain ⟨stepped, same⟩ := entered go
    exact .kernel .completion (by simp) stepped same
  | run malloc₁ malloc₂ =>
    obtain ⟨stepped, same⟩ := entered go
    exact .kernel (.run malloc₁ malloc₂) (by simp) stepped same
  | go stack =>
    simp only [Executes, step] at go
    split at go
    · rename_i r body
      split at go
      · cases go
      · rename_i memory action
        cases go
        exact .own stack r body action rfl
      · rename_i c memory action
        obtain ⟨stepped, same⟩ := entered go
        subst same
        obtain ⟨_, _, called⟩ := call_runs stepped
        exact .call c stack r body action called
    · cases go

def follow (code : Program N M) (p : Process N M) (l : Move) : Option (Process N M) :=
  match step code p l with
  | some (.ok p') => some p'
  | _ => none

theorem exec_executes {labels : List Move} (done : exec (follow code) p labels = some p') :
    Run (Executes code) p labels p' := by
  refine run_mono (fun a l b next => ?_) (exec_run done)
  unfold follow at next
  split at next
  · rename_i stepped
    cases next
    exact stepped
  · cases next

theorem call_steps {s s' : System N} {c : Call N} {r : Int} (body : s.ctl s.curr = .body r)
    (go : SystemModel.call s c = .ok s') : SystemModel.step s (.call c) = some (.ok s') := by
  simp only [SystemModel.step, body, go]

end Processes

section Accounts

/-- A task with what it has done on one semaphore. -/
structure Account (N : Type) where
  ctl : Ctl N
  returned : Nat
  started : Nat
  incremented : Nat

def account (n : Nat) (s : System N) (t : Tcb N) : Account N :=
  ⟨s.ctl t, s.history.returned n t, s.history.started n t, s.history.incremented n t⟩

/-- One step of a task inside sem_down, sem_up or task_wait. -/
inductive Advances (n : Nat) : Account N → Account N → Prop where
  | down (p p' : DownPoint) (r s i : Nat) :
      Advances n ⟨.semDown n p, r, s, i⟩ ⟨.semDown n p', r, s, i⟩
  | passed (p : DownPoint) (r s i : Nat) : Advances n ⟨.semDown n p, r, s, i⟩ ⟨.body 0, r + 1, s, i⟩
  | up (p p' : UpPoint) (r s i i' : Nat)
      (same : i' + rising n (.semUp n p' : Ctl N) = i + rising n (.semUp n p : Ctl N)) :
      Advances n ⟨.semUp n p, r, s, i⟩ ⟨.semUp n p', r, s, i'⟩
  | raised (p : UpPoint) (r s i : Nat) (done : rising n (.semUp n p : Ctl N) = 0) :
      Advances n ⟨.semUp n p, r, s, i⟩ ⟨.body 0, r, s, i⟩
  | awaited (t : Tcb N) (code : Int) (r s i : Nat) :
      Advances n ⟨.waitReturn t, r, s, i⟩ ⟨.body code, r, s, i⟩

structure Shifts (n : Nat) (s s' : System N) : Prop where
  own : Advances n (account n s s.curr) (account n s' s.curr)
  others : ∀ t, t ≠ s.curr → account n s' t = account n s t

variable {n : Nat} {s s' : System N}

theorem account_goto {t u : Tcb N} {c : Ctl N} (other : t ≠ u)
    (ctl : s'.ctl = Function.update s.ctl u c) (history : s'.history = s.history) :
    account n s' t = account n s t := by
  simp only [account, ctl, history, Function.update_of_ne other]

theorem account_update {t : Tcb N} {c : Ctl N} (ctl : s'.ctl = Function.update s.ctl t c)
    (history : s'.history = s.history) :
    account n s' = Function.update (account n s) t { account n s t with ctl := c } := by
  funext u
  by_cases same : u = t
  · subst same
    simp only [account, ctl, history, Function.update_self]
  · rw [Function.update_of_ne same]
    exact account_goto same ctl history

theorem counted_at (table : Nat → Tcb N → Nat) (n : Nat) (t u : Tcb N) :
    counted table n t n u = table n u + if u = t then 1 else 0 := by
  by_cases same : u = t
  · subst same
    simp [counted]
  · simp [counted, same]

theorem shifts_counted {old new : Ctl N} (here : s.ctl s.curr = old) (a b : Nat)
    (ctl : s'.ctl = Function.update s.ctl s.curr new)
    (returned : ∀ t, s'.history.returned n t =
      s.history.returned n t + if t = s.curr then a else 0)
    (started : s'.history.started = s.history.started)
    (incremented : ∀ t, s'.history.incremented n t =
      s.history.incremented n t + if t = s.curr then b else 0)
    (advances : ∀ r k i, Advances n ⟨old, r, k, i⟩ ⟨new, r + a, k, i + b⟩) : Shifts n s s' := by
  constructor
  · simp only [account, here, ctl, returned, started, incremented, Function.update_self,
      ↓reduceIte]
    exact advances _ _ _
  · intro t other
    simp only [account, ctl, returned, started, incremented, Function.update_of_ne other,
      if_neg other, Nat.add_zero]

theorem shifts_update (shifts : Shifts n s s') :
    account n s' = Function.update (account n s) s.curr (account n s' s.curr) := by
  funext t
  by_cases own : t = s.curr
  · subst own
    rw [Function.update_self]
  · rw [Function.update_of_ne own, shifts.others t own]

theorem shifts_moved {old new : Ctl N} (here : s.ctl s.curr = old)
    (ctl : s'.ctl = Function.update s.ctl s.curr new) (history : s'.history = s.history)
    (advances : ∀ r k i, Advances n ⟨old, r, k, i⟩ ⟨new, r, k, i⟩) : Shifts n s s' :=
  shifts_counted here 0 0 ctl (by simp [history]) (by rw [history]) (by simp [history]) advances

theorem shifts_stays {old : Ctl N} (here : s.ctl s.curr = old)
    (advances : ∀ r k i, Advances n ⟨old, r, k, i⟩ ⟨old, r, k, i⟩) : Shifts n s s :=
  shifts_moved here (by rw [← here, Function.update_eq_self]) rfl advances

variable [Fintype N]

omit [Fintype N] in
theorem account_down (active : (s.kernel.sem (.user n)).active ≠ 0) :
    account n (semDownCall s (some n)) = Function.update (account n s) s.curr
      { account n s s.curr with ctl := .semDown n .enter } := by
  rw [semDownCall, if_neg active]
  exact account_update rfl rfl

omit [Fintype N] in
theorem account_up (active : (s.kernel.sem (.user n)).active ≠ 0) :
    account n (semUpCall s (some n)) = Function.update (account n s) s.curr
      { account n s s.curr with
        ctl := .semUp n .enter, started := s.history.started n s.curr + 1 } := by
  rw [semUpCall, if_neg active]
  funext t
  by_cases own : t = s.curr
  · subst own
    simp [account, counted]
  · simp [account, counted, own]

theorem down_shifts {point : DownPoint} (here : s.ctl s.curr = .semDown n point)
    (run : semDownStep s n point = .ok s') : Shifts n s s' := by
  have moves : ∀ p p' r k i, Advances n (⟨.semDown n p, r, k, i⟩ : Account N)
      ⟨.semDown n p', r, k, i⟩ := fun p p' r k i => .down p p' r k i
  have kept : ∀ (table : Tcb N → Nat) (t : Tcb N), table t =
      table t + if t = s.curr then 0 else 0 := by simp
  cases point with
  | enter =>
    simp only [semDownStep] at run
    split at run
    · cases run
      exact shifts_stays here (moves _ _)
    · cases run
      exact shifts_moved here rfl rfl (moves _ _)
  | update =>
    cases run
    exact shifts_moved here rfl rfl (moves _ _)
  | leave v =>
    simp only [semDownStep] at run
    cases run
    split
    · exact shifts_moved here rfl rfl (moves _ _)
    · exact shifts_counted here 1 0 rfl (fun t => counted_at _ n s.curr t) rfl (kept _)
        fun r k i => .passed _ r k i
  | suspend =>
    obtain ⟨k, suspended, rfl⟩ := map_ok run
    exact shifts_moved here rfl rfl (moves _ _)
  | woken =>
    cases run
    exact shifts_counted here 1 0 rfl (fun t => counted_at _ n s.curr t) rfl (kept _)
      fun r k i => .passed _ r k i

theorem up_shifts {point : UpPoint} (here : s.ctl s.curr = .semUp n point)
    (run : semUpStep s n point = .ok s') : Shifts n s s' := by
  cases point with
  | enter =>
    simp only [semUpStep] at run
    split at run
    · cases run
      exact shifts_stays here fun r k i => .up _ _ r k i i rfl
    · cases run
      exact shifts_moved here rfl rfl fun r k i => .up _ _ r k i i (by simp [rising])
  | update =>
    cases run
    exact shifts_counted here 0 1 rfl (by simp) rfl (fun t => counted_at _ n s.curr t)
      fun r k i => .up _ _ r k i (i + 1) (by simp [rising])
  | leave v =>
    cases run
    exact shifts_moved here rfl rfl fun r k i => .up _ _ r k i i (by simp [rising])
  | test v =>
    have done : rising n (.semUp n (.test v) : Ctl N) = 0 := rfl
    simp only [semUpStep] at run
    split at run
    · split at run
      · cases run
        exact shifts_moved here rfl rfl fun r k i => .up _ _ r k i i rfl
      · cases run
        exact shifts_counted here 0 0 rfl (by simp) rfl (by simp)
          fun r k i => .raised _ r k i done
    · cases run
      exact shifts_moved here rfl rfl fun r k i => .raised _ r k i done
  | resume =>
    obtain ⟨k, resumed, rfl⟩ := map_ok run
    have curr : k.curr = s.curr := resume_blind blind_curr resumed
    refine shifts_moved here ?_ rfl fun r k i => .raised _ r k i rfl
    change Function.update s.ctl k.curr _ = _
    rw [curr]

structure Rests (n : Nat) (s s' : System N) : Prop where
  others : ∀ t, t ≠ .dispatcherTask → account n s' t = account n s t
  counts : ∀ t, account n s' t = { account n s t with ctl := s'.ctl t }

omit [Fintype N] in
theorem rests_moved {new : Ctl N} (ctl : s'.ctl = Function.update s.ctl .dispatcherTask new)
    (history : s'.history = s.history) : Rests n s s' := by
  constructor
  · exact fun t user => account_goto user ctl history
  · intro t
    simp only [account, history]

omit [Fintype N] [DecidableEq N] in
theorem rests_still (ctl : s'.ctl = s.ctl) (returned : s'.history.returned = s.history.returned)
    (started : s'.history.started = s.history.started)
    (incremented : s'.history.incremented = s.history.incremented) : Rests n s s' := by
  constructor
  · intro t _
    simp only [account, ctl, returned, started, incremented]
  · intro t
    simp only [account, returned, started, incremented]

theorem dispatcher_rests {point : DispatcherPoint N} (run : dispatcherStep s point = .ok s') :
    Rests n s s' := by
  cases point with
  | top =>
    simp only [dispatcherStep] at run
    split at run
    · cases run
      exact rests_moved rfl rfl
    · obtain ⟨k, -, rfl⟩ := map_ok run
      exact rests_moved rfl rfl
  | wake start =>
    obtain ⟨k, -, rfl⟩ := map_ok run
    exact rests_moved rfl rfl
  | schedule start =>
    obtain ⟨⟨next, k⟩, -, same⟩ := map_ok run
    cases next with
    | none =>
      subst same
      exact rests_moved rfl rfl
    | some next =>
      subst same
      exact rests_moved rfl rfl
  | dispatch start next =>
    simp only [dispatcherStep] at run
    obtain ⟨k, -, rfl⟩ := map_ok run
    exact rests_moved rfl rfl
  | back next start =>
    cases run
    exact rests_moved rfl rfl

theorem completion_rests {op : Operation} (run : diskSighandle s op = .ok s') : Rests n s s' := by
  cases op with
  | read =>
    simp only [diskSighandle] at run
    split at run
    · cases run
    · obtain ⟨k, -, rfl⟩ := map_ok run
      exact rests_still rfl rfl rfl rfl
  | write =>
    simp only [diskSighandle] at run
    split at run
    · cases run
    · obtain ⟨k, -, rfl⟩ := map_ok run
      exact rests_still rfl rfl rfl rfl

/-- The points of programs that use one semaphore, and tasks that wait for each other. -/
def Simple (n : Nat) : Ctl N → Prop
  | .unborn | .terminated | .body _ | .waitReturn _ | .dispatcher _ => True
  | .semDown m _ | .semUp m _ => m = n
  | _ => False

theorem kernel_shifts (simple : Simple n (s.ctl s.curr)) {l : Label N}
    (plain : ∀ c, l ≠ .call c) (go : SystemModel.step s l = some (.ok s')) :
    Shifts n s s' ∨ Rests n s s' := by
  cases l with
  | tick =>
    obtain ⟨k, -, rfl⟩ := map_ok (Option.some.inj go)
    exact Or.inr (rests_still rfl rfl rfl rfl)
  | completion =>
    obtain ⟨op, handled⟩ := completion_runs go
    exact Or.inr (completion_rests handled)
  | call c => exact absurd rfl (plain c)
  | run m₁ m₂ =>
    simp only [SystemModel.step, advance] at go
    cases here : s.ctl s.curr with
    | waitReturn t =>
      rw [here] at go
      cases go
      exact Or.inl (shifts_moved here rfl rfl fun r k i => .awaited t _ r k i)
    | semDown m point =>
      rw [here] at go simple
      cases simple
      exact Or.inl (down_shifts here (Option.some.inj go))
    | semUp m point =>
      rw [here] at go simple
      cases simple
      exact Or.inl (up_shifts here (Option.some.inj go))
    | dispatcher point =>
      rw [here] at go
      exact Or.inr (dispatcher_rests (Option.some.inj go))
    | unborn | terminated | body _ => rw [here] at go; cases go
    | send _ _ _ | recv _ _ _ | destroy _ _ | blockOp _ _ _ _ | driver _ =>
      rw [here] at simple
      exact simple.elim

end Accounts

section Order
variable [Fintype N] {s s' : System N} {l : Label N}
open WaitingTasks TaskEvents

/-- Out of suspended_tasks inside task_wait is only who waits for a task that is over. -/
def Told (v : TaskView N) : Prop :=
  ∀ w t, v.point w = .awaits t → w ∈ v.suspended ∨ v.point t = .ended

omit [Fintype N] in
theorem awaits_before {f : Tcb N → WaitPoint N} {u w t : Tcb N} {p : WaitPoint N}
    (other : ∀ t, p ≠ .awaits t) (points : Function.update f u p w = .awaits t) :
    w ≠ u ∧ f w = .awaits t := by
  by_cases own : w = u
  · subst own
    rw [Function.update_self] at points
    exact absurd points (other t)
  · rw [Function.update_of_ne own] at points
    exact ⟨own, points⟩

theorem told_step (inv : Waiting s) (told : Told (taskView s)) (go : Proceeds s l s') :
    Told (taskView s') := by
  have move := (step_outcome inv.sound.conserved inv.sound.marked go.1).move
  have alive := current_live inv.sound.conserved.placed
  generalize event : taskEvent s l = e at move
  generalize taskView s' = v at move ⊢
  intro w t points
  cases move with
  | other | tick | wake | sleep d => exact told w t points
  | wait u here going =>
    by_cases own : w = s.curr
    · exact Or.inl (by simp [own])
    · rcases told w t ((Function.update_of_ne own _ _).symm.trans points) with waits | ended
      · exact Or.inl (List.mem_append_left _ waits)
      · refine Or.inr ((Function.update_of_ne ?_ _ _).trans ended)
        rintro rfl
        rw [here] at ended
        cases ended
  | finish u here =>
    obtain ⟨-, before⟩ := awaits_before (by simp) points
    rcases told w t before with waits | ended
    · exact Or.inl waits
    · refine Or.inr ((Function.update_of_ne ?_ _ _).trans ended)
      rintro rfl
      rw [here] at ended
      cases ended
  | exit code here =>
    obtain ⟨-, before⟩ := awaits_before (by simp) points
    by_cases last : t = s.curr
    · rw [last]
      exact Or.inr (Function.update_self _ _ _)
    · rcases told w t before with waits | ended
      · left
        refine List.mem_filter.mpr ⟨waits, ?_⟩
        obtain ⟨u, awaits, going, id⟩ := inv.blocked w waits
        cases awaits.symm.trans before
        -- live tasks have different ids
        have other : (taskView s).waitingTask w ≠ (taskView s).id s.curr := fun same =>
          last (inv.distinct t s.curr ((live_point _).mpr going) alive (id.symm.trans same))
        simpa using other
      · exact Or.inr ((Function.update_of_ne last _ _).trans ended)
  | init u id idle =>
    obtain ⟨-, before⟩ := awaits_before (by simp) points
    have awaited : t ≠ u := by
      rintro rfl
      exact awaited_spared go.2.1 event w ((awaits_iff _ _).mp before)
    rcases told w t before with waits | ended
    · exact Or.inl waits
    · exact Or.inr ((Function.update_of_ne awaited _ _).trans ended)

/-- So many tasks have been initialised, and the ids of the live ones are theirs alone. -/
structure Orderly (count : Nat) (s : System N) : Prop where
  waiting : Waiting s
  told : Told (taskView s)
  numbered : ∃ d : Diary N, Small ⟨s, d⟩ ∧ d.inits = count

def births : Label N → Nat
  | .call (.taskInit _ _) => 1
  | _ => 0

theorem orderly_step {count : Nat} (o : Orderly count s) (go : Operates s l s')
    (admits : Admits s l) (manager : ∀ host stack, l ≠ .call (.diskMgrInit host stack))
    (few : (count + births l : Int) < intMax) : Orderly (count + births l) s' := by
  obtain ⟨d, small, same⟩ := o.numbered
  have next : Small ⟨s', d.note (event s s' l)⟩ := small_step small ⟨go, rfl⟩
  have inits : (d.note (event s s' l)).inits = count + births l := by
    rw [← same]
    cases l with
    | tick | completion => rfl
    | call c =>
      cases c with
      | diskMgrInit host stack => exact absurd rfl (manager host stack)
      | _ => rfl
    | run m₁ m₂ =>
      simp only [event, births]
      split <;> rfl
  have distinct : DistinctIds s' := by
    intro a b onA onB ids
    refine distinct_ids next.kept ?_ onA onB ids
    rw [inits]
    push_cast
    exact few
  have proceeds : Proceeds s l s' := ⟨go, admits, distinct⟩
  exact ⟨waiting_step o.waiting proceeds, told_step o.waiting o.told proceeds, _, next, inits⟩

theorem boot_orderly (boot : Booted s) : Orderly 0 s := by
  have waiting := boot_waiting boot
  refine ⟨waiting, ?_, .fresh, opened_small ⟨boot, rfl⟩, rfl⟩
  intro w t points
  have alive : live (s.ctl w) = true := by
    have here := (awaits_iff _ _).mp points
    rw [here]
    rfl
  rcases (boot_live boot w).mp alive with rfl | rfl
  · have here := (awaits_iff _ _).mp points
    rw [boot.main] at here
    cases here
  · have here := (awaits_iff _ _).mp points
    rw [boot.dispatcher] at here
    cases here

/-- A task that goes on after task_wait waited for one that is over. -/
theorem awaited_is_over {count : Nat} (o : Orderly count s) {t : Tcb N}
    (here : s.ctl s.curr = .waitReturn t) : s.ctl t = .terminated := by
  rcases o.told s.curr t ((awaits_iff _ _).mpr here) with waits | ended
  · exact absurd waits (current_nowhere_else o.waiting.sound.conserved.placed (by simp))
  · exact ended_iff.mp ended

end Order

end UserPrograms
