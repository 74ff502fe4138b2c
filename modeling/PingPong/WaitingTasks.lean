import PingPong.TaskEvents

/-! Ended and waiting tasks over whole runs: which tasks can run, what task_wait returns, and
whom task_exit wakes. -/
namespace WaitingTasks
open MachineModel CircularList QueueModel KernelModel KernelEffects TaskPlacement SystemModel
open SystemFrames TransitionRuns TaskConservation TaskEvents
variable {N : Type} [DecidableEq N] [Fintype N]

structure Sound (s : System N) : Prop where
  conserved : Conserved s
  marked : Marked s

theorem boot_sound {s : System N} (boot : Booted s) : Sound s :=
  ⟨boot_conserved boot, boot_marked boot⟩

theorem sound_step {s s' : System N} {l : Label N} (sound : Sound s) (go : Operates s l s') :
    Sound s' :=
  ⟨(step_kept sound.conserved go.2 go.1).conserved,
    (step_outcome sound.conserved sound.marked go).marked⟩

section Labels
variable {s : System N} {l : Label N}

/-- The label behind an event. -/
def Means (s : System N) (l : Label N) : TaskEvent N → Prop
  | .init t => (∃ stack, l = .call (.taskInit t stack)) ∨
      ∃ host stack, l = .call (.diskMgrInit host stack) ∧ t = .diskDriverTask
  | .wait t => l = .call (.taskWait (some t))
  | .exit code => l = .call (.taskExit code)
  | .finish t => s.ctl s.curr = .waitReturn t ∧ ∃ malloc₁ malloc₂, l = .run malloc₁ malloc₂
  | _ => True

omit [DecidableEq N] [Fintype N] in
theorem event_means (s : System N) (l : Label N) : Means s l (taskEvent s l) := by
  cases l with
  | tick => trivial
  | completion => trivial
  | run malloc₁ malloc₂ =>
    unfold taskEvent
    cases here : s.ctl s.curr with
    | waitReturn t => exact ⟨here, _, _, rfl⟩
    | dispatcher point => cases point <;> trivial
    | _ => trivial
  | call c =>
    unfold taskEvent
    cases c with
    | taskInit t stack => exact Or.inl ⟨_, rfl⟩
    | taskWait t =>
      cases t with
      | none => trivial
      | some t =>
        dsimp only
        split
        · trivial
        · rfl
    | taskExit code => rfl
    | diskMgrInit host stack =>
      dsimp only
      split
      · exact Or.inr ⟨_, _, rfl, rfl⟩
      · trivial
    | _ => trivial

omit [DecidableEq N] [Fintype N] in
theorem label_of {e : TaskEvent N} (event : taskEvent s l = e) : Means s l e :=
  event ▸ event_means s l

end Labels

section Ended

/-- The dispatcher has the processor, or a task in ready_tasks. -/
def Runnable (s : System N) : Prop :=
  s.curr = .dispatcherTask ∨ s.curr ∈ tasks s.kernel .readyTasks

def Spares (t : Tcb N) : Label N → Prop
  | .call (.taskInit u _) => u ≠ t
  | .call (.diskMgrInit _ _) => t ≠ .diskDriverTask
  | _ => True

variable {s s' : System N} {l : Label N} {t : Tcb N}

theorem ended_stays (sound : Sound s) (go : Operates s l s') (spares : Spares t l)
    (ended : waitPoint (s.ctl t) = .ended) : waitPoint (s'.ctl t) = .ended := by
  obtain ⟨_, _, move⟩ := step_outcome sound.conserved sound.marked go
  have here : (taskView s).point t = .ended := ended
  have running := live_not_ended (current_live sound.conserved.placed)
  have other : t ≠ s.curr := by
    rintro rfl
    exact running ended
  change (taskView s').point t = .ended
  generalize event : taskEvent s l = e at move
  generalize taskView s' = v at move ⊢
  cases move with
  | other => exact here
  | tick => exact here
  | wake => exact here
  | sleep d => exact here
  | wait awaited _ _ => exact (Function.update_of_ne other _ _).trans here
  | finish awaited _ => exact (Function.update_of_ne other _ _).trans here
  | exit code _ => exact (Function.update_of_ne other _ _).trans here
  | init u id idle =>
    refine (Function.update_of_ne ?_ _ _).trans here
    rintro rfl
    rcases label_of event with ⟨stack, rfl⟩ | ⟨host, stack, rfl, driver⟩
    · exact spares rfl
    · exact spares driver

theorem switch_runnable {s' : System N} (body : ∃ code, s.ctl s.curr = .body code)
    (go : step s (.call (.taskSwitch (some t))) = some (.ok s')) :
    Runnable s' ↔ t = .dispatcherTask ∨ t ∈ tasks s.kernel .readyTasks := by
  obtain ⟨code, body⟩ := body
  simp only [step, body, call, taskSwitch, Except.map] at go
  cases go
  rfl

end Ended

theorem only_ready_tasks_run {s : System N} (boot : Booted s) :
    (∀ labels s₁, Run Operates s labels s₁ → Runnable s₁ ∧
      ∀ t s₂, step s₁ (.call (.taskSwitch (some t))) = some (.ok s₂) →
        (Runnable s₂ ↔ t = .dispatcherTask ∨ t ∈ tasks s₁.kernel .readyTasks)) ∧
    ∀ before s₁ code s₂ after s₃, Run Operates s before s₁ →
      Operates s₁ (.call (.taskExit code)) s₂ →
      Run (fun a l b => Operates a l b ∧ Spares s₁.curr l) s₂ after s₃ →
      s₃.curr ≠ s₁.curr ∧ (s₃.kernel.task s₁.curr).status = .terminated := by
  have sound : ∀ {labels s₁}, Run Operates s labels s₁ → Sound s₁ := fun run =>
    run_invariant Sound (fun _ _ _ sound go => sound_step sound go) run (boot_sound boot)
  constructor
  · intro labels s₁ run
    refine ⟨(sound run).conserved.placed.running, fun t s₂ go => ?_⟩
    refine switch_runnable ?_ go
    obtain ⟨code, body, -⟩ := call_runs go
    exact ⟨code, body⟩
  · intro before s₁ code s₂ after s₃ run exits more
    have ended : waitPoint (s₂.ctl s₁.curr) = .ended := by
      obtain ⟨_, _, move⟩ := step_outcome (sound run).conserved (sound run).marked exits
      change (taskView s₂).point s₁.curr = .ended
      generalize taskView s₂ = v at move ⊢
      cases move with
      | exit _ _ => exact Function.update_self _ _ _
    have last := run_invariant (fun a => Sound a ∧ waitPoint (a.ctl s₁.curr) = .ended)
      (fun _ _ _ inv both => ⟨sound_step inv.1 both.1, ended_stays inv.1 both.1 both.2 inv.2⟩)
      more ⟨sound_step (sound run) exits, ended⟩
    refine ⟨fun same => ?_, (last.1.marked _).mpr last.2⟩
    have alive := current_live last.1.conserved.placed
    rw [show s₃.kernel.curr = s₁.curr from same] at alive
    exact live_not_ended alive last.2

/-- main starts a task and hands it the processor. -/
def startTask : List (Label (Fin 1)) :=
  [.call (.taskInit (.user 0) true), .call (.taskSwitch (some (.user 0)))]

instance (t : Tcb N) (l : Label N) : Decidable (Spares t l) := by
  unfold Spares
  rcases l with _ | _ | c | _ <;> try infer_instance
  rcases c with _ | _ <;> infer_instance

theorem ended_task_rests : ∃ s₁ s₂ s₃ : System (Fin 1),
    Run Operates bootSystem startTask s₁ ∧ Operates s₁ (.call (.taskExit 7)) s₂ ∧
    Run (fun a l b => Operates a l b ∧ Spares s₁.curr l) s₂
      (List.replicate 4 (.run true true)) s₃ ∧
    Runnable s₁ ∧ s₃.curr ≠ s₁.curr ∧ (s₃.kernel.task s₁.curr).status = .terminated := by
  have ends : ((exec (guardedStep fun s l _ => Permitted s l) (bootSystem : System (Fin 1))
      startTask).bind fun s₁ =>
        (guardedStep (fun s l _ => Permitted s l) s₁ (.call (.taskExit 7))).bind fun s₂ =>
          exec (guardedStep fun s l _ => Permitted s l ∧ Spares s₁.curr l) s₂
            (List.replicate 4 (.run true true))).isSome = true := by decide +kernel
  obtain ⟨s₃, found⟩ := Option.isSome_iff_exists.mp ends
  obtain ⟨s₁, first, found⟩ := Option.bind_eq_some_iff.mp found
  obtain ⟨s₂, exits, last⟩ := Option.bind_eq_some_iff.mp found
  have run : Run Operates bootSystem startTask s₁ := exec_guarded first
  have more : Run (fun a l b => Operates a l b ∧ Spares s₁.curr l) s₂ _ s₃ :=
    run_mono (fun _ _ _ next => ⟨⟨next.1, next.2.1⟩, next.2.2⟩) (exec_guarded last)
  have facts := only_ready_tasks_run (boot_booted (N := Fin 1))
  have rests := facts.2 _ _ _ _ _ _ run (guardedStep_eq exits) more
  exact ⟨s₁, s₂, s₃, run, guardedStep_eq exits, more, (facts.1 _ _ run).1, rests⟩

/-- Any task may switch to any task that was initialised, as pingpong-tasks2 does. -/
def MaySwitch (s : System N) : Label N → Prop
  | .call (.taskSwitch (some t)) => s.ctl t ≠ .unborn
  | l => Permitted s l

instance (s : System N) (l : Label N) : Decidable (MaySwitch s l) := by
  unfold MaySwitch
  rcases l with _ | _ | c | _ <;> try infer_instance
  rcases c with _ | _ <;> try infer_instance
  case taskSwitch o => rcases o with _ | _ <;> infer_instance

def Switches (s : System N) (l : Label N) (s' : System N) : Prop :=
  step s l = some (.ok s') ∧ MaySwitch s l

/-- The task has ended and main has the processor again; then main switches to it. -/
def switchToEnded : List (Label (Fin 1)) :=
  startTask ++ [Label.call (.taskExit 7)] ++ List.replicate 4 (Label.run true true) ++
  [Label.call (.taskSwitch (some (.user 0)))]

theorem ended_task_runs :
    ¬ ∀ (s : System (Fin 1)) (labels : List (Label (Fin 1))) (s' : System (Fin 1)), Booted s →
      Run Switches s labels s' →
      Runnable s' ∧ ∀ t, s'.ctl t = .terminated →
        s'.curr ≠ t ∧ (s'.kernel.task t).status = .terminated := by
  intro claim
  obtain ⟨s', found, curr, ready⟩ := exec_reaches (guardedStep fun s l _ => MaySwitch s l)
    (bootSystem : System (Fin 1)) switchToEnded
    (fun s => s.curr = .user 0 ∧ tasks s.kernel .readyTasks = [.mainTask]) (by decide +kernel)
  have run : Run Switches bootSystem switchToEnded s' := exec_guarded found
  rcases (claim _ _ _ boot_booted run).1 with dispatcher | mem
  · rw [curr] at dispatcher
    cases dispatcher
  · rw [curr, ready] at mem
    simp at mem

section Waiting

def DistinctIds (s : System N) : Prop :=
  ∀ a b, live (s.ctl a) = true → live (s.ctl b) = true →
    (s.kernel.task a).id = (s.kernel.task b).id → a = b

/-- Tasks wait for initialised tasks, and nobody initialises a descriptor that is awaited. -/
def Admits (s : System N) : Label N → Prop
  | .call (.taskInit t _) => ∀ w, s.ctl w ≠ .waitReturn t
  | .call (.diskMgrInit _ _) => ∀ w, s.ctl w ≠ .waitReturn .diskDriverTask
  | .call (.taskWait (some t)) => s.ctl t ≠ .unborn
  | _ => True

def Proceeds (s : System N) (l : Label N) (s' : System N) : Prop :=
  Operates s l s' ∧ Admits s l ∧ DistinctIds s'

def Alive (p : WaitPoint N) : Prop := p ≠ .unborn ∧ p ≠ .ended

/-- Whoever is suspended waits for a live task and names it by its id. -/
def Blocked (v : TaskView N) (w : Tcb N) : Prop :=
  ∃ t, v.point w = .awaits t ∧ Alive (v.point t) ∧ v.waitingTask w = v.id t

structure Waiting (s : System N) : Prop where
  sound : Sound s
  distinct : DistinctIds s
  blocked : ∀ w ∈ (taskView s).suspended, Blocked (taskView s) w

variable {s s' : System N} {l : Label N}

omit [DecidableEq N] [Fintype N] in
theorem live_point (c : Ctl N) : live c = true ↔ Alive (waitPoint c) := by
  cases c <;> simp [live, waitPoint, Alive]

omit [DecidableEq N] [Fintype N] in
theorem awaits_iff (c : Ctl N) (t : Tcb N) : waitPoint c = .awaits t ↔ c = .waitReturn t := by
  cases c <;> simp [waitPoint]

omit [DecidableEq N] [Fintype N] in
theorem unborn_iff {c : Ctl N} : waitPoint c = .unborn ↔ c = .unborn := by
  cases c <;> simp [waitPoint]

omit [DecidableEq N] [Fintype N] in
theorem ended_iff {c : Ctl N} : waitPoint c = .ended ↔ c = .terminated := by
  cases c <;> simp [waitPoint]

theorem boot_waiting {s : System N} (boot : Booted s) : Waiting s := by
  have lists : tasks s.kernel = bootLists := (boot_lists boot).1.elems_eq
  refine ⟨boot_sound boot, ?_, fun w mem => ?_⟩
  · have ids : (s.kernel.task .mainTask).id ≠ (s.kernel.task .dispatcherTask).id := by
      obtain ⟨sem, run⟩ := boot.kernel
      rw [pposInit_boot, Except.ok.injEq] at run
      rw [← run]
      simp [bootKernel, zeroedTask, dispatcherPid]
    intro a b aliveA aliveB same
    rcases (boot_live boot a).mp aliveA with rfl | rfl
    · rcases (boot_live boot b).mp aliveB with rfl | rfl
      · rfl
      · exact absurd same ids
    · rcases (boot_live boot b).mp aliveB with rfl | rfl
      · exact absurd same.symm ids
      · rfl
  · change w ∈ tasks s.kernel .suspendedTasks at mem
    rw [lists] at mem
    cases mem

omit [Fintype N] in
/-- The awaited task may change its point as long as it does not end. -/
theorem blocked_update {v : TaskView N} {w u : Tcb N} {p : WaitPoint N} (here : Blocked v w)
    (other : w ≠ u) (going : Alive p) :
    Blocked { v with point := Function.update v.point u p } w := by
  obtain ⟨t, point, alive, id⟩ := here
  refine ⟨t, (Function.update_of_ne other _ _).trans point, ?_, id⟩
  change Alive (Function.update v.point u p t)
  rw [Function.update_apply]
  split
  · exact going
  · exact alive

omit [DecidableEq N] [Fintype N] in
theorem awaited_spared (admits : Admits s l) {u : Tcb N} (event : taskEvent s l = .init u)
    (w : Tcb N) : s.ctl w ≠ .waitReturn u := by
  rcases label_of event with ⟨stack, rfl⟩ | ⟨host, stack, rfl, rfl⟩
  · exact admits w
  · exact admits w

theorem blocked_step (inv : Waiting s) (go : Proceeds s l s') :
    ∀ w ∈ (taskView s').suspended, Blocked (taskView s') w := by
  obtain ⟨operates, admits, distinct⟩ := go
  have c := inv.sound.conserved
  have move := (step_outcome c inv.sound.marked operates).move
  have blocked := inv.blocked
  have awake : ∀ w ∈ (taskView s).suspended, w ≠ s.curr := by
    rintro w mem rfl
    exact current_nowhere_else c.placed (by simp) mem
  generalize event : taskEvent s l = e at move
  generalize taskView s' = v at move ⊢
  cases move with
  | other => exact blocked
  | tick => exact blocked
  | wake => exact blocked
  | sleep d => exact blocked
  | finish t here =>
    intro w mem
    exact blocked_update (blocked w mem) (awake w mem) (by simp [Alive])
  | wait t here going =>
    intro w mem
    rcases List.mem_append.mp mem with old | new
    · obtain ⟨u, point, alive, id⟩ := blocked_update (p := .awaits t) (blocked w old)
        (awake w old) (by simp [Alive])
      exact ⟨u, point, alive, (Function.update_of_ne (awake w old) _ _).trans id⟩
    · rw [List.mem_singleton.mp new]
      refine ⟨t, Function.update_self _ _ _, ?_, Function.update_self _ _ _⟩
      change Alive (Function.update (taskView s).point s.curr (.awaits t) t)
      rw [Function.update_apply]
      split
      · simp [Alive]
      · refine ⟨fun unborn => ?_, going⟩
        rw [show l = .call (.taskWait (some t)) from label_of event] at admits
        exact admits (unborn_iff.mp unborn)
  | exit code here =>
    intro w mem
    obtain ⟨old, stays⟩ := List.mem_filter.mp mem
    have stays : (taskView s).waitingTask w ≠ (taskView s).id s.curr := by simpa using stays
    obtain ⟨t, point, alive, id⟩ := blocked w old
    have other : t ≠ s.curr := by
      rintro rfl
      exact stays id
    refine ⟨t, (Function.update_of_ne (awake w old) _ _).trans point, ?_, ?_⟩
    · change Alive (Function.update (taskView s).point s.curr .ended t)
      rw [Function.update_of_ne other]
      exact alive
    · exact (if_neg fun both => stays both.2).trans id
  | init u id idle =>
    intro w mem
    obtain ⟨t, point, alive, same⟩ := blocked w mem
    have waiter : w ≠ u := by
      rintro rfl
      rw [point] at idle
      rcases idle with idle | idle <;> cases idle
    have awaited : t ≠ u := by
      rintro rfl
      exact awaited_spared admits event w ((awaits_iff _ _).mp point)
    refine ⟨t, (Function.update_of_ne waiter _ _).trans point, ?_, ?_⟩
    · change Alive (Function.update (taskView s).point u .active t)
      rw [Function.update_of_ne awaited]
      exact alive
    · change Function.update (taskView s).waitingTask u (-1) w =
        Function.update (taskView s).id u id t
      rw [Function.update_of_ne waiter, Function.update_of_ne awaited]
      exact same

theorem waiting_step (inv : Waiting s) (go : Proceeds s l s') : Waiting s' :=
  ⟨sound_step inv.sound go.1, go.2.2, blocked_step inv go⟩

end Waiting

section Returning

/-- A step before the call of task_wait by w has returned. -/
def StillWaits (w : Tcb N) (s : System N) (l : Label N) (s' : System N) : Prop :=
  Proceeds s l s' ∧ (s.curr = w → ∀ malloc₁ malloc₂, l ≠ .run malloc₁ malloc₂)

/-- Somewhere in the run from s the task t executed task_exit(code). -/
def Exited (w : Tcb N) (s : System N) (labels : List (Label N)) (t : Tcb N) (code : Int) :
    Prop :=
  ∃ before after a b, labels = before ++ .call (.taskExit code) :: after ∧
    Run (StillWaits w) s before a ∧ a.curr = t ∧ Operates a (.call (.taskExit code)) b

/-- Once the waiter is out of suspended_tasks its task has ended with the code it keeps. -/
structure Owed (w t : Tcb N) (s : System N) (labels : List (Label N)) (a : System N) : Prop where
  waiting : Waiting a
  point : (taskView a).point w = .awaits t
  told : w ∉ (taskView a).suspended →
    (taskView a).point t = .ended ∧ Exited w s labels t ((taskView a).exitCode t)

variable {s a b : System N} {l : Label N} {labels : List (Label N)} {w t : Tcb N}

theorem exited_extend {code : Int} (l : Label N) (exited : Exited w s labels t code) :
    Exited w s (labels ++ [l]) t code := by
  obtain ⟨before, after, a, b, whole, rest⟩ := exited
  exact ⟨before, after ++ [l], a, b, by simp [whole], rest⟩

theorem owed_step (run : Run (StillWaits w) s labels a) (inv : Owed w t s labels a)
    (go : StillWaits w a l b) : Owed w t s (labels ++ [l]) b := by
  obtain ⟨proceeds, pending⟩ := go
  have waiting := inv.waiting
  have move := (step_outcome waiting.sound.conserved waiting.sound.marked proceeds.1).move
  have point := inv.point
  have told : w ∉ (taskView a).suspended → (taskView a).point t = .ended ∧
      Exited w s (labels ++ [l]) t ((taskView a).exitCode t) := fun out =>
    ⟨(inv.told out).1, exited_extend l (inv.told out).2⟩
  suffices both : (taskView b).point w = .awaits t ∧ (w ∉ (taskView b).suspended →
      (taskView b).point t = .ended ∧
      Exited w s (labels ++ [l]) t ((taskView b).exitCode t)) from
    ⟨waiting_step waiting proceeds, both.1, both.2⟩
  generalize event : taskEvent a l = e at move
  generalize taskView b = v at move ⊢
  have means := label_of event
  cases move with
  | other => exact ⟨point, told⟩
  | tick => exact ⟨point, told⟩
  | wake => exact ⟨point, told⟩
  | sleep d => exact ⟨point, told⟩
  | wait u here going =>
    have other : w ≠ a.curr := by
      rintro rfl
      rw [here] at point
      cases point
    refine ⟨(Function.update_of_ne other _ _).trans point, fun out => ?_⟩
    obtain ⟨ended, exited⟩ := told fun mem => out (List.mem_append_left _ mem)
    refine ⟨(Function.update_of_ne ?_ _ _).trans ended, exited⟩
    rintro rfl
    rw [here] at ended
    cases ended
  | finish u here =>
    obtain ⟨m₁, m₂, rfl⟩ := means.2
    have other : w ≠ a.curr := fun same => pending same.symm m₁ m₂ rfl
    refine ⟨(Function.update_of_ne other _ _).trans point, fun out => ?_⟩
    obtain ⟨ended, exited⟩ := told out
    refine ⟨(Function.update_of_ne ?_ _ _).trans ended, exited⟩
    rintro rfl
    rw [here] at ended
    cases ended
  | exit code here =>
    have other : w ≠ a.curr := by
      rintro rfl
      rw [here] at point
      cases point
    refine ⟨(Function.update_of_ne other _ _).trans point, fun out => ?_⟩
    by_cases mem : w ∈ (taskView a).suspended
    · have named : (taskView a).waitingTask w = (taskView a).id a.curr := by
        by_contra different
        exact out (List.mem_filter.mpr ⟨mem, by simpa using different⟩)
      obtain ⟨u, points, alive, id⟩ := waiting.blocked w mem
      cases points.symm.trans point
      -- the awaited task is the one that exits: ids of live tasks differ
      have same : t = a.curr := waiting.distinct t a.curr ((live_point _).mpr alive)
        (current_live waiting.sound.conserved.placed) (id.symm.trans named)
      subst same
      have exited : Exited w s (labels ++ [l]) a.curr code :=
        ⟨labels, [], a, b, by rw [means], run, rfl, by rw [← means]; exact proceeds.1⟩
      refine ⟨Function.update_self _ _ _, ?_⟩
      change Exited w s _ _ (Function.update (taskView a).exitCode a.curr code a.curr)
      rw [Function.update_self]
      exact exited
    · obtain ⟨ended, exited⟩ := told mem
      have awaited : t ≠ a.curr := by
        rintro rfl
        rw [here] at ended
        cases ended
      refine ⟨(Function.update_of_ne awaited _ _).trans ended, ?_⟩
      change Exited w s _ t (Function.update (taskView a).exitCode a.curr code t)
      rw [Function.update_of_ne awaited]
      exact exited
  | init u id idle =>
    have waiter : w ≠ u := by
      rintro rfl
      rw [point] at idle
      rcases idle with idle | idle <;> cases idle
    have awaited : t ≠ u := by
      rintro rfl
      exact awaited_spared proceeds.2.1 event w ((awaits_iff _ _).mp point)
    refine ⟨(Function.update_of_ne waiter _ _).trans point, fun out => ?_⟩
    obtain ⟨ended, exited⟩ := told out
    refine ⟨(Function.update_of_ne awaited _ _).trans ended, ?_⟩
    change Exited w s _ t (Function.update (taskView a).exitCode u 0 t)
    rw [Function.update_of_ne awaited]
    exact exited

theorem owed_start (inv : Waiting s) (go : Proceeds s (.call (.taskWait (some t))) a)
    (going : s.ctl t ≠ .terminated) : Owed s.curr t a [] a := by
  have move := (step_outcome inv.sound.conserved inv.sound.marked go.1).move
  have event : taskEvent s (.call (.taskWait (some t))) = .wait t := by
    have status : (s.kernel.task t).status ≠ .terminated := fun ended =>
      going (ended_iff.mp ((inv.sound.marked t).mp ended))
    simp [taskEvent, status]
  rw [event] at move
  have waiting := waiting_step inv go
  suffices both : (taskView a).point s.curr = .awaits t ∧ s.curr ∈ (taskView a).suspended from
    ⟨waiting, both.1, fun out => absurd both.2 out⟩
  generalize taskView a = v at move ⊢
  cases move with
  | wait u here going => exact ⟨Function.update_self _ _ _, by simp⟩

theorem owed_return (inv : Owed w t s labels a) (here : a.curr = w) {malloc₁ malloc₂ : Bool}
    (go : step a (.run malloc₁ malloc₂) = some (.ok b)) :
    ∃ code, b = a.answer code ∧ Exited w s labels t code := by
  have awake : w ∉ (taskView a).suspended := by
    subst here
    exact current_nowhere_else inv.waiting.sound.conserved.placed (by simp)
  have ctl := (awaits_iff _ _).mp inv.point
  rw [← here] at ctl
  simp only [step, advance, ctl, Option.some.injEq, Except.ok.injEq] at go
  exact ⟨_, go.symm, (inv.told awake).2⟩

end Returning

section Exiting

def waitsFor (s : System N) (t w : Tcb N) : Bool :=
  match s.ctl w with
  | .waitReturn u => decide (u = t)
  | _ => false

variable {s s' : System N} {code : Int}

theorem waits_iff (inv : Waiting s) {w : Tcb N} (mem : w ∈ tasks s.kernel .suspendedTasks) :
    decide ((s.kernel.task w).waitingTask = (s.kernel.task s.curr).id) =
      waitsFor s s.curr w := by
  obtain ⟨t, point, alive, id⟩ := inv.blocked w mem
  have ctl := (awaits_iff _ _).mp point
  have here := current_live inv.sound.conserved.placed
  simp only [waitsFor, ctl]
  by_cases same : t = s.curr
  · subst same
    have named : (s.kernel.task w).waitingTask = (s.kernel.task s.curr).id := id
    simp [named]
  · have different : (s.kernel.task w).waitingTask ≠ (s.kernel.task s.curr).id := fun named =>
      same (inv.distinct t s.curr ((live_point _).mpr alive) here (id.symm.trans named))
    simp [same, different]

structure ExitMoves (s s' : System N) : Prop where
  ready : tasks s'.kernel .readyTasks = (tasks s.kernel .readyTasks).erase s.curr ++
    (tasks s.kernel .suspendedTasks).filter (waitsFor s s.curr)
  suspended : tasks s'.kernel .suspendedTasks =
    (tasks s.kernel .suspendedTasks).filter fun w => !waitsFor s s.curr w
  elsewhere : ∀ q, q ≠ .readyTasks → q ≠ .suspendedTasks →
    tasks s'.kernel q = tasks s.kernel q

theorem exit_moves (inv : Waiting s) (go : Operates s (.call (.taskExit code)) s') :
    ExitMoves s s' := by
  have c := inv.sound.conserved
  obtain ⟨run, _⟩ := go
  obtain ⟨old, body, run⟩ := call_runs run
  have user := not_dispatcher c (t := s.curr) (by rw [body]; simp [role])
  obtain ⟨k, exits, rfl⟩ := map_ok run
  obtain ⟨_, _, lists⟩ := exit_exact c.placed user exits
  have found : ∀ w ∈ tasks s.kernel .suspendedTasks,
      decide ((s.kernel.task w).waitingTask = (s.kernel.task s.kernel.curr).id) =
        waitsFor s s.curr w := fun w mem => waits_iff inv mem
  refine ⟨?_, ?_, ?_⟩
  · change tasks k .readyTasks = _
    rw [lists, listRemove_same, resumeLists_target,
      List.erase_append_left _ (current_ready c.placed user), List.filter_congr found]
    rfl
  · change tasks k .suspendedTasks = _
    rw [lists, listRemove_other _ _ (by simp), resumeLists_source _ _ _ (by simp),
      List.append_nil]
    exact List.filter_congr fun w mem => by rw [found w mem]
  · intro q notReady notSuspended
    change tasks k q = _
    rw [lists, listRemove_other _ _ notReady, resumeLists_other _ _ _ notSuspended notReady]

end Exiting

theorem wait_and_exit_agree {s₀ s : System N} (boot : Booted s₀) {before : List (Label N)}
    (run : Run Proceeds s₀ before s) :
    (∀ t s₁, Proceeds s (.call (.taskWait (some t))) s₁ →
      (s.ctl t = .terminated → s₁ = s.answer (-1)) ∧
      (s.ctl t ≠ .terminated → ∀ labels s₂, Run (StillWaits s.curr) s₁ labels s₂ →
        s₂.ctl s.curr = .waitReturn t ∧
        ∀ malloc₁ malloc₂ s₃, s₂.curr = s.curr →
          step s₂ (.run malloc₁ malloc₂) = some (.ok s₃) →
          ∃ code, s₃ = s₂.answer code ∧ Exited s.curr s₁ labels t code)) ∧
    ∀ code s₁, Operates s (.call (.taskExit code)) s₁ → ExitMoves s s₁ := by
  have waiting : Waiting s :=
    run_invariant Waiting (fun _ _ _ inv go => waiting_step inv go) run (boot_waiting boot)
  refine ⟨fun t s₁ go => ⟨fun ended => ?_, fun going labels s₂ more => ?_⟩,
    fun code s₁ go => exit_moves waiting go⟩
  · have status := (waiting.sound.marked t).mpr (ended_iff.mpr ended)
    have ran := go.1.1
    obtain ⟨-, -, ran⟩ := call_runs ran
    simp only [call, taskWait, status, ↓reduceIte, Except.map, Except.ok.injEq] at ran
    exact ran.symm
  · have owed : Owed s.curr t s₁ labels s₂ :=
      run_history (Owed s.curr t s₁) (fun _ _ _ _ earlier inv next => owed_step earlier inv next)
        more (owed_start waiting go going)
    exact ⟨(awaits_iff _ _).mp owed.point, fun _ _ _ here ran => owed_return owed here ran⟩

instance (s : System N) : Decidable (DistinctIds s) :=
  inferInstanceAs (Decidable (∀ _ _, _))

instance (s : System N) (l : Label N) : Decidable (Admits s l) := by
  unfold Admits
  rcases l with _ | _ | c | _ <;> try infer_instance
  rcases c with _ | _ <;> try infer_instance
  case taskWait o => rcases o with _ | _ <;> infer_instance

abbrev careful (s : System N) (l : Label N) (s' : System N) : Prop :=
  Permitted s l ∧ Admits s l ∧ DistinctIds s'

theorem careful_proceeds {s s' : System N} {l : Label N}
    (next : step s l = some (.ok s') ∧ careful s l s') : Proceeds s l s' :=
  ⟨⟨next.1, next.2.1⟩, next.2.2⟩

def waitForTask : List (Label (Fin 1)) :=
  List.replicate 4 (Label.run true true) ++ [Label.call (.taskExit 7)] ++
  List.replicate 5 (Label.run true true)

theorem main_waits_for_a_task : ∃ s s₁ s₂ s₃ : System (Fin 1),
    Run Proceeds bootSystem [.call (.taskInit (.user 0) true)] s ∧
    Proceeds s (.call (.taskWait (some (.user 0)))) s₁ ∧ s.ctl (.user 0) ≠ .terminated ∧
    Run (StillWaits s.curr) s₁ waitForTask s₂ ∧ s₂.curr = s.curr ∧
    step s₂ (.run true true) = some (.ok s₃) ∧
    (∃ code, s₃ = s₂.answer code ∧ Exited s.curr s₁ waitForTask (.user 0) code) ∧
    s₃.ctl .mainTask = .body 7 := by
  have ends : ((guardedStep careful bootSystem (.call (.taskInit (.user 0) true))).bind fun s =>
      (guardedStep careful s (.call (.taskWait (some (.user 0))))).bind fun s₁ =>
        (exec (guardedStep fun s l s' => careful s l s' ∧ s.curr ≠ .mainTask) s₁
            waitForTask).bind fun s₂ =>
          guardedStep (fun s₂ _ s₃ => s.curr = .mainTask ∧ s.ctl (.user 0) ≠ .terminated ∧
              s₂.curr = .mainTask ∧ s₃.ctl .mainTask = .body 7) s₂
            (.run true true)).isSome = true := by
    decide +kernel
  obtain ⟨s₃, found⟩ := Option.isSome_iff_exists.mp ends
  obtain ⟨s, init, found⟩ := Option.bind_eq_some_iff.mp found
  obtain ⟨s₁, waits, found⟩ := Option.bind_eq_some_iff.mp found
  obtain ⟨s₂, pending, last⟩ := Option.bind_eq_some_iff.mp found
  obtain ⟨returns, here, going, back, answer⟩ := guardedStep_eq last
  have before : Run Proceeds bootSystem [.call (.taskInit (.user 0) true)] s :=
    run_one (careful_proceeds (guardedStep_eq init))
  have call := careful_proceeds (guardedStep_eq waits)
  have more : Run (StillWaits s.curr) s₁ waitForTask s₂ := by
    refine run_mono (fun a l b next => ?_) (exec_guarded pending)
    exact ⟨careful_proceeds ⟨next.1, next.2.1⟩, fun same => absurd (same.trans here) next.2.2⟩
  have same : s₂.curr = s.curr := back.trans here.symm
  have agree := wait_and_exit_agree boot_booted before
  have returned := (((agree.1 _ _ call).2 going _ _ more).2 true true s₃ same returns)
  exact ⟨s, s₁, s₂, s₃, before, call, going, more, same, returns, returned, answer⟩

end WaitingTasks
