import PingPong.TaskFates

/-!
The status field against the queues. Each operation that moves a task writes the status that goes
with its new place, but task_switch writes SUSPENDED whatever the place of the task that leaves,
task_resume writes READY whether or not it has moved its task, and task_exit does not write the
status of the dispatcher.
-/
namespace StatusTracking
open MachineModel CircularList QueueModel KernelModel KernelEffects TaskPlacement SystemModel
open SystemFrames TransitionRuns TaskConservation KernelActs TaskFates
variable {N : Type} [DecidableEq N] [Fintype N]

section Statuses

/-- The status of the task tells where it is. -/
structure Tracks (s : System N) (t : Tcb N) : Prop where
  running : (s.kernel.task t).status = .running ↔ t = s.curr
  ready : (s.kernel.task t).status = .ready ↔ t ∈ tasks s.kernel .readyTasks ∧ t ≠ s.curr
  suspended : (s.kernel.task t).status = .suspended ↔
    ∃ q, q ≠ .readyTasks ∧ t ∈ tasks s.kernel q
  terminated : (s.kernel.task t).status = .terminated ↔ s.ctl t = .terminated

/-- The status that goes with the place of a task; for the dispatcher, the one it has to have
    when it runs. -/
def place (s : System N) (t : Tcb N) : TaskState :=
  if t = s.curr ∨ t = .dispatcherTask then .running
  else if t ∈ tasks s.kernel .readyTasks then .ready
  else if live (s.ctl t) then .suspended
  else .terminated

variable {s s' : System N} {l : Label N} {t : Tcb N}

theorem dispatcher_unqueued (c : Conserved s) (q : TaskQueue) :
    .dispatcherTask ∉ tasks s.kernel q := fun mem => ((c.placed.queued _).mp ⟨q, mem⟩).2 rfl

theorem tracks_status {status : TaskState} (running : status = .running ↔ t = s.curr)
    (ready : status = .ready ↔ t ∈ tasks s.kernel .readyTasks ∧ t ≠ s.curr)
    (suspended : status = .suspended ↔ ∃ q, q ≠ .readyTasks ∧ t ∈ tasks s.kernel q)
    (terminated : status = .terminated ↔ s.ctl t = .terminated) :
    Tracks s t ↔ (s.kernel.task t).status = status := by
  constructor
  · intro tracks
    cases status with
    | ready => exact tracks.ready.mpr (ready.mp rfl)
    | running => exact tracks.running.mpr (running.mp rfl)
    | suspended => exact tracks.suspended.mpr (suspended.mp rfl)
    | terminated => exact tracks.terminated.mpr (terminated.mp rfl)
  · intro same
    rw [← same] at running ready suspended terminated
    exact ⟨running, ready, suspended, terminated⟩

omit [DecidableEq N] [Fintype N] in
theorem live_cases (born : s.ctl t ≠ .unborn) : live (s.ctl t) = true ∨ s.ctl t = .terminated := by
  cases here : s.ctl t with
  | unborn => exact absurd here born
  | terminated => exact Or.inr rfl
  | body | waitReturn | semDown | semUp | send | recv | destroy | blockOp | driver | dispatcher =>
    exact Or.inl rfl

theorem current_tracks (c : Conserved s) :
    Tracks s s.curr ↔ (s.kernel.task s.curr).status = .running := by
  have alive : live (s.ctl s.curr) = true := current_live c.placed
  have going : s.ctl s.curr ≠ .terminated := by
    intro ended
    rw [ended] at alive
    cases alive
  refine tracks_status (by simp) (by simp) ?_ (by simp [going])
  refine ⟨fun impossible => (by cases impossible), ?_⟩
  rintro ⟨q, other, mem⟩
  exact absurd mem (current_nowhere_else c.placed other)

theorem dispatcher_tracks (c : Conserved s) (gone : s.curr ≠ .dispatcherTask) :
    ¬ Tracks s .dispatcherTask := by
  intro tracks
  have nowhere := dispatcher_unqueued c
  cases status : (s.kernel.task .dispatcherTask).status with
  | ready => exact nowhere _ (tracks.ready.mp status).1
  | running => exact gone (tracks.running.mp status).symm
  | suspended =>
    obtain ⟨q, -, mem⟩ := tracks.suspended.mp status
    exact nowhere q mem
  | terminated =>
    have ended := tracks.terminated.mp status
    have role := (c.dispatcherRole .dispatcherTask).mpr rfl
    rw [ended] at role
    cases role

theorem waiting_tracks (c : Conserved s) (born : s.ctl t ≠ .unborn) (own : t ≠ s.curr)
    (user : t ≠ .dispatcherTask) : Tracks s t ↔ (s.kernel.task t).status = place s t := by
  have queued : (∃ q, t ∈ tasks s.kernel q) ↔ live (s.ctl t) = true := by
    rw [c.placed.queued t]
    exact and_iff_left user
  unfold place
  rw [if_neg (not_or.mpr ⟨own, user⟩)]
  by_cases ready : t ∈ tasks s.kernel .readyTasks
  · rw [if_pos ready]
    have going : s.ctl t ≠ .terminated := by
      intro ended
      have alive := queued.mp ⟨_, ready⟩
      rw [ended] at alive
      cases alive
    refine tracks_status (by simp [own]) (by simp [ready, own]) ?_ (by simp [going])
    refine ⟨fun impossible => (by cases impossible), ?_⟩
    rintro ⟨q, other, mem⟩
    exact absurd (c.placed.wellFormed.unique mem ready) other
  · rw [if_neg ready]
    rcases live_cases born with alive | ended
    · rw [if_pos alive]
      obtain ⟨q, mem⟩ := queued.mpr alive
      have going : s.ctl t ≠ .terminated := by
        intro ended
        rw [ended] at alive
        cases alive
      refine tracks_status (by simp [own]) (by simp [ready]) ?_ (by simp [going])
      refine ⟨fun _ => ⟨q, ?_, mem⟩, fun _ => rfl⟩
      rintro rfl
      exact ready mem
    · have dead : live (s.ctl t) = false := by rw [ended]; rfl
      rw [dead]
      refine tracks_status (by simp [own]) (by simp [ready]) ?_ (by simp [ended])
      refine ⟨fun impossible => (by cases impossible), ?_⟩
      rintro ⟨q, -, mem⟩
      have alive := queued.mp ⟨q, mem⟩
      rw [dead] at alive
      cases alive

theorem tracks_iff (c : Conserved s) (born : s.ctl t ≠ .unborn) :
    Tracks s t ↔ (t = .dispatcherTask → s.curr = .dispatcherTask) ∧
      (s.kernel.task t).status = place s t := by
  by_cases own : t = s.curr
  · have here : place s s.curr = .running := if_pos (Or.inl rfl)
    subst own
    rw [here, current_tracks c]
    exact ⟨fun running => ⟨id, running⟩, And.right⟩
  · by_cases dispatcher : t = .dispatcherTask
    · subst dispatcher
      constructor
      · intro tracks
        exact absurd tracks (dispatcher_tracks c (Ne.symm own))
      · rintro ⟨runs, -⟩
        exact absurd (runs rfl).symm own
    · rw [waiting_tracks c born own dispatcher]
      exact ⟨fun same => ⟨fun impossible => absurd impossible dispatcher, same⟩, And.right⟩

end Statuses

section Steps

/-- disk_sighandle and disk_block_op resume the driver as if it were in disk_queue. -/
def Wakes (s : System N) : Label N → Prop
  | .completion => True
  | .run _ _ => (∃ block buffer op, s.ctl s.curr = .blockOp block buffer op .resume) ∧
      (s.kernel.task .diskDriverTask).status = .suspended
  | _ => False

def Exits : Label N → Prop
  | .call (.taskExit _) => True
  | _ => False

/-- task_switch of the running task to itself; the dispatcher can only yield. -/
def SwitchesToItself (s : System N) : Label N → Prop
  | .call (.taskSwitch (some t)) => t = s.curr
  | .tick => s.curr = .dispatcherTask ∧
      toInt ((s.kernel.task s.curr).quantum + 1) = quantumLimit
  | _ => False

/-- The task leaves the processor but not ready_tasks, or it is the driver and is resumed while
    it runs or while it waits for the semaphore of the disk. -/
def FallsBehind (s : System N) (l : Label N) (s' : System N) (t : Tcb N) : Prop :=
  (s.curr = t ∧ s'.curr ≠ t ∧ (t = .dispatcherTask ∨ t ∈ tasks s'.kernel .readyTasks)) ∨
  (t = .diskDriverTask ∧ Wakes s l ∧ t ∉ tasks s.kernel .diskQueue ∧
    (t = s.curr ∨ t ∉ tasks s.kernel .readyTasks))

/-- The task is switched to, or it leaves or joins ready_tasks, or it is the driver and is resumed
    while it is ready. -/
def CatchesUp (s : System N) (l : Label N) (s' : System N) (t : Tcb N) : Prop :=
  (s.curr ≠ t ∧ s'.curr = t ∧ ¬ Exits l) ∨ (s.curr = t ∧ SwitchesToItself s l) ∨
  ¬ (t ∈ tasks s'.kernel .readyTasks ↔ t ∈ tasks s.kernel .readyTasks) ∨
  (t = .diskDriverTask ∧ Wakes s l ∧ t ≠ s.curr ∧ t ∈ tasks s.kernel .readyTasks)

/-- What a step means for the status of one task. -/
inductive Told (s : System N) (l : Label N) (s' : System N) (t : Tcb N) : Prop where
  | same (status : (s'.kernel.task t).status = (s.kernel.task t).status)
      (placed : place s' t = place s t) (born : s'.ctl t ≠ .unborn → s.ctl t ≠ .unborn)
      (keeps : ¬ FallsBehind s l s' t) (still : ¬ CatchesUp s l s' t)
  | right (status : (s'.kernel.task t).status = place s' t) (keeps : ¬ FallsBehind s l s' t)
      (moves : CatchesUp s l s' t)
  | wrong (status : (s'.kernel.task t).status ≠ place s' t) (falls : FallsBehind s l s' t)

variable {s s' : System N} {l : Label N} {t : Tcb N}

theorem place_ready (other : t ≠ s.curr) (user : t ≠ .dispatcherTask)
    (ready : t ∈ tasks s.kernel .readyTasks) : place s t = .ready := by
  unfold place
  rw [if_neg (not_or.mpr ⟨other, user⟩), if_pos ready]

theorem place_waiting (other : t ≠ s.curr) (user : t ≠ .dispatcherTask)
    (out : t ∉ tasks s.kernel .readyTasks) (alive : live (s.ctl t) = true) :
    place s t = .suspended := by
  unfold place
  rw [if_neg (not_or.mpr ⟨other, user⟩), if_neg out, if_pos alive]

theorem place_ended (other : t ≠ s.curr) (user : t ≠ .dispatcherTask)
    (out : t ∉ tasks s.kernel .readyTasks) (dead : live (s.ctl t) = false) :
    place s t = .terminated := by
  unfold place
  rw [if_neg (not_or.mpr ⟨other, user⟩), if_neg out, dead]
  rfl

theorem place_same (curr : s'.curr = t ↔ s.curr = t)
    (ready : t ∈ tasks s'.kernel .readyTasks ↔ t ∈ tasks s.kernel .readyTasks)
    (alive : live (s'.ctl t) = live (s.ctl t)) : place s' t = place s t := by
  unfold place
  simp only [eq_comm (a := t) (b := s'.curr), eq_comm (a := t) (b := s.curr), curr, ready, alive]

theorem ready_user (c : Conserved s) (ready : t ∈ tasks s.kernel .readyTasks) :
    t ≠ .dispatcherTask := ((c.placed.queued t).mp ⟨_, ready⟩).2

theorem told_fate (c : Conserved s) (c' : Conserved s') (fate : Fate s.kernel s'.kernel t)
    (kept : t ∈ tasks s.kernel .readyTasks ∨ t ∉ tasks s'.kernel .readyTasks →
      s'.ctl t = s.ctl t ∨ live (s.ctl t) = true ∧ live (s'.ctl t) = true)
    (wakes : t = .diskDriverTask → Wakes s l → t ∈ tasks s.kernel .diskQueue)
    (itself : s.curr = t → ¬ SwitchesToItself s l) (exits : s'.curr = t → ¬ Exits l) :
    Told s l s' t := by
  have resumed : ¬ (t = .diskDriverTask ∧ Wakes s l ∧ t ∉ tasks s.kernel .diskQueue ∧
      (t = s.curr ∨ t ∉ tasks s.kernel .readyTasks)) := by
    rintro ⟨driver, woken, out, -⟩
    exact out (wakes driver woken)
  cases fate with
  | stays status ready curr =>
    have same : s'.ctl t = s.ctl t ∨ live (s.ctl t) = true ∧ live (s'.ctl t) = true := by
      refine kept ?_
      by_cases here : t ∈ tasks s.kernel .readyTasks
      · exact Or.inl here
      · exact Or.inr (ready.not.mpr here)
    have alive : live (s'.ctl t) = live (s.ctl t) := by
      rcases same with same | ⟨before, after⟩
      · rw [same]
      · rw [before, after]
    refine .same status (place_same curr ready alive) ?_ ?_ ?_
    · intro born
      rcases same with same | ⟨before, -⟩
      · rwa [← same]
      · intro unborn
        rw [unborn] at before
        cases before
    · rintro (⟨own, gone, -⟩ | woken)
      · exact gone (curr.mpr own)
      · exact resumed woken
    · rintro (⟨other, own, -⟩ | ⟨own, switches⟩ | moved | ⟨driver, woken, -, here⟩)
      · exact other (curr.mp own)
      · exact itself own switches
      · exact moved ready
      · cases c.placed.wellFormed.unique (wakes driver woken) here
  | joins out ready other status =>
    have user := ready_user c' ready
    refine .right (status.trans (place_ready (Ne.symm other) user ready).symm) ?_ ?_
    · rintro (⟨own, -, -⟩ | woken)
      · subst own
        exact out (current_ready c.placed user)
      · exact resumed woken
    · exact Or.inr (Or.inr (Or.inl fun same => out (same.mp ready)))
  | sleeps own ready out gone status =>
    have user := ready_user c ready
    have alive : live (s'.ctl t) = true := by
      rcases kept (Or.inl ready) with same | ⟨-, after⟩
      · rw [same]
        exact ((c.placed.queued t).mp ⟨_, ready⟩).1
      · exact after
    have waits : place s' t = .suspended := place_waiting (Ne.symm gone) user out alive
    refine .right (status.trans waits.symm) ?_ ?_
    · rintro (⟨-, -, dispatcher | here⟩ | woken)
      · exact user dispatcher
      · exact out here
      · exact resumed woken
    · exact Or.inr (Or.inr (Or.inl fun same => out (same.mpr ready)))
  | arrives other own status =>
    have runs : place s' t = .running := if_pos (Or.inl own.symm)
    refine .right (status.trans runs.symm) ?_ (Or.inl ⟨other, own, exits own⟩)
    rintro (⟨here, -, -⟩ | woken)
    · exact other here
    · exact resumed woken
  | leaves own gone stays status =>
    refine .wrong ?_ (Or.inl ⟨own, gone, stays⟩)
    rw [status]
    by_cases dispatcher : t = .dispatcherTask
    · have runs : place s' t = .running := if_pos (Or.inr dispatcher)
      rw [runs]
      simp
    · rw [place_ready (Ne.symm gone) dispatcher (stays.resolve_left dispatcher)]
      simp

theorem told_plain (c : Conserved s) (c' : Conserved s')
    (fates : ∀ t, Fate s.kernel s'.kernel t)
    (kept : ∀ t, s'.ctl t = s.ctl t ∨ live (s.ctl t) = true ∧ live (s'.ctl t) = true)
    (calm : ¬ Wakes s l) (itself : ¬ SwitchesToItself s l) (exits : ¬ Exits l) (t : Tcb N) :
    Told s l s' t :=
  told_fate c c' (fates t) (fun _ => kept t) (fun _ woken => absurd woken calm)
    (fun _ => itself) fun _ => exits

omit [Fintype N] in
theorem goto_kept {t : Tcb N} {p : Ctl N} (alive : live (s.ctl t) = true) (alive' : live p = true)
    (ctl : s'.ctl = Function.update s.ctl t p) (a : Tcb N) :
    s'.ctl a = s.ctl a ∨ live (s.ctl a) = true ∧ live (s'.ctl a) = true := by
  rw [ctl]
  by_cases own : a = t
  · subst own
    rw [Function.update_self]
    exact Or.inr ⟨alive, alive'⟩
  · exact Or.inl (Function.update_of_ne own _ _)

omit [Fintype N] in
theorem goto_twice {u : Tcb N} {p q : Ctl N} (alive : live (s.ctl s.curr) = true)
    (alive' : live q = true)
    (ctl : s'.ctl = Function.update (Function.update s.ctl u p) s.curr q) {a : Tcb N}
    (other : a ≠ u) :
    s'.ctl a = s.ctl a ∨ live (s.ctl a) = true ∧ live (s'.ctl a) = true := by
  rw [ctl]
  by_cases own : a = s.curr
  · subst own
    rw [Function.update_self]
    exact Or.inr ⟨alive, alive'⟩
  · rw [Function.update_of_ne own, Function.update_of_ne other]
    exact Or.inl rfl

theorem told_acts (c : Conserved s) (c' : Conserved s') (user : s.curr ≠ .dispatcherTask)
    (acts : Acts s s') (calm : ¬ Wakes s l) (itself : ¬ SwitchesToItself s l) (exits : ¬ Exits l)
    (t : Tcb N) : Told s l s' t := by
  obtain ⟨act, p, alive', ctl⟩ := acts
  have alive : live (s.ctl s.curr) = true := current_live c.placed
  exact told_plain c c' (fate_act c.placed user act) (goto_kept alive alive' ctl) calm itself
    exits t

theorem told_itself (c : Conserved s) (c' : Conserved s') {j : Kernel N}
    (before : Still s.kernel j) (run : taskSwitch j (some s.curr) = .ok s'.kernel)
    (kept : ∀ t, s'.ctl t = s.ctl t ∨ live (s.ctl t) = true ∧ live (s'.ctl t) = true)
    (itself : SwitchesToItself s l) (calm : ¬ Wakes s l) (exits : ¬ Exits l) (t : Tcb N) :
    Told s l s' t := by
  have same : j.curr = s.curr := before.curr
  rw [← same] at run
  obtain ⟨running, curr, -, others⟩ := fate_self run
  have curr' : s'.curr = s.curr := curr.trans same
  by_cases own : t = s.curr
  · have runs : place s' t = .running := if_pos (Or.inl (own.trans curr'.symm))
    refine .right ?_ ?_ (Or.inr (Or.inl ⟨own.symm, itself⟩))
    · rw [runs, own, ← same]
      exact running
    · rintro (⟨-, gone, -⟩ | ⟨-, woken, -⟩)
      · exact gone (curr'.trans own.symm)
      · exact calm woken
  · refine told_fate c c' (fate_after before (others t ?_)) (fun _ => kept t)
      (fun _ woken => absurd woken calm) (fun here => absurd here.symm own) fun _ => exits
    rw [same]
    exact own

theorem told_tick (c : Conserved s) (c' : Conserved s') (go : step s .tick = some (.ok s'))
    (t : Tcb N) : Told s .tick s' t := by
  obtain ⟨k, run, rfl⟩ := map_ok (Option.some.inj go)
  have kept : ∀ t, (s.withKernel k).ctl t = s.ctl t ∨
      live (s.ctl t) = true ∧ live ((s.withKernel k).ctl t) = true := fun t => Or.inl rfl
  rcases tick_yields run with ⟨going, still⟩ | ⟨ended, j, before, switched⟩
  · exact told_plain (l := .tick) c c' (fate_still still) kept id (fun both => going both.2) id t
  · by_cases idle : s.curr = .dispatcherTask
    · refine told_itself (l := .tick) c c' before ?_ kept ⟨idle, ended⟩ id id t
      rw [idle]
      exact switched
    · have other : j.curr ≠ .dispatcherTask := by
        rw [before.curr]
        exact idle
      have ready : Ready j j.curr := by
        rw [Ready, before.curr, before.lists]
        exact current_ready c.placed idle
      have fates := fun t => fate_after before (fate_switch (Or.inr ready) other switched t)
      exact told_plain (l := .tick) c c' fates kept id (fun both => idle both.1) id t

theorem told_driver (c : Conserved s) (c' : Conserved s') (woken : Wakes s l)
    (alive : live (s.ctl .diskDriverTask) = true)
    (run : taskResume s.kernel (some .diskDriverTask) (some .diskQueue) = .ok s'.kernel)
    (kept : ∀ t, s'.ctl t = s.ctl t ∨ live (s.ctl t) = true ∧ live (s'.ctl t) = true)
    (itself : ¬ SwitchesToItself s l) (exits : ¬ Exits l) (t : Tcb N) : Told s l s' t := by
  rcases driver_fates c.placed alive run with ⟨mem, fates⟩ | ⟨out, ready, lists, curr, others⟩
  · refine told_fate c c' (fates t) (fun _ => kept t) ?_ (fun _ => itself) fun _ => exits
    rintro rfl _
    exact mem
  · by_cases own : t = .diskDriverTask
    · subst own
      have user : (.diskDriverTask : Tcb N) ≠ .dispatcherTask := by simp
      by_cases waits : .diskDriverTask ≠ s.curr ∧ .diskDriverTask ∈ tasks s.kernel .readyTasks
      · have apart : (.diskDriverTask : Tcb N) ≠ s'.curr := by
          rw [System.curr, curr]
          exact waits.1
        have ready' : .diskDriverTask ∈ tasks s'.kernel .readyTasks := by
          rw [lists]
          exact waits.2
        refine .right (ready.trans (place_ready apart user ready').symm) ?_
          (Or.inr (Or.inr (Or.inr ⟨rfl, woken, waits⟩)))
        rintro (⟨here, -, -⟩ | ⟨-, -, -, here | here⟩)
        · exact waits.1 here.symm
        · exact waits.1 here
        · exact here waits.2
      · refine .wrong ?_ (Or.inr ⟨rfl, woken, out, ?_⟩)
        · rw [ready]
          unfold place
          rw [System.curr, curr, lists]
          intro same
          split at same
          · cases same
          · rename_i apart
            split at same
            · rename_i here
              exact waits ⟨fun own => apart (Or.inl own), here⟩
            · split at same
              · cases same
              · cases same
        · by_cases here : .diskDriverTask = s.curr
          · exact Or.inl here
          · exact Or.inr fun mem => waits ⟨here, mem⟩
    · refine told_fate c c' (.stays (others t own) ?_ ?_) (fun _ => kept t)
        (fun driver _ => absurd driver own) (fun _ => itself) fun _ => exits
      · rw [Ready, lists]
      · rw [curr]

theorem told_completion (c : Conserved s) (c' : Conserved s')
    (go : step s .completion = some (.ok s')) (t : Tcb N) : Told s .completion s' t := by
  obtain ⟨op, run⟩ := completion_runs go
  obtain ⟨handled, resumed, ctl, -⟩ := sighandle_returns run
  exact told_driver (l := .completion) c c' trivial (c.handler handled) resumed
    (fun t => Or.inl (by rw [ctl])) id id t

theorem told_yield (c : Conserved s) (c' : Conserved s') (user : s.curr ≠ .dispatcherTask)
    {d : Tcb N} {p : Ctl N} (other : s.curr ≠ d) (alive' : live p = true)
    (run : taskSwitch s.kernel (some d) = .ok s'.kernel)
    (ctl : s'.ctl = Function.update s.ctl s.curr p) (calm : ¬ Wakes s l)
    (itself : ¬ SwitchesToItself s l) (exits : ¬ Exits l) (t : Tcb N) : Told s l s' t := by
  have alive : live (s.ctl s.curr) = true := current_live c.placed
  exact told_plain c c' (fate_switch (Or.inr (current_ready c.placed user)) other run)
    (goto_kept alive alive' ctl) calm itself exits t

theorem told_init (c : Conserved s) (c' : Conserved s') {u : Tcb N} {j : Kernel N}
    (placed : Placed (liveTasks s) j) (before : Still s.kernel j) (dead : live (s.ctl u) = false)
    {stack : Bool} {id : Int} (run : taskInit j u stack = .ok (s'.kernel, id))
    (kept : ∀ t, t ≠ u → s'.ctl t = s.ctl t ∨ live (s.ctl t) = true ∧ live (s'.ctl t) = true)
    (calm : ¬ Wakes s l) (itself : ¬ SwitchesToItself s l) (exits : ¬ Exits l) (t : Tcb N) :
    Told s l s' t := by
  obtain ⟨fates, joined⟩ := fate_init placed dead run
  refine told_fate c c' (fate_after before (fates t)) (fun moved => ?_)
    (fun _ woken => absurd woken calm)
    (fun _ => itself) fun _ => exits
  by_cases own : t = u
  · subst own
    have out : t ∉ tasks s.kernel .readyTasks := by
      intro mem
      have alive : live (s.ctl t) = true := ((c.placed.queued t).mp ⟨_, mem⟩).1
      rw [dead] at alive
      cases alive
    rcases moved with mem | gone
    · exact absurd mem out
    · exact absurd joined gone
  · exact kept t own

theorem told_exit (c : Conserved s) (c' : Conserved s') (user : s.curr ≠ .dispatcherTask)
    {code : Int} (run : call s (.taskExit code) = .ok s') (t : Tcb N) :
    Told s (.call (.taskExit code)) s' t := by
  obtain ⟨k, ended, rfl⟩ := map_ok run
  obtain ⟨⟨terminated, out⟩, gone, dispatcher, fates⟩ := exit_fates c.placed user ended
  by_cases own : t = s.curr
  · subst own
    have apart : s.curr ≠ k.curr := by
      rw [gone]
      exact user
    have ended : place ((s.withKernel k).goto s.curr .terminated) s.curr = .terminated :=
      place_ended apart user out (by simp [live])
    refine .right (terminated.trans ended.symm) ?_ ?_
    · rintro (⟨-, -, here | here⟩ | ⟨-, woken, -⟩)
      · exact user here
      · exact out here
      · exact woken
    · exact Or.inr (Or.inr (Or.inl fun same => out (same.mpr (current_ready c.placed user))))
  · by_cases target : t = .dispatcherTask
    · subst target
      have nowhere := dispatcher_unqueued c
      have nowhere' := dispatcher_unqueued c'
      refine .same dispatcher ?_ ?_ ?_ ?_
      · unfold place
        rw [if_pos (Or.inr rfl), if_pos (Or.inr rfl)]
      · intro born
        rwa [System.goto_ctl, Function.update_of_ne own] at born
      · rintro (⟨here, -, -⟩ | ⟨-, woken, -⟩)
        · exact user here
        · exact woken
      · rintro (⟨-, -, exits⟩ | ⟨-, itself⟩ | moved | ⟨-, woken, -⟩)
        · exact exits trivial
        · exact itself
        · exact moved ⟨fun mem => absurd mem (nowhere' _), fun mem => absurd mem (nowhere _)⟩
        · exact woken
    · refine told_fate c c' (fates t own target) (fun _ => Or.inl ?_)
        (fun _ woken => absurd woken id)
        (fun _ => id) fun here => ?_
      · exact Function.update_of_ne own _ _
      · have same : k.curr = t := here
        rw [gone] at same
        exact absurd same.symm target

theorem told_call (c : Conserved s) (c' : Conserved s') {call' : Call N} {r : Int}
    (body : s.ctl s.curr = .body r) (permitted : Permitted s (.call call'))
    (run : call s call' = .ok s') (t : Tcb N) : Told s (.call call') s' t := by
  have alive : live (s.ctl s.curr) = true := current_live c.placed
  have user := body_user c body
  cases call' with
  | taskInit u stack =>
    obtain ⟨⟨k, code⟩, started, same⟩ := map_ok run
    subst same
    exact told_init (l := .call (.taskInit u stack)) c c' c.placed (still_refl _) permitted.1
      started (fun a other => goto_twice alive (q := .body code) rfl rfl other) id id id t
  | taskYield =>
    simp only [call, taskYield] at run
    obtain ⟨k, switched, same⟩ := map_ok run
    subst same
    exact told_yield (l := .call .taskYield) (p := .body 0) c c' user user rfl switched rfl id id
      id t
  | taskSwitch d =>
    obtain ⟨k, switched, same⟩ := map_ok run
    subst same
    cases d with
    | none => cases switched
    | some d =>
      by_cases own : d = s.curr
      · subst own
        exact told_itself (l := .call (.taskSwitch (some s.curr))) c c' (still_refl _) switched
          (goto_kept (p := .body 0) alive rfl rfl) rfl id id t
      · exact told_yield (l := .call (.taskSwitch (some d))) (p := .body 0) c c' user
          (Ne.symm own) rfl switched rfl id own id t
  | taskExit code => exact told_exit c c' user run t
  | diskMgrInit host stack =>
    rcases manager_acts c.placed permitted run with acts | ⟨unknown, j, _, quiet, started, r, ctl⟩
    · exact told_acts (l := .call (.diskMgrInit host stack)) c c' user acts id id id t
    · exact told_init (l := .call (.diskMgrInit host stack)) c c' (quiet_placed quiet c.placed)
        (quiet_still quiet) (permitted unknown).1 started
        (fun a other => goto_twice alive (q := .body r) rfl ctl other) id id id t
  | taskSleep | taskWait | taskSetprio | taskGetprio | semInit | semDown | semUp | semDestroy
  | mqueueInit | mqueueSend | mqueueRecv | mqueueDestroy | mqueueMsgs | diskBlockRead
  | diskBlockWrite | store =>
    exact told_acts c c' user
      (call_acts c.placed permitted (by simp) (by simp) (by simp) (by simp) (by simp) run)
      id id id t

theorem told_dispatcher (c : Conserved s) (c' : Conserved s')
    (idle : s.curr = .dispatcherTask) {point : DispatcherPoint N}
    (here : s.ctl .dispatcherTask = .dispatcher point) (run : dispatcherStep s point = .ok s')
    (m₁ m₂ : Bool) (t : Tcb N) : Told s (.run m₁ m₂) s' t := by
  have alive : live (s.ctl .dispatcherTask) = true := by rw [here]; rfl
  have calm : ¬ Wakes s (.run m₁ m₂) := by
    rintro ⟨⟨block, buffer, op, waits⟩, -⟩
    rw [idle, here] at waits
    cases waits
  have told : ∀ {k : Kernel N} {new : DispatcherPoint N}, (∀ t, Fate s.kernel k t) →
      (s.withKernel k).goto .dispatcherTask (.dispatcher new) = s' →
      Told s (.run m₁ m₂) s' t := by
    intro k new fates same
    subst same
    exact told_plain c c' fates (goto_kept (p := .dispatcher new) alive rfl rfl) calm id id t
  cases point with
  | top =>
    simp only [dispatcherStep] at run
    split at run
    · exact told (fate_still (still_refl _)) (Except.ok.inj run)
    · obtain ⟨k, ended, -⟩ := map_ok run
      rw [taskExit_dispatcher c.placed idle c.dispatcherId] at ended
      cases ended
  | wake start =>
    obtain ⟨k, woken, same⟩ := map_ok run
    exact told (fate_wake c.placed woken) same
  | schedule start =>
    obtain ⟨⟨next, k⟩, picked, same⟩ := map_ok run
    have still := still_schedule c.placed picked
    cases next with
    | none =>
      have charged := still_trans still (still_setTask k .dispatcherTask
        (f := fun d => { d with processorTime := d.processorTime + (systime k - start) })
        fun _ => rfl)
      exact told (fate_still charged) same
    | some next => exact told (fate_still still) same
  | dispatch start next =>
    have ready := (c.chosen start next here).2
    have other : s.curr ≠ next := by
      rw [idle]
      exact (ready_user c ready).symm
    simp only [dispatcherStep] at run
    obtain ⟨k, switched, same⟩ := map_ok run
    have first := still_setTask s.kernel .dispatcherTask
      (f := fun d => { d with activations := d.activations + 1 }) fun _ => rfl
    have second := still_trans first (still_setTask _ next
      (f := fun d => { d with activations := d.activations + 1 }) fun _ => rfl)
    have third := still_trans second (still_setTask _ .dispatcherTask
      (f := fun d => { d with processorTime := d.processorTime + (systime s.kernel - start) })
      fun _ => rfl)
    have before := still_trans third (still_setTask _ next
      (f := fun d => { d with quantum := 0 }) fun _ => rfl)
    refine told (fun t => fate_after before (fate_switch ?_ ?_ switched t)) same
    · exact Or.inl idle
    · exact other
  | back next start =>
    have first := still_setTask s.kernel next
      (f := fun d => { d with processorTime := d.processorTime + (systime s.kernel - start) })
      fun _ => rfl
    have still := still_trans first (still_setTask _ .dispatcherTask
      (f := fun d => { d with
        processorTime := d.processorTime + (systime s.kernel - systime s.kernel) }) fun _ => rfl)
    exact told (fate_still still) (Except.ok.inj run)

theorem told_step (c : Conserved s) (go : Operates s l s') (t : Tcb N) : Told s l s' t := by
  obtain ⟨next, permitted⟩ := go
  have c' := (step_kept c permitted next).conserved
  have alive : live (s.ctl s.curr) = true := current_live c.placed
  cases l with
  | tick => exact told_tick c c' next t
  | completion => exact told_completion c c' next t
  | call call' =>
    obtain ⟨r, body, next⟩ := call_runs next
    exact told_call c c' body permitted next t
  | run m₁ m₂ =>
    by_cases idle : s.curr = .dispatcherTask
    · obtain ⟨point, here⟩ := dispatcher_point c
      simp only [step, advance, idle, here] at next
      exact told_dispatcher c c' idle here (Option.some.inj next) m₁ m₂ t
    · have notDispatcher := user_point c idle
      by_cases wakes : ∃ block buffer op, s.ctl s.curr = .blockOp block buffer op .resume
      · obtain ⟨block, buffer, op, here⟩ := wakes
        simp only [step, advance, here, Option.some.injEq] at next
        obtain ⟨driver, ctl⟩ := wake_driver next
        have kept := goto_kept alive (p := .blockOp block buffer op .up) rfl ctl
        rcases driver with ⟨asleep, resumed⟩ | ⟨awake, same⟩
        · have running := suspended_driver_lives c asleep
          exact told_driver (l := .run m₁ m₂) c c' ⟨⟨block, buffer, op, here⟩, asleep⟩ running
            resumed kept id id t
        · refine told_plain (l := .run m₁ m₂) c c' ?_ kept (fun woken => awake woken.2) id id t
          rw [same]
          exact fate_still (still_refl _)
      · have calm : ¬ Wakes s (.run m₁ m₂) := fun woken => wakes woken.1
        refine told_acts c c' idle (advance_acts alive notDispatcher ?_ next) calm id id t
        intro block buffer op here
        exact wakes ⟨block, buffer, op, here⟩

end Steps

section Runs

/-- The system with a mark on every task whose status has fallen behind. -/
structure Observed (N : Type) where
  system : System N
  stale : Tcb N → Prop

structure Follows (a : Observed N) (l : Label N) (b : Observed N) : Prop where
  operates : Operates a.system l b.system
  stale : ∀ t, b.stale t ↔ FallsBehind a.system l b.system t ∨
    a.stale t ∧ ¬ CatchesUp a.system l b.system t

/-- ppos_init leaves main running with the status READY. -/
structure Started (a : Observed N) : Prop where
  booted : Booted a.system
  stale : ∀ t, a.stale t ↔ t = .mainTask

structure Followed (a : Observed N) : Prop where
  conserved : Conserved a.system
  marks : ∀ t, a.system.ctl t ≠ .unborn →
    ((a.system.kernel.task t).status = place a.system t ↔ ¬ a.stale t)

variable {a b : Observed N} {l : Label N}

theorem followed_step (f : Followed a) (go : Follows a l b) : Followed b := by
  obtain ⟨operates, stale⟩ := go
  refine ⟨(step_kept f.conserved operates.2 operates.1).conserved, fun t born => ?_⟩
  rw [stale t]
  cases told_step f.conserved operates t with
  | same status placed before keeps still =>
    rw [status, placed, f.marks t (before born)]
    simp [keeps, still]
  | right status keeps moves => simp [status, keeps, moves]
  | wrong status falls => simp [status, falls]

theorem started_followed (started : Started a) : Followed a := by
  have boot := started.booted
  refine ⟨boot_conserved boot, fun t born => ?_⟩
  obtain ⟨sem, run⟩ := boot.kernel
  have lists := (boot_lists boot).2.1
  rw [pposInit_boot, Except.ok.injEq] at run
  rw [started.stale]
  cases t with
  | mainTask =>
    have runs : place a.system .mainTask = .running := if_pos (Or.inl lists.symm)
    rw [runs, ← run]
    simp [bootKernel, zeroedTask]
  | dispatcherTask =>
    have runs : place a.system .dispatcherTask = .running := if_pos (Or.inr rfl)
    rw [runs, ← run]
    simp [bootKernel]
  | diskDriverTask => exact absurd boot.driver born
  | user n => exact absurd (boot.user n) born

/-- In every state that a run reaches, the status of a task tells where the task is exactly when
    nothing has made it fall behind since it last caught up; that of the dispatcher never does
    while another task runs. -/
theorem status_tracks_queues {labels : List (Label N)} (started : Started a)
    (run : Run Follows a labels b) {t : Tcb N} (born : b.system.ctl t ≠ .unborn) :
    Tracks b.system t ↔
      (t = .dispatcherTask → b.system.curr = .dispatcherTask) ∧ ¬ b.stale t := by
  have followed : Followed b := run_invariant Followed (fun _ _ _ => followed_step) run
    (started_followed started)
  rw [tracks_iff followed.conserved born, followed.marks t born]

theorem follows_run {s s' : System N} {labels : List (Label N)} (run : Run Operates s labels s')
    (stale : Tcb N → Prop) : ∃ b, Run Follows ⟨s, stale⟩ labels b ∧ b.system = s' := by
  induction run with
  | start => exact ⟨_, .start _, rfl⟩
  | @step middle after labels l earlier last ih =>
    obtain ⟨a, followed, rfl⟩ := ih
    refine ⟨⟨after, fun t => FallsBehind a.system l after t ∨
      a.stale t ∧ ¬ CatchesUp a.system l after t⟩, .step followed ⟨last, fun t => Iff.rfl⟩, rfl⟩

def mainYields : List (Label (Fin 1)) := [.call (.taskInit (.user 0) true), .call .taskYield]

theorem mainYields_ends : ∃ s', Run Operates bootSystem mainYields s' ∧
    (s'.ctl .mainTask ≠ .unborn ∧ s'.ctl (.user 0) ≠ .unborn) ∧
    (s'.kernel.task .mainTask).status ≠ place s' .mainTask ∧
    (s'.kernel.task (.user 0)).status = place s' (.user 0) := by
  obtain ⟨s', found, ends⟩ := exec_reaches (guardedStep fun s l _ => Permitted s l) bootSystem
    mainYields (fun s' => (s'.ctl .mainTask ≠ .unborn ∧ s'.ctl (.user 0) ≠ .unborn) ∧
      (s'.kernel.task .mainTask).status ≠ place s' .mainTask ∧
      (s'.kernel.task (.user 0)).status = place s' (.user 0)) (by decide +kernel)
  exact ⟨s', exec_guarded found, ends⟩

theorem new_task_is_ready :
    ∃ b, Run Follows (Observed.mk bootSystem (· = .mainTask)) mainYields b ∧
      Tracks b.system (.user 0) ∧ ¬ b.stale (.user 0) ∧ b.stale .mainTask := by
  obtain ⟨s', run, ⟨main, user⟩, behind, tracks⟩ := mainYields_ends
  obtain ⟨b, followed, rfl⟩ := follows_run run (· = .mainTask)
  have started : Started (Observed.mk (bootSystem : System (Fin 1)) (· = .mainTask)) :=
    ⟨boot_booted, fun t => Iff.rfl⟩
  have conserved : Conserved b.system := (run_invariant Followed (fun _ _ _ => followed_step)
    followed (started_followed started)).conserved
  have ready : Tracks b.system (.user 0) := (tracks_iff conserved user).mpr ⟨by simp, tracks⟩
  refine ⟨b, followed, ready, ((status_tracks_queues started followed user).mp ready).2, ?_⟩
  by_contra fresh
  have exact := (status_tracks_queues started followed main).mpr ⟨by simp, fresh⟩
  exact behind ((tracks_iff conserved main).mp exact).2

/-- A task that yields is marked as suspended while it is in ready_tasks. -/
theorem yielding_task_is_not_tracked :
    ¬ ∀ (s s' : System (Fin 1)) (labels : List (Label (Fin 1))) (t : Tcb (Fin 1)), Booted s →
      Run Operates s labels s' → s'.ctl t ≠ .unborn → Tracks s' t := by
  intro claim
  obtain ⟨s', run, ⟨main, -⟩, behind, -⟩ := mainYields_ends
  have conserved : Conserved s' := run_invariant Conserved
    (fun _ _ _ c go => (step_kept c go.2 go.1).conserved) run (boot_conserved boot_booted)
  have tracks := claim bootSystem s' mainYields .mainTask boot_booted run main
  exact behind ((tracks_iff conserved main).mp tracks).2

end Runs

end StatusTracking
