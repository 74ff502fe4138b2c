import PingPong.DiskRequests

/-!
What whole runs of disk calls guarantee, by what may interrupt them: when no completion is
missed, and when each one wakes the task that asked for it.
-/
namespace DiskGuarantees
open MachineModel CircularList QueueModel KernelModel KernelEffects TaskPlacement SystemModel
open SystemFrames TransitionRuns TaskConservation DiskProtocol DiskRequests
variable {N : Type} [DecidableEq N] [Fintype N]

section Completions

/-- No completion arrives between the driver's look at the signal and its task_suspend. -/
def Hears (s : System N) : Label N → Prop
  | .completion => isDeaf (s.ctl .diskDriverTask) = false
  | _ => True

structure NoneLost (s : System N) : Prop where
  asleep : .diskDriverTask ∈ tasks s.kernel .diskQueue → s.disk.signal = 0
  answered : s.history.woken.length = s.history.signalsSeen

structure Watched (s : System N) : Prop where
  conserved : Conserved s
  known : s.device.status ≠ .unknown
  signalled : Signalled (diskView s)

variable {s s' : System N} {l : Label N}

theorem fresh_watched (fresh : FreshDisk s) : Watched s :=
  ⟨fresh.conserved, by rw [fresh.status]; simp, fresh_signalled fresh⟩

omit [DecidableEq N] [Fintype N] in
theorem completes_eq (event : diskEvent s l = .completes) : l = .completion := by
  cases l with
  | completion => rfl
  | tick => cases event
  | call c => cases c <;> cases event
  | run m₁ m₂ =>
    simp only [diskEvent] at event
    split at event
    · split at event <;> cases event
    all_goals cases event

theorem driver_point {p : DriverPoint}
    (here : (diskView s).point .diskDriverTask = some (.drives p)) :
    s.ctl .diskDriverTask = .driver p := by
  have here' : diskPoint (s.ctl .diskDriverTask) = some (.drives p) := here
  revert here'
  cases s.ctl .diskDriverTask with
  | driver q => rintro ⟨⟩; rfl
  | _ => intro here'; cases here'

theorem hears_calm (hears : Hears s l) : Calm (diskView s) (diskEvent s l) := by
  intro event p here
  rw [completes_eq event, Hears, driver_point here] at hears
  exact hears

theorem watched_step (w : Watched s) (go : Operates s l s') (hears : Hears s l) : Watched s' := by
  have move := step_moves w.conserved w.known go.2 go.1
  exact ⟨(step_kept w.conserved go.2 go.1).conserved, move_known move w.known,
    signalled_step w.signalled move (hears_calm hears)⟩

end Completions

/-- The timer and the disk may strike anywhere else. -/
theorem completions_are_answered {s s' : System N} {labels : List (Label N)}
    (fresh : FreshDisk s)
    (run : Run (fun s l s' => Operates s l s' ∧ Hears s l) s labels s') : NoneLost s' := by
  have w := run_invariant Watched (fun _ _ _ w both => watched_step w both.1 both.2) run
    (fresh_watched fresh)
  exact ⟨w.signalled.asleep, w.signalled.seen⟩

instance (s : System N) (l : Label N) : Decidable (Hears s l) := by
  unfold Hears
  rcases l with _ | _ | _ | _ <;> infer_instance

def oneRead : List (Label (Fin 1)) :=
  [Label.call (.diskBlockRead 0 (some 0))] ++ List.replicate 13 (Label.run true true) ++
  [Label.completion] ++ List.replicate 8 (Label.run true true)

theorem one_completion_is_answered : ∃ s' : System (Fin 1),
    Run (fun s l s' => Operates s l s' ∧ Hears s l) managed oneRead s' ∧
    s'.history.woken = [.mainTask] ∧ NoneLost s' := by
  obtain ⟨s', found, woken⟩ := exec_reaches (guardedStep fun s l _ => Permitted s l ∧ Hears s l)
    managed oneRead (fun s => s.history.woken = [.mainTask]) (by decide +kernel)
  have run : Run (fun s l s' => Operates s l s' ∧ Hears s l) managed oneRead s' :=
    run_mono (fun _ _ _ next => ⟨⟨next.1, next.2.1⟩, next.2.2⟩) (exec_guarded found)
  exact ⟨s', run, woken, completions_are_answered managed_fresh run⟩

/-- The operation ends while the driver is about to suspend itself, and nobody will resume the
    driver for it. -/
def missedCompletion : List (Label (Fin 1)) :=
  [Label.call (.diskBlockRead 0 (some 0))] ++ List.replicate 12 (Label.run true true) ++
  [Label.completion, .run true true]

theorem completion_is_missed :
    ¬ ∀ (s s' : System (Fin 1)) (labels : List (Label (Fin 1))), FreshDisk s →
      Run Operates s labels s' → NoneLost s' := by
  intro claim
  obtain ⟨s', found, asleep, set⟩ := exec_reaches (guardedStep fun s l _ => Permitted s l) managed
    missedCompletion
    (fun s => .diskDriverTask ∈ tasks s.kernel .diskQueue ∧ s.disk.signal = 1) (by decide +kernel)
  have clear := (claim _ _ _ managed_fresh (exec_guarded found)).asleep asleep
  rw [set] at clear
  cases clear

section Interrupts

/-- The tick ends the quantum of the running task. -/
def Expires (s : System N) : Prop := toInt ((s.kernel.task s.curr).quantum + 1) = quantumLimit

/-- The driver runs from its sem_down to its task_suspend without interruption. -/
def DriverAlone (s : System N) : Label N → Prop
  | .tick => s.curr = .diskDriverTask → ¬ Expires s
  | .completion => s.curr ≠ .diskDriverTask
  | _ => True

/-- And so does every disk_block_op. -/
def Undivided (s : System N) : Label N → Prop
  | .tick => inSection (s.ctl s.curr) = true ∨ s.curr = .diskDriverTask → ¬ Expires s
  | .completion => s.curr ≠ .diskDriverTask
  | _ => True

/-- 0 <= block < num_blocks -/
def ValidBlock (s : System N) : Label N → Prop
  | .call (.diskBlockRead block _) | .call (.diskBlockWrite block _) =>
    0 ≤ block ∧ block < s.disk.numBlocks
  | _ => True

def HasBuffer : Label N → Prop
  | .call (.diskBlockRead _ buffer) | .call (.diskBlockWrite _ buffer) => buffer ≠ none
  | _ => True

def Allocated (s : System N) : Label N → Prop
  | .run malloc _ => match s.ctl s.curr with
      | .blockOp _ _ _ .enqueue => malloc = true
      | _ => True
  | _ => True

variable {s s' : System N} {l : Label N}

omit [Fintype N] in
theorem tick_stays (still : ¬ Expires s)
    (go : (interruptionHandler s.kernel).map s.withKernel = .ok s') : s'.curr = s.curr := by
  obtain ⟨k, handled, rfl⟩ := map_ok go
  simp only [interruptionHandler] at handled
  split at handled
  · rename_i limit
    refine absurd ?_ still
    rw [Expires, ← limit]
    simp [Kernel.setTask, System.curr]
  · rw [Except.ok.injEq] at handled
    rw [← handled]
    rfl

theorem deaf_is_driver (c : Conserved s) {t : Tcb N} (deaf : isDeaf (s.ctl t) = true) :
    t = .diskDriverTask := by
  cases here : s.ctl t with
  | driver p => exact c.driverRole t (by rw [here]; rfl)
  | _ => rw [here] at deaf; cases deaf

theorem alone_driver (alone : Alone isDeaf s) (c : Conserved s)
    (known : s.device.status ≠ .unknown) (go : Operates s l s') (whole : DriverAlone s l) :
    Alone isDeaf s' := by
  refine alone_step alone (fun _ deaf => section_client (deaf_inSection deaf)) c known go.2 go.1
    ?_ fun _ => deaf_leaves c
  rintro rfl deaf
  exact tick_stays (whole (deaf_is_driver c deaf)) (Option.some.inj go.1)

omit [DecidableEq N] [Fintype N] in
theorem alone_hears (alone : Alone isDeaf s) (whole : DriverAlone s l) : Hears s l := by
  cases l with
  | completion =>
    by_contra deaf
    exact whole (alone _ (by simpa [Hears] using deaf))
  | tick => trivial
  | call c => trivial
  | run m₁ m₂ => trivial

theorem call_valid (block : ValidBlock s l) (buffer : HasBuffer l) {k : Ticket N}
    (event : diskEvent s l = .calls k) : Valid (diskView s) k.block k.buffer := by
  cases l with
  | tick => cases event
  | completion => cases event
  | call c =>
    cases c with
    | diskBlockRead b a => cases event; exact ⟨block.1, block.2, buffer⟩
    | diskBlockWrite b a => cases event; exact ⟨block.1, block.2, buffer⟩
    | _ => cases event
  | run m₁ m₂ =>
    simp only [diskEvent] at event
    split at event
    · split at event <;> cases event
    all_goals cases event

end Interrupts

section Overtaking

/-- Nobody suspends itself before the caller of an older request has done so, and the driver
    notices a completion only after the caller served has done so. -/
def NotOvertaken (s : System N) : Label N → Prop
  | .run _ _ => match s.ctl s.curr with
      | .blockOp _ _ _ .suspend => First (diskView s) s.curr
      | .driver .test => s.disk.signal ≠ 0 → Settled (diskView s)
      | _ => True
  | _ => True

def ResumesNull (s : System N) : Prop :=
  s.ctl s.curr = .driver .test ∧ s.disk.signal ≠ 0 ∧ s.kernel.queues.head .diskQueue = none

/-- The i-th wake-up is that of the caller of the i-th request, which the disk has performed,
    and there is one for every completion but the one signalled last. -/
structure Matched (s : System N) : Prop where
  performed : s.history.performed.map (fun x => (x.1, x.2.1)) =
    (s.history.requests.take s.history.performed.length).map fun k => (k.op, k.block)
  woken : s.history.woken = (s.history.requests.take s.history.woken.length).map Ticket.task
  counted : (s.history.performed.length : Int) = s.history.woken.length + s.disk.signal
  flag : s.disk.signal = 0 ∨ s.disk.signal = 1

structure InStep (s : System N) : Prop where
  conserved : Conserved s
  known : s.device.status ≠ .unknown
  paired : Paired (diskView s)
  alone : Alone isDeaf s

variable {s s' : System N} {l : Label N}

theorem fresh_inStep (fresh : FreshDisk s) : InStep s := by
  refine ⟨fresh.conserved, by rw [fresh.status]; simp, fresh_paired fresh, fun t deaf => ?_⟩
  have driver := fresh.driver
  rw [← deaf_is_driver fresh.conserved deaf] at driver
  revert deaf
  cases here : s.ctl t with
  | driver p =>
    rw [here] at driver
    cases driver
    exact fun deaf => by cases deaf
  | _ => exact fun deaf => by cases deaf

omit [DecidableEq N] [Fintype N] in
theorem suspends_eq {t : Tcb N} (event : diskEvent s l = .suspends t) :
    t = s.curr ∧ (∃ m₁ m₂, l = .run m₁ m₂) ∧
      ∃ b a op, s.ctl s.curr = .blockOp b a op .suspend := by
  cases l with
  | tick => cases event
  | completion => cases event
  | call c => cases c <;> cases event
  | run m₁ m₂ =>
    simp only [diskEvent] at event
    split at event
    · split at event <;> cases event
    · rename_i here
      cases event
      exact ⟨rfl, ⟨m₁, m₂, rfl⟩, _, _, _, here⟩
    all_goals cases event

omit [DecidableEq N] [Fintype N] in
theorem tests_eq (event : diskEvent s l = .tests) :
    (∃ m₁ m₂, l = .run m₁ m₂) ∧ s.ctl s.curr = .driver .test := by
  cases l with
  | tick => cases event
  | completion => cases event
  | call c => cases c <;> cases event
  | run m₁ m₂ =>
    simp only [diskEvent] at event
    split at event
    · split at event <;> cases event
    · cases event
    · cases event
    · rename_i here
      exact ⟨⟨m₁, m₂, rfl⟩, here⟩
    all_goals cases event

theorem orderly_step (alone : Alone isDeaf s) (whole : DriverAlone s l)
    (block : ValidBlock s l) (buffer : HasBuffer l) (ordered : NotOvertaken s l) :
    Orderly (diskView s) (diskEvent s l) := by
  refine ⟨hears_calm (alone_hears alone whole), ?_, ?_, fun k => call_valid block buffer⟩
  · intro t event
    obtain ⟨rfl, ⟨m₁, m₂, rfl⟩, b, a, op, here⟩ := suspends_eq event
    rw [NotOvertaken, here] at ordered
    exact ordered
  · intro event set
    obtain ⟨⟨m₁, m₂, rfl⟩, here⟩ := tests_eq event
    rw [NotOvertaken, here] at ordered
    exact ordered set

theorem inStep_step (inv : InStep s) (go : Operates s l s') (whole : DriverAlone s l)
    (block : ValidBlock s l) (buffer : HasBuffer l) (ordered : NotOvertaken s l) :
    InStep s' := by
  have move := step_moves inv.conserved inv.known go.2 go.1
  exact ⟨(step_kept inv.conserved go.2 go.1).conserved, move_known move inv.known,
    paired_step inv.paired move (orderly_step inv.alone whole block buffer ordered),
    alone_driver inv.alone inv.conserved inv.known go whole⟩

theorem inStep_matched (inv : InStep s) : Matched s :=
  ⟨inv.paired.done, inv.paired.woken, inv.paired.signalled.counted, inv.paired.signalled.flag⟩

theorem settled_head (inv : InStep s) (settled : s.disk.signal ≠ 0 → Settled (diskView s)) :
    ¬ ResumesNull s := by
  rintro ⟨_, set, none⟩
  obtain ⟨k, rest, _, waiting⟩ := paired_head inv.paired set (settled set)
  have mem : k.task ∈ waiters (diskView s) := by
    rw [waiting]
    exact List.mem_cons_self
  have inside : k.task ∈ tasks s.kernel .diskQueue := (mem_waiters.mp mem).1
  rw [inv.conserved.placed.wellFormed.head, List.head?_eq_none_iff] at none
  rw [none] at inside
  cases inside

end Overtaking

/-- The timer may preempt a caller at any point of disk_block_op. -/
theorem wakeups_match_requests {s s' : System N} {labels : List (Label N)}
    (fresh : FreshDisk s)
    (run : Run (fun s l s' => Operates s l s' ∧ DriverAlone s l ∧ ValidBlock s l ∧
      HasBuffer l ∧ NotOvertaken s l) s labels s') :
    Matched s' ∧ ∀ m₁ m₂, NotOvertaken s' (.run m₁ m₂) → ¬ ResumesNull s' := by
  have inv := run_invariant InStep (fun _ _ _ inv both => inStep_step inv both.1 both.2.1
    both.2.2.1 both.2.2.2.1 both.2.2.2.2) run (fresh_inStep fresh)
  refine ⟨inStep_matched inv, fun m₁ m₂ ordered null => ?_⟩
  rw [NotOvertaken, null.1] at ordered
  exact settled_head inv ordered null

instance (s : System N) (l : Label N) : Decidable (DriverAlone s l) := by
  unfold DriverAlone Expires
  rcases l with _ | _ | _ | _ <;> infer_instance

instance (s : System N) (l : Label N) : Decidable (ValidBlock s l) := by
  unfold ValidBlock
  rcases l with _ | _ | c | _ <;> try infer_instance
  rcases c with _ | _ <;> infer_instance

instance (l : Label N) : Decidable (HasBuffer l) := by
  unfold HasBuffer
  rcases l with _ | _ | c | _ <;> try infer_instance
  rcases c with _ | _ <;> infer_instance

instance (s : System N) (l : Label N) : Decidable (Undivided s l) := by
  unfold Undivided Expires
  rcases l with _ | _ | _ | _ <;> infer_instance

instance (s : System N) (l : Label N) : Decidable (Allocated s l) := by
  unfold Allocated
  generalize s.ctl s.curr = c
  rcases l with _ | _ | _ | _ <;> try infer_instance
  rcases c with _ | _ <;> try infer_instance
  case blockOp point => rcases point with _ | _ <;> infer_instance

instance (s : System N) : Decidable (ResumesNull s) := by
  unfold ResumesNull
  infer_instance

instance (s : System N) (l : Label N) : Decidable (NotOvertaken s l) := by
  unfold NotOvertaken First Settled
  generalize s.ctl s.curr = c
  rcases l with _ | _ | _ | _ <;> try infer_instance
  rcases c with _ | _ <;> try infer_instance
  case blockOp point | driver point => rcases point with _ | _ <;> infer_instance

def preemptedRead : List (Label (Fin 1)) :=
  [Label.call (.diskBlockRead 0 (some 0)), .run true true] ++ List.replicate 10 Label.tick ++
  List.replicate 25 (Label.run true true) ++ [Label.completion] ++
  List.replicate 12 (Label.run true true)

theorem preempted_caller_is_woken : ∃ s' : System (Fin 1),
    Run (fun s l s' => Operates s l s' ∧ DriverAlone s l ∧ ValidBlock s l ∧ HasBuffer l ∧
      NotOvertaken s l) managed preemptedRead s' ∧
    s'.history.woken = [.mainTask] ∧ Matched s' := by
  obtain ⟨s', found, woken⟩ := exec_reaches (guardedStep fun s l _ =>
      Permitted s l ∧ DriverAlone s l ∧ ValidBlock s l ∧ HasBuffer l ∧ NotOvertaken s l)
    managed preemptedRead (fun s => s.history.woken = [.mainTask])
    (by decide +kernel)
  have run : Run (fun s l s' => Operates s l s' ∧ DriverAlone s l ∧ ValidBlock s l ∧
      HasBuffer l ∧ NotOvertaken s l) managed preemptedRead s' :=
    run_mono (fun _ _ _ next => ⟨⟨next.1, next.2.1⟩, next.2.2⟩) (exec_guarded found)
  exact ⟨s', run, woken, (wakeups_match_requests managed_fresh run).1⟩

/-- A second task queues its request, is preempted before its task_suspend, and main gets into
    disk_queue before it. -/
def overtaking : List (Label (Fin 1)) :=
  [Label.call (.taskInit (.user 0) true), .call (.taskSwitch (some (.user 0))),
    .call (.diskBlockRead 0 (some 0))] ++ List.replicate 3 (Label.run true true) ++
  List.replicate 10 Label.tick ++ List.replicate 4 (Label.run true true) ++
  [Label.call (.diskBlockWrite 0 (some 64))] ++ List.replicate 14 (Label.run true true) ++
  [Label.completion] ++ List.replicate 13 (Label.run true true)

/-- main is preempted three times before its task_suspend; the completion finds the driver alone
    in disk_queue, and the driver finds nobody there. -/
def nobodyThere : List (Label (Fin 1)) :=
  [Label.call (.diskBlockRead 0 (some 0))] ++ List.replicate 3 (Label.run true true) ++
  List.replicate 10 Label.tick ++ List.replicate 4 (Label.run true true) ++
  List.replicate 10 Label.tick ++ List.replicate 10 (Label.run true true) ++ [Label.completion] ++
  List.replicate 5 (Label.run true true) ++ List.replicate 10 Label.tick ++
  List.replicate 6 (Label.run true true)

theorem preempted_caller_is_missed :
    (¬ ∀ (s s' : System (Fin 1)) (labels : List (Label (Fin 1))), FreshDisk s →
      Run (fun s l s' => Operates s l s' ∧ DriverAlone s l ∧ ValidBlock s l ∧ HasBuffer l)
        s labels s' → Matched s') ∧
    ¬ ∀ (s s' : System (Fin 1)) (labels : List (Label (Fin 1))), FreshDisk s →
      Run (fun s l s' => Operates s l s' ∧ DriverAlone s l ∧ ValidBlock s l ∧ HasBuffer l)
        s labels s' → ¬ ResumesNull s' := by
  have follow : ∀ {labels : List (Label (Fin 1))} {s' : System (Fin 1)},
      exec (guardedStep fun s l _ => Permitted s l ∧ DriverAlone s l ∧ ValidBlock s l ∧
        HasBuffer l) managed labels = some s' →
      Run (fun s l s' => Operates s l s' ∧ DriverAlone s l ∧ ValidBlock s l ∧ HasBuffer l)
        managed labels s' := fun found =>
    run_mono (fun _ _ _ next => ⟨⟨next.1, next.2.1⟩, next.2.2⟩) (exec_guarded found)
  constructor
  · intro claim
    obtain ⟨s', found, woken, requests⟩ := exec_reaches (guardedStep fun s l _ =>
        Permitted s l ∧ DriverAlone s l ∧ ValidBlock s l ∧ HasBuffer l) managed overtaking
      (fun s => s.history.woken = [.mainTask] ∧
        s.history.requests.map Ticket.task = [.user 0, .mainTask]) (by decide +kernel)
    have matched := (claim _ _ _ managed_fresh (follow found)).woken
    rw [woken, List.map_take, requests] at matched
    cases matched
  · intro claim
    obtain ⟨s', found, null⟩ := exec_reaches (guardedStep fun s l _ =>
        Permitted s l ∧ DriverAlone s l ∧ ValidBlock s l ∧ HasBuffer l) managed nobodyThere
      ResumesNull (by decide +kernel)
    exact claim _ _ _ managed_fresh (follow found) null

end DiskGuarantees
