import PingPong.DiskGuarantees
import PingPong.SemaphoreShares

/-!
Who takes sem_disk and who gives it back. disk_block_op takes it before it allocates the request,
and leaves early when the allocation fails.
-/
namespace DiskSemaphore
open MachineModel CircularList QueueModel KernelModel KernelEffects TaskPlacement SystemModel
open SystemFrames TransitionRuns FiniteTally TaskConservation DiskProtocol DiskRequests
open DiskGuarantees SemaphoreShares
variable {N : Type} [DecidableEq N] [Fintype N]

section Meter

/-- Calls of sem_down and sem_up on sem_disk since the task's disk_block_op, or the driver's
    activation, began. -/
structure Uses where
  acquired : Nat
  released : Nat
  deriving DecidableEq

structure Metered (N : Type) where
  system : System N
  uses : Tcb N → Uses

/-- Both disk_block_op and an activation of the driver begin with their sem_down. -/
def counts (s : System N) (l : Label N) (u : Uses) : Uses :=
  match l with
  | .call (.diskBlockRead _ _) | .call (.diskBlockWrite _ _) => ⟨1, 0⟩
  | .run _ _ => match s.ctl s.curr with
      | .driver .down => ⟨1, 0⟩
      | .blockOp _ _ _ .up | .driver .up => ⟨u.acquired, u.released + 1⟩
      | _ => u
  | _ => u

def metered (a : Metered N) (l : Label N) : Tcb N → Uses :=
  Function.update a.uses a.system.curr (counts a.system l (a.uses a.system.curr))

def Meters (a : Metered N) (l : Label N) (b : Metered N) : Prop :=
  Operates a.system l b.system ∧ b.uses = metered a l

/-- The running task returns from disk_block_op, or is the driver and suspends itself. -/
def Finishes (s s' : System N) : Prop :=
  (∃ block buffer op point code, s.ctl s.curr = .blockOp block buffer op point ∧
    s'.ctl s.curr = .body code) ∨
  s.ctl s.curr = .driver .suspend ∧ s'.ctl s.curr = .driver .down

def GivesBack (a b : Metered N) : Prop :=
  Finishes a.system b.system →
    (b.uses a.system.curr).acquired = (b.uses a.system.curr).released

inductive Stage where
  | outside
  | holds
  | gaveBack
  deriving DecidableEq

def stage : Ctl N → Stage
  | .blockOp _ _ _ .enqueue | .blockOp _ _ _ .resume | .blockOp _ _ _ .up
  | .driver .test | .driver .issue | .driver .up => .holds
  | .blockOp _ _ _ .suspend | .blockOp _ _ _ .finish | .driver .suspend => .gaveBack
  | _ => .outside

/-- Nobody has come out of a sem_down on sem_disk without having called sem_up. -/
def Unheld (s : System N) : Prop :=
  ∀ t, stage (s.ctl t) = .holds → t ∈ tasks s.kernel (.semQueue .semDisk)

def Whole (s : System N) : Prop :=
  Unheld s → (s.kernel.sem .semDisk).value = 1 ∧ tasks s.kernel (.semQueue .semDisk) = []

end Meter

section Effects
variable {s s' : System N} {l : Label N}

/-- What the step of a running task does to sem_disk, and what it adds to the meter. -/
inductive Effect (s : System N) (l : Label N) (s' : System N) (old new : Ctl N) : Prop where
  | acquires (task : role old ≠ .dispatcher) (before : stage old = .outside)
      (after : stage new = .holds) (r : Option Int)
      (run : semDown s.kernel (some .semDisk) = .ok (s'.kernel, r))
      (meter : ∀ u, counts s l u = ⟨1, 0⟩)
  | releases (before : stage old = .holds) (after : stage new = .gaveBack) (r : Int)
      (run : semUp s.kernel (some .semDisk) = .ok (s'.kernel, r))
      (meter : ∀ u, counts s l u = ⟨u.acquired, u.released + 1⟩)
  | keeps (same : stage new = stage old ∨ stage old = .gaveBack ∧ stage new = .outside)
      (sem : s'.kernel.sem .semDisk = s.kernel.sem .semDisk)
      (queue : tasks s'.kernel (.semQueue .semDisk) = tasks s.kernel (.semQueue .semDisk))
      (meter : ∀ u, counts s l u = u)
  | fails (before : stage old = .holds) (failed : ¬ Allocated s l) (returns : Finishes s s')
      (meter : ∀ u, counts s l u = u)

omit [DecidableEq N] [Fintype N] in
theorem stage_client {c : Ctl N} (inside : stage c ≠ .outside) : ctlClient c = .disk := by
  cases c with
  | blockOp block buffer op point => rfl
  | driver point => rfl
  | _ => exact absurd rfl inside

omit [DecidableEq N] [Fintype N] in
theorem finishes_stage (finishes : Finishes s s') :
    stage (s.ctl s.curr) ≠ .outside ∧ stage (s'.ctl s.curr) = .outside := by
  rcases finishes with ⟨block, buffer, op, point, code, before, after⟩ | ⟨before, after⟩
  · rw [before, after]
    exact ⟨by cases point <;> simp [stage], rfl⟩
  · rw [before, after]
    exact ⟨by simp [stage], rfl⟩

theorem blockOp_effect (c : Conserved s) {block : Int} {buffer : Option Nat} {op : Operation}
    {point : BlockOpPoint} (here : s.ctl s.curr = .blockOp block buffer op point)
    {malloc malloc₂ : Bool} (run : diskBlockOpStep s block buffer op malloc point = .ok s') :
    ∃ new, s'.ctl = Function.update s.ctl s.curr new ∧
      Effect s (.run malloc malloc₂) s' (s.ctl s.curr) new := by
  have user : s.kernel.curr ≠ .dispatcherTask :=
    not_dispatcher c (t := s.curr) (by rw [here]; simp [role])
  cases point with
  | enqueue =>
    simp only [diskBlockOpStep] at run
    split at run
    · rename_i failed
      cases run
      refine ⟨_, rfl, .fails (by rw [here]; rfl) ?_ ?_ fun u => by simp [counts, here]⟩
      · simp [Allocated, here, failed]
      · exact Or.inl ⟨_, _, _, _, -1, here, Function.update_self _ _ _⟩
    · cases run
      refine ⟨_, rfl, .keeps (Or.inl ?_) rfl rfl fun u => by simp [counts, here]⟩
      rw [here]
      rfl
  | resume =>
    have same : stage (.blockOp block buffer op .up : Ctl N) = stage (s.ctl s.curr) := by
      rw [here]
      rfl
    simp only [diskBlockOpStep] at run
    split at run
    · rename_i suspended
      have alive := suspended_driver_lives c suspended
      obtain ⟨k, resumed, rfl⟩ := map_ok run
      obtain ⟨k', known, _, sem, _, _, kept⟩ := resume_any c.placed alive (by simp) .diskQueue
      cases known.symm.trans resumed
      exact ⟨_, rfl, .keeps (Or.inl same) (congrFun sem _) (kept.lists _ (by simp) (by simp))
        fun u => by simp [counts, here]⟩
    · cases run
      exact ⟨_, rfl, .keeps (Or.inl same) rfl rfl fun u => by simp [counts, here]⟩
  | up =>
    obtain ⟨⟨k, r⟩, up, rfl⟩ := map_ok run
    exact ⟨_, rfl, .releases (by rw [here]; rfl) rfl r up fun u => by simp [counts, here]⟩
  | suspend =>
    obtain ⟨k, suspended, rfl⟩ := map_ok run
    obtain ⟨m, known, _, kept⟩ := suspend_kept c.placed user .diskQueue
    cases known.symm.trans suspended
    refine ⟨_, rfl, .keeps (Or.inl ?_) (kept.sem _ (by simp)) (kept.lists _ (by simp) (by simp))
      fun u => by simp [counts, here]⟩
    rw [here]
    rfl
  | finish =>
    cases run
    exact ⟨_, rfl, .keeps (Or.inr ⟨by rw [here]; rfl, rfl⟩) rfl rfl
      fun u => by simp [counts, here]⟩

theorem driver_effect (c : Conserved s) {point : DriverPoint}
    (here : s.ctl s.curr = .driver point) {malloc malloc₂ : Bool}
    (run : diskDriverStep s point = .ok s') :
    ∃ new, s'.ctl = Function.update s.ctl s.curr new ∧
      Effect s (.run malloc malloc₂) s' (s.ctl s.curr) new := by
  have user : s.kernel.curr ≠ .dispatcherTask :=
    not_dispatcher c (t := s.curr) (by rw [here]; simp [role])
  cases point with
  | down =>
    obtain ⟨⟨k, r⟩, down, rfl⟩ := map_ok run
    exact ⟨_, rfl, .acquires (by rw [here]; simp [role]) (by rw [here]; rfl) rfl r down
      fun u => by simp [counts, here]⟩
  | test =>
    have same : stage (.driver .issue : Ctl N) = stage (s.ctl s.curr) := by
      rw [here]
      rfl
    simp only [diskDriverStep, diskDriverTest] at run
    split at run
    · obtain ⟨k, resumed, rfl⟩ := map_ok run
      have head := c.placed.wellFormed.head .diskQueue
      rcases waiting : tasks s.kernel .diskQueue with _ | ⟨first, rest⟩
      · rw [head, waiting] at resumed
        cases resumed
      · rw [waiting] at head
        obtain ⟨m, known, _, kept⟩ := resume_kept c.placed (t := first) (q := .diskQueue)
          (by rw [waiting]; simp)
        rw [head] at resumed
        cases known.symm.trans resumed
        exact ⟨_, rfl, .keeps (Or.inl same) rfl (kept.lists _ (by simp) (by simp))
          fun u => by simp [counts, here]⟩
    · cases run
      exact ⟨_, rfl, .keeps (Or.inl same) rfl rfl fun u => by simp [counts, here]⟩
  | issue =>
    have same : stage (.driver .up : Ctl N) = stage (s.ctl s.curr) := by
      rw [here]
      rfl
    have still : ∀ u, counts s (.run malloc malloc₂) u = u := fun u => by simp [counts, here]
    simp only [diskDriverStep, diskDriverIssue, Except.ok.injEq] at run
    split at run
    · split at run
      · subst run
        exact ⟨_, rfl, .keeps (Or.inl same) rfl rfl still⟩
      · subst run
        exact ⟨_, rfl, .keeps (Or.inl same) rfl rfl still⟩
    · subst run
      exact ⟨_, rfl, .keeps (Or.inl same) rfl rfl still⟩
  | up =>
    obtain ⟨⟨k, r⟩, up, rfl⟩ := map_ok run
    exact ⟨_, rfl, .releases (by rw [here]; rfl) rfl r up fun u => by simp [counts, here]⟩
  | suspend =>
    obtain ⟨k, suspended, rfl⟩ := map_ok run
    obtain ⟨m, known, _, kept⟩ := suspend_kept c.placed user .diskQueue
    cases known.symm.trans suspended
    exact ⟨_, rfl, .keeps (Or.inr ⟨by rw [here]; rfl, rfl⟩) (kept.sem _ (by simp))
      (kept.lists _ (by simp) (by simp)) fun u => by simp [counts, here]⟩

theorem call_effect (known : s.device.status ≠ .unknown) {code : Int}
    (body : s.ctl s.curr = .body code) {c' : Call N} (mine : callClient c' = .disk)
    (run : call s c' = .ok s') :
    ∃ new, s'.ctl = Function.update s.ctl s.curr new ∧
      Effect s (.call c') s' (s.ctl s.curr) new := by
  have outside : stage (s.ctl s.curr) = .outside := by
    rw [body]
    rfl
  rcases disk_call known mine run with
    ⟨_, _, rfl, asks⟩ | ⟨_, _, rfl, asks⟩ | ⟨⟨_, _, rfl⟩, rfl⟩
  · obtain ⟨⟨k, r⟩, down, rfl⟩ := map_ok asks
    exact ⟨_, rfl, .acquires (by rw [body]; simp [role]) outside rfl r down fun _ => rfl⟩
  · obtain ⟨⟨k, r⟩, down, rfl⟩ := map_ok asks
    exact ⟨_, rfl, .acquires (by rw [body]; simp [role]) outside rfl r down fun _ => rfl⟩
  · exact ⟨_, rfl, .keeps (Or.inl outside.symm) rfl rfl fun _ => rfl⟩

theorem completion_keeps (c : Conserved s) (go : step s .completion = some (.ok s')) :
    Effect s .completion s' (s.ctl s.curr) (s.ctl s.curr) := by
  obtain ⟨-, -, sem⟩ := completion_effect go
  obtain ⟨op, run⟩ := completion_runs go
  obtain ⟨on, resumed, -⟩ := sighandle_returns run
  obtain ⟨k, known, _, _, _, _, kept⟩ := resume_any c.placed (c.handler on) (by simp) .diskQueue
  cases known.symm.trans resumed
  have waiting := kept.lists (.semQueue .semDisk) (by simp) (by simp)
  exact .keeps (Or.inl rfl) (congrFun sem _) waiting fun _ => rfl

theorem step_effect (c : Conserved s) (known : s.device.status ≠ .unknown)
    (mine : client s l = .disk) (go : step s l = some (.ok s')) :
    ∃ new, s'.ctl = Function.update s.ctl s.curr new ∧ Effect s l s' (s.ctl s.curr) new := by
  cases l with
  | tick => cases mine
  | completion =>
    refine ⟨_, ?_, completion_keeps c go⟩
    rw [Function.update_eq_self]
    exact (completion_effect go).1
  | call c' =>
    obtain ⟨code, body, go⟩ := call_runs go
    exact call_effect known body mine go
  | run malloc malloc₂ =>
    rcases disk_runs mine go with ⟨_, _, _, _, here, run⟩ | ⟨_, here, run⟩
    · exact blockOp_effect c here run
    · exact driver_effect c here run

omit [DecidableEq N] [Fintype N] in
theorem counts_outside (other : client s l ≠ .disk) (u : Uses) : counts s l u = u := by
  cases l with
  | call c' =>
    cases c' with
    | diskBlockRead block buffer => exact absurd rfl other
    | diskBlockWrite block buffer => exact absurd rfl other
    | _ => rfl
  | run m₁ m₂ =>
    simp only [client] at other
    simp only [counts]
    cases here : s.ctl s.curr <;> rw [here] at other <;> first | rfl | exact absurd rfl other
  | _ => rfl

end Effects

section Steps
variable {a b : Metered N} {l : Label N}

def share (c : Ctl N) : Int := if stage c = .holds then 1 else 0

/-- While all allocations succeed. -/
structure Steady (a : Metered N) : Prop where
  conserved : Conserved a.system
  known : a.system.device.status ≠ .unknown
  shared : Shared .semDisk 1 share (fun c => stage c = .holds) a.system
  few : Few .semDisk 1 share a.system
  holding : ∀ t, stage (a.system.ctl t) = .holds → a.uses t = ⟨1, 0⟩
  leaving : ∀ t, stage (a.system.ctl t) = .gaveBack → a.uses t = ⟨1, 1⟩

omit [DecidableEq N] [Fintype N] in
theorem share_nonneg (c : Ctl N) : 0 ≤ share c := by
  unfold share
  split <;> simp

omit [DecidableEq N] [Fintype N] in
theorem share_same {c d : Ctl N}
    (same : stage d = stage c ∨ stage c = .gaveBack ∧ stage d = .outside) : share d = share c := by
  unfold share
  rcases same with same | ⟨before, after⟩
  · rw [same]
  · rw [before, after]
    rfl

theorem steady_whole (st : Steady a) : Whole a.system := by
  intro unheld
  refine nobody_holds st.shared st.few st.conserved (by decide) (by decide) ?_ ?_
  · intro x holds
    exact if_pos holds
  · intro t holds
    apply unheld t
    by_contra not
    exact holds (if_neg not)

omit [Fintype N] in
theorem meter_step {new : Ctl N} {p : Stage} {u : Uses}
    (before : ∀ t, stage (a.system.ctl t) = p → a.uses t = u)
    (ctl : b.system.ctl = Function.update a.system.ctl a.system.curr new)
    (uses : b.uses = metered a l)
    (own : stage new = p → counts a.system l (a.uses a.system.curr) = u) :
    ∀ t, stage (b.system.ctl t) = p → b.uses t = u := by
  intro t
  rw [ctl, uses, metered, Function.update_apply, Function.update_apply]
  by_cases same : t = a.system.curr
  · rw [if_pos same, if_pos same]
    exact own
  · rw [if_neg same, if_neg same]
    exact before t

theorem steady_outside (st : Steady a) (go : Meters a l b) (other : client a.system l ≠ .disk) :
    Steady b := by
  obtain ⟨⟨run, permitted⟩, uses⟩ := go
  have ok := step_kept st.conserved permitted run
  have framed := ok.framed .disk (by simp) (Ne.symm other)
  have data : DiskData a.system b.system := framed.data
  have off : ∀ c : Ctl N, ctlClient c ≠ .disk → share c = 0 := by
    intro c outside
    exact if_neg fun holds => outside (stage_client (by rw [holds]; simp))
  have same : b.uses = a.uses := by
    rw [uses, metered, counts_outside other, Function.update_eq_self]
  have inside : ∀ t, stage (b.system.ctl t) ≠ .outside → b.system.ctl t = a.system.ctl t := by
    intro t inside
    rcases framed.ctl t with same | ⟨_, after⟩
    · exact same
    · exact absurd (stage_client inside) after
  refine ⟨ok.conserved, by rw [data.device]; exact st.known, ?_, ?_, ?_, ?_⟩
  · exact shared_framed st.shared framed off fun c holds => stage_client (by rw [holds]; simp)
  · exact few_same st.few (framed.lists (.semQueue .semDisk) (by simp) rfl)
      (total_framed off framed)
  · intro t holds
    rw [inside t (by rw [holds]; simp)] at holds
    rw [same]
    exact st.holding t holds
  · intro t gave
    rw [inside t (by rw [gave]; simp)] at gave
    rw [same]
    exact st.leaving t gave

theorem steady_step (st : Steady a) (go : Meters a l b) (allocated : Allocated a.system l) :
    Steady b ∧ GivesBack a b := by
  by_cases mine : client a.system l = .disk
  · obtain ⟨⟨run, permitted⟩, uses⟩ := go
    have c := st.conserved
    have conserved := (step_kept c permitted run).conserved
    have known : b.system.device.status ≠ .unknown :=
      move_known (step_moves c st.known permitted run) st.known
    have nonneg : 0 ≤ total share a.system := tally_nonneg fun t => share_nonneg _
    obtain ⟨new, ctl, effect⟩ := step_effect c st.known mine run
    have own : b.system.ctl a.system.curr = new := by
      rw [ctl, Function.update_self]
    have meter : b.uses a.system.curr = counts a.system l (a.uses a.system.curr) := by
      rw [uses, metered, Function.update_self]
    cases effect with
    | acquires task before after r down count =>
      have more : share new = share (a.system.ctl a.system.curr) + 1 := by
        simp [share, before, after]
      refine ⟨⟨conserved, known, ?_, ?_, ?_, ?_⟩, ?_⟩
      · exact shared_down st.shared c rfl task ctl down (by omega) after
      · exact few_down st.shared st.few c rfl task ctl down (by simp only [intMax]; omega) more
      · exact meter_step st.holding ctl uses fun _ => count _
      · refine meter_step st.leaving ctl uses fun gave => ?_
        rw [after] at gave
        cases gave
      · intro finishes
        have outside := (finishes_stage finishes).2
        rw [own, after] at outside
        cases outside
    | releases before after r up count =>
      have less : share new + 1 = share (a.system.ctl a.system.curr) := by
        simp [share, before, after]
      refine ⟨⟨conserved, known, ?_, ?_, ?_, ?_⟩, ?_⟩
      · exact shared_up st.shared c rfl ctl up (by omega)
      · exact few_up st.shared st.few c rfl ctl up less
      · refine meter_step st.holding ctl uses fun holds => ?_
        rw [after] at holds
        cases holds
      · refine meter_step st.leaving ctl uses fun _ => ?_
        rw [count, st.holding _ before]
      · intro finishes
        have outside := (finishes_stage finishes).2
        rw [own, after] at outside
        cases outside
    | keeps same sem queue count =>
      have equal := share_same same
      refine ⟨⟨conserved, known, ?_, ?_, ?_, ?_⟩, ?_⟩
      · exact shared_same st.shared c rfl ctl sem queue (by omega)
      · refine few_same st.few queue ?_
        rw [total_update share ctl]
        omega
      · refine meter_step st.holding ctl uses fun holds => ?_
        rw [count]
        rcases same with same | ⟨_, after⟩
        · exact st.holding _ (same ▸ holds)
        · rw [after] at holds
          cases holds
      · refine meter_step st.leaving ctl uses fun gave => ?_
        rw [count]
        rcases same with same | ⟨_, after⟩
        · exact st.leaving _ (same ▸ gave)
        · rw [after] at gave
          cases gave
      · intro finishes
        obtain ⟨inside, outside⟩ := finishes_stage finishes
        rw [own] at outside
        rcases same with same | ⟨before, _⟩
        · exact absurd (same.symm.trans outside) inside
        · rw [meter, count, st.leaving _ before]
    | fails _ failed _ _ => exact absurd allocated failed
  · refine ⟨steady_outside st go mine, ?_⟩
    intro finishes
    obtain ⟨⟨run, permitted⟩, uses⟩ := go
    have framed := (step_kept st.conserved permitted run).framed .disk (by simp) (Ne.symm mine)
    obtain ⟨inside, outside⟩ := finishes_stage finishes
    rcases framed.ctl a.system.curr with same | ⟨before, _⟩
    · rw [same] at outside
      exact absurd outside inside
    · exact absurd (stage_client inside) before

/-- The early return has taken the semaphore once and given it back never. -/
theorem failure_keeps_it (st : Steady a) (go : Meters a l b) (gives : GivesBack a b) :
    Allocated a.system l := by
  by_contra failed
  obtain ⟨⟨run, permitted⟩, uses⟩ := go
  obtain ⟨malloc, malloc₂, block, buffer, op, rfl, here, none⟩ :
      ∃ malloc malloc₂ block buffer op, l = .run malloc malloc₂ ∧
        a.system.ctl a.system.curr = .blockOp block buffer op .enqueue ∧ malloc = false := by
    unfold Allocated at failed
    split at failed
    · rename_i malloc malloc₂
      split at failed
      · rename_i block buffer op here
        exact ⟨malloc, malloc₂, block, buffer, op, rfl, here, by simpa using failed⟩
      · exact absurd trivial failed
    · exact absurd trivial failed
  simp only [step, advance, here, diskBlockOpStep, none, ↓reduceIte, Option.some.injEq,
    Except.ok.injEq] at run
  have returns : b.system.ctl a.system.curr = .body (-1) := by
    rw [← run]
    exact Function.update_self _ _ _
  have even := gives (Or.inl ⟨block, buffer, op, .enqueue, -1, here, returns⟩)
  have held := st.holding a.system.curr (by rw [here]; rfl)
  have same : b.uses a.system.curr = ⟨1, 0⟩ := by
    rw [uses, metered, Function.update_self]
    simp only [counts, here]
    exact held
  rw [same] at even
  cases even

end Steps

section Runs
variable {a b : Metered N} {labels : List (Label N)}

structure Started (a : Metered N) : Prop where
  fresh : FreshDisk a.system
  vacant : tasks a.system.kernel (.semQueue .semDisk) = []

theorem started_steady (start : Started a) : Steady a := by
  have fresh := start.fresh
  have outside : ∀ t, stage (a.system.ctl t) = .outside := by
    intro t
    by_cases driver : t = .diskDriverTask
    · have down := fresh.driver
      rw [← driver] at down
      cases here : a.system.ctl t with
      | driver p => rw [here] at down; cases down; rfl
      | _ => rw [here] at down; cases down
    · have none := fresh.outside t driver
      cases here : a.system.ctl t with
      | blockOp block buffer op point => rw [here] at none; cases none
      | driver p => rw [here] at none; cases none
      | _ => rfl
  refine ⟨fresh.conserved, by rw [fresh.status]; simp, ?_, ?_, ?_, ?_⟩
  · refine shared_start fresh.sem rfl start.vacant fun t => if_neg ?_
    rw [outside]
    simp
  · unfold Few
    rw [start.vacant]
    exact Nat.zero_le _
  · intro t holds
    rw [outside] at holds
    cases holds
  · intro t gave
    rw [outside] at gave
    cases gave

theorem allocated_run (st : Steady a)
    (run : Run (fun a l b => Meters a l b ∧ Allocated a.system l) a labels b) :
    Steady b ∧ Run (fun a l b => Meters a l b ∧ GivesBack a b ∧ Whole b.system) a labels b := by
  induction run with
  | start => exact ⟨st, .start _⟩
  | step earlier last ih =>
    obtain ⟨before, whole⟩ := ih
    obtain ⟨after, gives⟩ := steady_step before last.1 last.2
    exact ⟨after, .step whole ⟨last.1, gives, steady_whole after⟩⟩

theorem given_back_run (st : Steady a)
    (run : Run (fun a l b => Meters a l b ∧ GivesBack a b ∧ Whole b.system) a labels b) :
    Run (fun a l b => Meters a l b ∧ Allocated a.system l) a labels b := by
  induction run with
  | start => exact .start _
  | step earlier last ih =>
    have before := (allocated_run st ih).1
    exact .step ih ⟨last.1, failure_keeps_it before last.1 last.2.1⟩

end Runs

/-- sem_disk is given back on every way out, and is whole whenever nobody holds it, exactly in
    the runs in which no request fails to be allocated. -/
theorem semaphore_is_given_back {a b : Metered N} {labels : List (Label N)} (start : Started a) :
    Whole a.system ∧
    (Run (fun a l b => Meters a l b ∧ GivesBack a b ∧ Whole b.system) a labels b ↔
      Run (fun a l b => Meters a l b ∧ Allocated a.system l) a labels b) := by
  have st := started_steady start
  refine ⟨steady_whole st, ?_⟩
  constructor
  · exact given_back_run st
  · exact fun run => (allocated_run st run).2

section Executions

def meterStep (guard : System N → Label N → Prop) [∀ s l, Decidable (guard s l)]
    (a : Metered N) (l : Label N) : Option (Metered N) :=
  (guardedStep (fun s l _ => Permitted s l ∧ guard s l) a.system l).map fun s =>
    ⟨s, metered a l⟩

theorem meterStep_meters {guard : System N → Label N → Prop} [∀ s l, Decidable (guard s l)]
    {a b : Metered N} {l : Label N} (next : meterStep guard a l = some b) :
    Meters a l b ∧ guard a.system l := by
  unfold meterStep at next
  obtain ⟨s, stepped, rfl⟩ := Option.map_eq_some_iff.mp next
  obtain ⟨run, permitted, guarded⟩ := guardedStep_eq stepped
  exact ⟨⟨⟨run, permitted⟩, rfl⟩, guarded⟩

def meteredDisk : Metered (Fin 1) := ⟨managed, fun _ => ⟨0, 0⟩⟩

theorem meteredDisk_started : Started meteredDisk := by
  refine ⟨managed_fresh, ?_⟩
  decide +kernel

theorem one_read_gives_back : ∃ b : Metered (Fin 1),
    Run (fun a l b => Meters a l b ∧ GivesBack a b ∧ Whole b.system) meteredDisk oneRead b ∧
    b.uses .mainTask = ⟨1, 1⟩ := by
  obtain ⟨b, found, uses⟩ := exec_reaches (meterStep Allocated) meteredDisk oneRead
    (fun b => b.uses .mainTask = ⟨1, 1⟩) (by decide +kernel)
  have run := run_mono (fun _ _ _ next => meterStep_meters next) (exec_run found)
  exact ⟨b, (semaphore_is_given_back meteredDisk_started).2.mpr run, uses⟩

theorem failed_request_keeps_semaphore :
    ¬ ∀ (a b : Metered (Fin 1)) (labels : List (Label (Fin 1))), Started a →
      Run Meters a labels b → Whole b.system := by
  intro claim
  obtain ⟨b, found, unheld, value⟩ := exec_reaches (meterStep fun _ _ => True) meteredDisk
    [.call (.diskBlockRead 0 (some 0)), .run false true]
    (fun b => (∀ t, stage (b.system.ctl t) = .holds →
        t ∈ tasks b.system.kernel (.semQueue .semDisk)) ∧
      (b.system.kernel.sem .semDisk).value = 0) (by decide +kernel)
  have run := run_mono (fun _ _ _ next => (meterStep_meters next).1) (exec_run found)
  have one := (claim _ _ _ meteredDisk_started run unheld).1
  rw [value] at one
  cases one

end Executions

end DiskSemaphore
