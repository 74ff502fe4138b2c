import PingPong.DiskProtocol
import PingPong.KernelViews
import PingPong.TaskConservation

/-! The running system seen through its disk manager: every step is a move of the disk
   protocol, and what holds of the protocol holds of the code. -/
namespace DiskRequests
open MachineModel CircularList QueueModel KernelModel KernelEffects TaskPlacement SystemModel
open SystemFrames TransitionRuns TaskConservation DiskProtocol KernelViews
variable {N : Type} [DecidableEq N] [Fintype N]

section Refinement

def diskPoint : Ctl N → Option DiskPoint
  | .blockOp block buffer op point => some (.asks block buffer op point)
  | .driver point => some (.drives point)
  | _ => none

def diskView (s : System N) : DiskView N :=
  { point := fun t => diskPoint (s.ctl t)
    queue := tasks s.kernel .diskQueue
    requestQueue := s.disk.requestQueue
    signal := s.disk.signal
    numBlocks := s.disk.numBlocks
    device := s.device
    ram := s.ram
    calls := s.history.calls
    requests := s.history.requests
    ticket := s.history.ticket
    performed := s.history.performed
    signalsSeen := s.history.signalsSeen
    woken := s.history.woken }

def diskEvent (s : System N) : Label N → DiskEvent N
  | .completion => .completes
  | .call (.diskBlockRead block buffer) =>
    .calls ⟨s.curr, block, buffer, .read, loadBlock s.ram (buffer.getD 0)⟩
  | .call (.diskBlockWrite block buffer) =>
    .calls ⟨s.curr, block, buffer, .write, loadBlock s.ram (buffer.getD 0)⟩
  | .run malloc _ => match s.ctl s.curr with
      | .blockOp _ _ _ .enqueue => if malloc then .proceeds else .refuses
      | .blockOp _ _ _ .suspend => .suspends s.curr
      | .blockOp _ _ _ _ => .proceeds
      | .driver .test => .tests
      | .driver _ => .proceeds
      | _ => .outside
  | _ => .outside

variable {s s' : System N}

omit [Fintype N] [DecidableEq N] in
theorem diskPoint_outside {c : Ctl N} (off : ctlClient c ≠ .disk) : diskPoint c = none := by
  cases c <;> simp_all [diskPoint, ctlClient]

theorem point_update (s : System N) (t : Tcb N) (new : Ctl N) :
    (fun u => diskPoint (Function.update s.ctl t new u)) =
      Function.update (diskView s).point t (diskPoint new) :=
  funext fun u => Function.apply_update (fun _ => diskPoint) s.ctl t new u

omit [Fintype N] in
theorem moves_to {v v₁ v₂ : DiskView N} {e : DiskEvent N} (move : DiskMove v e v₁)
    (same : v₂ = v₁) : DiskMove v e v₂ := same ▸ move

theorem outside_moves (framed : Framed .disk s s') :
    DiskMove (diskView s) .outside (diskView s') := by
  have data : DiskData s s' := framed.data
  have same : diskView s' = { diskView s with ram := s'.ram } := by
    refine DiskView.ext ?_ (framed.lists .diskQueue (by simp) rfl) ?_ ?_ ?_ data.device rfl
      data.calls data.requests data.ticket data.performed data.signalsSeen data.woken
    · funext t
      rcases framed.ctl t with same | ⟨before, after⟩
      · exact congrArg diskPoint same
      · exact (diskPoint_outside after).trans (diskPoint_outside before).symm
    · exact congrArg DiskManager.requestQueue data.disk
    · exact congrArg DiskManager.signal data.disk
    · exact congrArg DiskManager.numBlocks data.disk
  rw [same]
  exact .outside _

theorem call_moves (c : Conserved s) {code : Int} (body : s.ctl s.curr = .body code)
    {block : Int} {buffer : Option Nat} {op : Operation}
    (run : diskBlockOpCall s block buffer op = .ok s') :
    DiskMove (diskView s)
      (.calls ⟨s.curr, block, buffer, op, loadBlock s.ram (buffer.getD 0)⟩) (diskView s') := by
  obtain ⟨⟨k, r⟩, down, rfl⟩ := map_ok run
  have user : s.kernel.curr ≠ .dispatcherTask :=
    not_dispatcher c (t := s.curr) (by rw [body]; simp [role])
  have kept := semDown_any c.placed user down
  have idle : (diskView s).point s.curr = none := by
    change diskPoint (s.ctl s.curr) = none
    rw [body]
    rfl
  refine moves_to (DiskMove.call _ idle rfl)
    (DiskView.ext ?_ ?_ rfl rfl rfl rfl rfl rfl rfl rfl rfl rfl rfl)
  · exact point_update s s.curr _
  · exact kept.lists .diskQueue (by simp) (by simp)

theorem blockOp_moves (c : Conserved s) {block : Int} {buffer : Option Nat} {op : Operation}
    {point : BlockOpPoint} (here : s.ctl s.curr = .blockOp block buffer op point)
    {malloc malloc₂ : Bool} (run : diskBlockOpStep s block buffer op malloc point = .ok s') :
    DiskMove (diskView s) (diskEvent s (.run malloc malloc₂)) (diskView s') := by
  have here' : (diskView s).point s.curr = some (.asks block buffer op point) := by
    change diskPoint (s.ctl s.curr) = _
    rw [here]
    rfl
  have user : s.kernel.curr ≠ .dispatcherTask :=
    not_dispatcher c (t := s.curr) (by rw [here]; simp [role])
  have awake : s.curr ∉ (diskView s).queue := current_nowhere_else c.placed (by simp)
  simp only [diskEvent, here]
  cases point with
  | enqueue =>
    simp only [diskBlockOpStep] at run
    cases malloc with
    | false =>
      simp only [↓reduceIte, Except.ok.injEq] at run
      subst run
      refine moves_to (DiskMove.refuse s.curr here')
        (DiskView.ext ?_ rfl rfl rfl rfl rfl rfl rfl rfl rfl rfl rfl rfl)
      exact point_update s s.curr _
    | true =>
      simp only [Bool.true_eq_false, ↓reduceIte, Except.ok.injEq] at run
      subst run
      refine moves_to (DiskMove.enqueue s.curr (taskId s.kernel) here')
        (DiskView.ext ?_ rfl rfl rfl rfl rfl rfl rfl rfl rfl rfl rfl rfl)
      exact point_update s s.curr _
  | resume =>
    simp only [diskBlockOpStep] at run
    split at run
    · rename_i suspended
      have alive := suspended_driver_lives c suspended
      obtain ⟨k, resumed, rfl⟩ := map_ok run
      have leaves : tasks k .diskQueue = (tasks s.kernel .diskQueue).erase .diskDriverTask :=
        resume_leaves c.placed alive (by simp) (by simp) resumed
      refine moves_to (DiskMove.rouse s.curr here' (tasks k .diskQueue) (Or.inr leaves))
        (DiskView.ext ?_ rfl rfl rfl rfl rfl rfl rfl rfl rfl rfl rfl rfl)
      exact point_update s s.curr _
    · cases run
      refine moves_to (DiskMove.rouse s.curr here' _ (Or.inl rfl))
        (DiskView.ext ?_ rfl rfl rfl rfl rfl rfl rfl rfl rfl rfl rfl rfl)
      exact point_update s s.curr _
  | up =>
    obtain ⟨⟨k, r⟩, up, rfl⟩ := map_ok run
    obtain ⟨_, kept⟩ := semUp_any c.placed up
    refine moves_to (DiskMove.release s.curr here')
      (DiskView.ext ?_ ?_ rfl rfl rfl rfl rfl rfl rfl rfl rfl rfl rfl)
    · exact point_update s s.curr _
    · exact kept.lists .diskQueue (by simp) (by simp)
  | suspend =>
    obtain ⟨k, suspended, rfl⟩ := map_ok run
    obtain ⟨m, known, lists, _⟩ := suspend_kept c.placed user .diskQueue
    cases known.symm.trans suspended
    refine moves_to (DiskMove.suspend s.curr here' awake)
      (DiskView.ext ?_ ?_ rfl rfl rfl rfl rfl rfl rfl rfl rfl rfl rfl)
    · exact point_update s s.curr _
    · change elems m .diskQueue = _
      rw [lists, moveTask_target _ (by simp)]
      rfl
  | finish =>
    cases run
    refine moves_to (DiskMove.finish s.curr here' awake)
      (DiskView.ext ?_ rfl rfl rfl rfl rfl rfl rfl rfl rfl rfl rfl rfl)
    exact point_update s s.curr _

theorem driver_here (c : Conserved s) {point : DriverPoint}
    (here : s.ctl s.curr = .driver point) : s.curr = .diskDriverTask :=
  c.driverRole _ (by rw [here]; rfl)

theorem driver_moves (c : Conserved s) {point : DriverPoint}
    (here : s.ctl s.curr = .driver point) {malloc malloc₂ : Bool}
    (run : diskDriverStep s point = .ok s') :
    DiskMove (diskView s) (diskEvent s (.run malloc malloc₂)) (diskView s') := by
  have curr := driver_here c here
  have here' : (diskView s).point .diskDriverTask = some (.drives point) := by
    change diskPoint (s.ctl .diskDriverTask) = _
    rw [← curr, here]
    rfl
  have user : s.kernel.curr ≠ .dispatcherTask :=
    not_dispatcher c (t := s.curr) (by rw [here]; simp [role])
  have awake : .diskDriverTask ∉ (diskView s).queue := by
    rw [← curr]
    exact current_nowhere_else c.placed (by simp)
  have points : ∀ p, (fun u => diskPoint (Function.update s.ctl s.curr (.driver p) u)) =
      (drive (diskView s) p).point := fun p => by
    rw [point_update, curr]
    rfl
  simp only [diskEvent, here]
  cases point with
  | down =>
    obtain ⟨⟨k, r⟩, down, rfl⟩ := map_ok run
    have kept := semDown_any c.placed user down
    refine moves_to (DiskMove.down here')
      (DiskView.ext ?_ ?_ rfl rfl rfl rfl rfl rfl rfl rfl rfl rfl rfl)
    · exact points _
    · exact kept.lists .diskQueue (by simp) (by simp)
  | test =>
    simp only [diskDriverStep, diskDriverTest] at run
    split at run
    · rename_i set
      obtain ⟨k, resumed, rfl⟩ := map_ok run
      have head := c.placed.wellFormed.head .diskQueue
      rcases waiting : tasks s.kernel .diskQueue with _ | ⟨first, rest⟩
      · rw [head, waiting] at resumed
        cases resumed
      · rw [waiting] at head
        obtain ⟨m, known, lists, _⟩ := resume_kept c.placed (t := first) (q := .diskQueue)
          (by rw [waiting]; simp)
        rw [head] at resumed
        cases known.symm.trans resumed
        refine moves_to (DiskMove.wake first rest here' set awake waiting)
          (DiskView.ext ?_ ?_ rfl rfl rfl rfl rfl rfl rfl rfl rfl rfl ?_)
        · exact points _
        · change elems m .diskQueue = rest
          rw [lists, moveTask_source _ (by simp), waiting, List.erase_cons_head]
        · change s.history.woken ++ (s.kernel.queues.head .diskQueue).toList = _
          rw [head]
          rfl
    · rename_i clear
      cases run
      refine moves_to (DiskMove.skip here' (not_not.mp clear))
        (DiskView.ext ?_ rfl rfl rfl rfl rfl rfl rfl rfl rfl rfl rfl rfl)
      exact points _
  | issue =>
    simp only [diskDriverStep, diskDriverIssue, Except.ok.injEq] at run
    have idle : DiskMove (diskView s) .proceeds
        (diskView { s with ctl := Function.update s.ctl s.curr (.driver .up) }) := by
      refine moves_to (DiskMove.pass here')
        (DiskView.ext ?_ rfl rfl rfl rfl rfl rfl rfl rfl rfl rfl rfl rfl)
      exact points _
    split at run
    · rename_i ready
      split at run
      · subst run
        exact idle
      · rename_i request rest pending
        subst run
        refine moves_to (DiskMove.issue request rest here' ready.1 pending)
          (DiskView.ext ?_ rfl rfl rfl rfl rfl rfl rfl rfl rfl rfl rfl rfl)
        exact points _
    · subst run
      exact idle
  | up =>
    obtain ⟨⟨k, r⟩, up, rfl⟩ := map_ok run
    obtain ⟨_, kept⟩ := semUp_any c.placed up
    refine moves_to (DiskMove.yield here')
      (DiskView.ext ?_ ?_ rfl rfl rfl rfl rfl rfl rfl rfl rfl rfl rfl)
    · exact points _
    · exact kept.lists .diskQueue (by simp) (by simp)
  | suspend =>
    obtain ⟨k, suspended, rfl⟩ := map_ok run
    obtain ⟨m, known, lists, _⟩ := suspend_kept c.placed user .diskQueue
    cases known.symm.trans suspended
    refine moves_to (DiskMove.sleep here')
      (DiskView.ext ?_ ?_ rfl rfl rfl rfl rfl rfl rfl rfl rfl rfl rfl)
    · exact points _
    · change elems m .diskQueue = _
      rw [lists, moveTask_target _ (by simp), show s.kernel.curr = .diskDriverTask from curr]
      rfl

theorem completion_moves (c : Conserved s) (op : Operation) (busy : s.device.status = statusOf op)
    (run : diskSighandle s op = .ok s') : DiskMove (diskView s) .completes (diskView s') := by
  have nodup : (diskView s).queue.Nodup := (c.placed.wellFormed.ring .diskQueue).nodup
  have queue : tasks s'.kernel .diskQueue = (tasks s.kernel .diskQueue).erase .diskDriverTask := by
    obtain ⟨on, resumed, -⟩ := sighandle_returns run
    exact resume_leaves c.placed (c.handler on) (by simp) (by simp) resumed
  cases op with
  | read =>
    simp only [diskSighandle] at run
    split at run
    · cases run
    · obtain ⟨k, -, rfl⟩ := map_ok run
      exact moves_to (DiskMove.complete .read busy nodup)
        (DiskView.ext rfl queue rfl rfl rfl rfl rfl rfl rfl rfl rfl rfl rfl)
  | write =>
    simp only [diskSighandle] at run
    split at run
    · cases run
    · obtain ⟨k, -, rfl⟩ := map_ok run
      exact moves_to (DiskMove.complete .write busy nodup)
        (DiskView.ext rfl queue rfl rfl rfl rfl rfl rfl rfl rfl rfl rfl rfl)

omit [Fintype N] in
theorem diskMgrInit_again (known : s.device.status ≠ .unknown) (host stack : Bool) :
    diskMgrInit s host stack = .ok (s.answer (-1)) := by
  simp [diskMgrInit, diskInit, known]

theorem disk_call (known : s.device.status ≠ .unknown) {c : Call N} (mine : callClient c = .disk)
    (run : call s c = .ok s') :
    (∃ block buffer, c = .diskBlockRead block buffer ∧
      diskBlockOpCall s block buffer .read = .ok s') ∨
    (∃ block buffer, c = .diskBlockWrite block buffer ∧
      diskBlockOpCall s block buffer .write = .ok s') ∨
    (∃ host stack, c = .diskMgrInit host stack) ∧ s' = s.answer (-1) := by
  cases c with
  | diskBlockRead block buffer => exact Or.inl ⟨block, buffer, rfl, run⟩
  | diskBlockWrite block buffer => exact Or.inr (Or.inl ⟨block, buffer, rfl, run⟩)
  | diskMgrInit host stack =>
    simp only [call, diskMgrInit_again known, Except.ok.injEq] at run
    exact Or.inr (Or.inr ⟨⟨host, stack, rfl⟩, run.symm⟩)
  | semInit n _ => cases n <;> cases mine
  | semDown n => cases n <;> cases mine
  | semUp n => cases n <;> cases mine
  | semDestroy n => cases n <;> cases mine
  | mqueueInit q _ _ => cases q <;> cases mine
  | mqueueSend q _ => cases q <;> cases mine
  | mqueueRecv q _ => cases q <;> cases mine
  | mqueueDestroy q => cases q <;> cases mine
  | _ => cases mine

theorem step_moves (c : Conserved s) (known : s.device.status ≠ .unknown) {l : Label N}
    (permitted : Permitted s l) (go : step s l = some (.ok s')) :
    DiskMove (diskView s) (diskEvent s l) (diskView s') := by
  have ok := step_kept c permitted go
  by_cases mine : client s l = .disk
  · cases l with
    | tick => cases mine
    | completion =>
      simp only [step] at go
      split at go
      · rename_i status
        exact completion_moves c .read status (Option.some.inj go)
      · rename_i status
        exact completion_moves c .write status (Option.some.inj go)
      · cases go
    | call call' =>
      obtain ⟨code, body, run⟩ := call_runs go
      rcases disk_call known mine run with
        ⟨_, _, rfl, asks⟩ | ⟨_, _, rfl, asks⟩ | ⟨⟨_, _, rfl⟩, rfl⟩
      · exact call_moves c body asks
      · exact call_moves c body asks
      · refine moves_to (DiskMove.outside s.ram)
          (DiskView.ext ?_ rfl rfl rfl rfl rfl rfl rfl rfl rfl rfl rfl rfl)
        change (fun u => diskPoint (Function.update s.ctl s.curr (.body (-1)) u)) = _
        rw [point_update]
        exact Function.update_eq_self_iff.mpr (by simp [diskView, body, diskPoint])
    | run malloc malloc₂ =>
      rcases disk_runs mine go with ⟨_, _, _, _, here, run⟩ | ⟨_, here, run⟩
      · exact blockOp_moves c here run
      · exact driver_moves c here run
  · have outside : diskEvent s l = .outside := by
      cases l with
      | tick => rfl
      | completion => exact absurd rfl mine
      | call call' =>
        cases call' <;> first | rfl | exact absurd rfl mine
      | run malloc malloc₂ =>
        simp only [client] at mine
        simp only [diskEvent]
        cases here : s.ctl s.curr <;> rw [here] at mine <;> first | rfl | exact absurd rfl mine
    rw [outside]
    exact outside_moves (ok.framed .disk (by simp) (Ne.symm mine))

end Refinement

section Sections

def holdsDisk : Ctl N → Bool
  | .blockOp _ _ _ .enqueue | .blockOp _ _ _ .resume | .blockOp _ _ _ .up => true
  | .driver .test | .driver .issue | .driver .up => true
  | _ => false

/-- From sem_down to task_suspend. -/
def inSection : Ctl N → Bool
  | .blockOp _ _ _ .suspend | .driver .suspend => true
  | c => holdsDisk c

/-- The driver between its look at the signal and its task_suspend. -/
def isDeaf : Ctl N → Bool
  | .driver p => afterTest p
  | _ => false

/-- A step of a disk call or of the driver, by what it does to the processor and the lock. -/
inductive DiskEffect (s : System N) (l : Label N) (s' : System N) (old new : Ctl N) : Prop where
  | waits (user : s.kernel.curr ≠ .dispatcherTask) (before : inSection old = false)
      (lock : holdsDisk new = true) (hears : isDeaf new = false) (r : Option Int)
      (run : semDown s.kernel (some .semDisk) = .ok (s'.kernel, r))
  | signals (before : holdsDisk old = true) (after : holdsDisk new = false) (r : Int)
      (run : semUp s.kernel (some .semDisk) = .ok (s'.kernel, r))
  | stays (lock : holdsDisk new = holdsDisk old) (curr : s'.curr = s.curr)
      (sem : s'.kernel.sem .semDisk = s.kernel.sem .semDisk)
  | refuses (event : diskEvent s l = .refuses) (after : inSection new = false)
      (curr : s'.curr = s.curr)
  | leaves (before : holdsDisk old = false) (after : inSection new = false)
      (curr : s'.curr = .dispatcherTask)
      (sem : s'.kernel.sem .semDisk = s.kernel.sem .semDisk)

variable {s s' : System N}

omit [DecidableEq N] [Fintype N] in
theorem holds_inSection {c : Ctl N} (lock : holdsDisk c = true) : inSection c = true := by
  unfold inSection
  split
  · rfl
  · rfl
  · exact lock

omit [DecidableEq N] [Fintype N] in
theorem deaf_inSection {c : Ctl N} (deaf : isDeaf c = true) : inSection c = true := by
  cases c with
  | driver p => cases p <;> first | rfl | cases deaf
  | _ => cases deaf

omit [DecidableEq N] [Fintype N] in
theorem section_client {c : Ctl N} (inside : inSection c = true) : ctlClient c = .disk := by
  cases c <;> first | rfl | cases inside

theorem call_section (c : Conserved s) (known : s.device.status ≠ .unknown) {code : Int}
    (body : s.ctl s.curr = .body code) {call' : Call N} (mine : callClient call' = .disk)
    (run : call s call' = .ok s') :
    ∃ new, s'.ctl = Function.update s.ctl s.curr new ∧
      DiskEffect s (.call call') s' (s.ctl s.curr) new := by
  have asked : ∀ block buffer op, diskBlockOpCall s block buffer op = .ok s' →
      ∃ new, s'.ctl = Function.update s.ctl s.curr new ∧
        DiskEffect s (.call call') s' (s.ctl s.curr) new := by
    intro block buffer op run
    obtain ⟨⟨k, r⟩, down, rfl⟩ := map_ok run
    exact ⟨_, rfl, .waits (body_user c body) (by rw [body]; rfl) rfl rfl r down⟩
  rcases disk_call known mine run with
    ⟨_, _, rfl, asks⟩ | ⟨_, _, rfl, asks⟩ | ⟨⟨_, _, rfl⟩, rfl⟩
  · exact asked _ _ _ asks
  · exact asked _ _ _ asks
  · exact ⟨_, rfl, .stays (by rw [body]; rfl) rfl rfl⟩

theorem blockOp_section {block : Int} {buffer : Option Nat} {op : Operation}
    {point : BlockOpPoint} (here : s.ctl s.curr = .blockOp block buffer op point)
    {malloc malloc₂ : Bool} (run : diskBlockOpStep s block buffer op malloc point = .ok s') :
    ∃ new, s'.ctl = Function.update s.ctl s.curr new ∧
      DiskEffect s (.run malloc malloc₂) s' (.blockOp block buffer op point) new := by
  cases point with
  | enqueue =>
    simp only [diskBlockOpStep] at run
    split at run
    · rename_i failed
      cases run
      refine ⟨_, rfl, .refuses ?_ rfl rfl⟩
      simp [diskEvent, here, failed]
    · cases run
      exact ⟨_, rfl, .stays rfl rfl rfl⟩
  | resume =>
    simp only [diskBlockOpStep] at run
    split at run
    · obtain ⟨k, resumed, rfl⟩ := map_ok run
      have curr := resume_blind blind_curr resumed
      have sem := resume_blind blind_sem resumed
      exact ⟨_, rfl, .stays rfl curr (congrFun sem _)⟩
    · cases run
      exact ⟨_, rfl, .stays rfl rfl rfl⟩
  | up =>
    obtain ⟨⟨k, r⟩, up, rfl⟩ := map_ok run
    exact ⟨_, rfl, .signals rfl rfl r up⟩
  | suspend =>
    obtain ⟨k, suspended, rfl⟩ := map_ok run
    have curr := suspend_dest suspended
    have sem := suspend_sem suspended
    exact ⟨_, rfl, .leaves rfl rfl curr (congrFun sem _)⟩
  | finish =>
    cases run
    exact ⟨_, rfl, .stays rfl rfl rfl⟩

theorem driver_section {point : DriverPoint} (user : s.kernel.curr ≠ .dispatcherTask)
    {l : Label N} (run : diskDriverStep s point = .ok s') :
    ∃ new, s'.ctl = Function.update s.ctl s.curr new ∧
      DiskEffect s l s' (.driver point) new := by
  cases point with
  | down =>
    obtain ⟨⟨k, r⟩, down, rfl⟩ := map_ok run
    exact ⟨_, rfl, .waits user rfl rfl rfl r down⟩
  | test =>
    simp only [diskDriverStep, diskDriverTest] at run
    split at run
    · obtain ⟨k, resumed, rfl⟩ := map_ok run
      have curr := resume_blind blind_curr resumed
      have sem := resume_blind blind_sem resumed
      exact ⟨_, rfl, .stays rfl curr (congrFun sem _)⟩
    · cases run
      exact ⟨_, rfl, .stays rfl rfl rfl⟩
  | issue =>
    simp only [diskDriverStep, diskDriverIssue, Except.ok.injEq] at run
    split at run
    · split at run
      · subst run
        exact ⟨_, rfl, .stays rfl rfl rfl⟩
      · subst run
        exact ⟨_, rfl, .stays rfl rfl rfl⟩
    · subst run
      exact ⟨_, rfl, .stays rfl rfl rfl⟩
  | up =>
    obtain ⟨⟨k, r⟩, up, rfl⟩ := map_ok run
    exact ⟨_, rfl, .signals rfl rfl r up⟩
  | suspend =>
    obtain ⟨k, suspended, rfl⟩ := map_ok run
    have curr := suspend_dest suspended
    have sem := suspend_sem suspended
    exact ⟨_, rfl, .leaves rfl rfl curr (congrFun sem _)⟩

theorem disk_effect (c : Conserved s) (known : s.device.status ≠ .unknown) {l : Label N}
    (mine : client s l = .disk) (notCompletion : l ≠ .completion)
    (go : step s l = some (.ok s')) :
    ∃ new, s'.ctl = Function.update s.ctl s.curr new ∧
      DiskEffect s l s' (s.ctl s.curr) new := by
  cases l with
  | tick => cases mine
  | completion => exact absurd rfl notCompletion
  | call call' =>
    obtain ⟨code, body, go⟩ := call_runs go
    exact call_section c known body mine go
  | run malloc malloc₂ =>
    rcases disk_runs mine go with ⟨_, _, _, _, here, run⟩ | ⟨_, here, run⟩
    · rw [here]
      exact blockOp_section here run
    · have user : s.kernel.curr ≠ .dispatcherTask :=
        not_dispatcher c (t := s.curr) (by rw [here]; simp [role])
      rw [here]
      exact driver_section user run

theorem completion_effect (go : step s .completion = some (.ok s')) :
    s'.ctl = s.ctl ∧ s'.curr = s.curr ∧ s'.kernel.sem = s.kernel.sem := by
  obtain ⟨op, run⟩ := completion_runs go
  obtain ⟨-, resumed, ctl, -⟩ := sighandle_returns run
  exact ⟨ctl, resume_blind blind_curr resumed, resume_blind blind_sem resumed⟩

def Alone (at' : Ctl N → Bool) (s : System N) : Prop :=
  ∀ t, at' (s.ctl t) = true → s.curr = t

/-- A task is at such a point only in disk calls and the driver, the timer does not preempt it
    there, and its own steps give up the processor only on the way out. -/
theorem alone_step {at' : Ctl N → Bool} (alone : Alone at' s)
    (disk : ∀ c, at' c = true → ctlClient c = .disk) (c : Conserved s)
    (known : s.device.status ≠ .unknown) {l : Label N} (permitted : Permitted s l)
    (go : step s l = some (.ok s'))
    (tick : l = .tick → at' (s.ctl s.curr) = true → s'.curr = s.curr)
    (leaves : ∀ new, DiskEffect s l s' (s.ctl s.curr) new → at' new = true →
      s'.curr = s.curr) : Alone at' s' := by
  intro t here
  by_cases mine : client s l = .disk
  · by_cases completes : l = .completion
    · subst completes
      obtain ⟨ctl, curr, _⟩ := completion_effect go
      rw [curr]
      exact alone t (by rw [← ctl]; exact here)
    · obtain ⟨new, ctl, effect⟩ := disk_effect c known mine completes go
      rw [ctl, Function.update_apply] at here
      split at here
      · rename_i same
        rw [leaves new effect here]
        exact same.symm
      · rename_i other
        exact absurd (alone t here).symm other
  · have framed := (step_kept c permitted go).framed .disk (by simp) (Ne.symm mine)
    have before : at' (s.ctl t) = true := by
      rcases framed.ctl t with same | ⟨_, after⟩
      · rw [← same]; exact here
      · exact absurd (disk _ here) after
    have curr := alone t before
    subst curr
    cases l with
    | tick => rw [tick rfl before]
    | completion => exact absurd rfl mine
    | call call' =>
      have inDisk := disk _ before
      obtain ⟨_, body, -⟩ := call_runs go
      rw [body] at inDisk
      cases inDisk
    | run malloc malloc₂ => exact absurd (disk _ before) mine

theorem deaf_leaves (c : Conserved s) {l : Label N} {old new : Ctl N}
    (effect : DiskEffect s l s' old new) (deaf : isDeaf new = true) : s'.curr = s.curr := by
  cases effect with
  | waits _ _ _ hears _ _ => rw [hears] at deaf; cases deaf
  | signals _ _ r run => exact (semUp_any c.placed run).1
  | stays _ curr _ => exact curr
  | refuses _ _ curr => exact curr
  | leaves _ after _ _ => rw [deaf_inSection deaf] at after; cases after

/-- With nobody preempted on the way, sem_disk is 0 exactly while its holder runs. -/
structure Atomic (s : System N) : Prop where
  alone : Alone inSection s
  sem : s.kernel.sem .semDisk = ⟨if holdsDisk (s.ctl s.curr) then 0 else 1, 0, 1⟩

theorem section_enter (atomic : Atomic s) (c : Conserved s)
    (user : s.kernel.curr ≠ .dispatcherTask) (before : inSection (s.ctl s.curr) = false)
    {k : Kernel N} {r : Option Int} (run : semDown s.kernel (some .semDisk) = .ok (k, r)) :
    k.curr = s.curr ∧ k.sem .semDisk = ⟨0, 0, 1⟩ := by
  have free : holdsDisk (s.ctl s.curr) = false := by
    by_contra held
    rw [holds_inSection (by simpa using held)] at before
    cases before
  have sem := atomic.sem
  rw [free] at sem
  obtain ⟨k', r', known, _, sem', _, passes⟩ := semDown_kept c.placed user (s := .semDisk) (v := 0)
    (by rw [sem]; decide) (by rw [sem]) (by rw [sem]; decide)
  rw [known, Except.ok.injEq, Prod.mk.injEq] at run
  obtain ⟨rfl, -⟩ := run
  exact ⟨(passes (by decide)).1, sem'.trans (by rw [sem])⟩

theorem section_leaves (atomic : Atomic s) (c : Conserved s) {l : Label N} {new : Ctl N}
    (effect : DiskEffect s l s' (s.ctl s.curr) new) (inside : inSection new = true) :
    s'.curr = s.curr := by
  cases effect with
  | waits user before _ _ r run => exact (section_enter atomic c user before run).1
  | signals _ _ r run => exact (semUp_any c.placed run).1
  | stays _ curr _ => exact curr
  | refuses _ _ curr => exact curr
  | leaves _ after _ _ => rw [inside] at after; cases after

theorem atomic_step (atomic : Atomic s) (c : Conserved s) (known : s.device.status ≠ .unknown)
    {l : Label N} (permitted : Permitted s l) (go : step s l = some (.ok s'))
    (tick : l = .tick → inSection (s.ctl s.curr) = true → s'.curr = s.curr)
    (accepted : diskEvent s l ≠ .refuses) : Atomic s' := by
  have ok := step_kept c permitted go
  have alone : Alone inSection s' := alone_step atomic.alone (fun _ => section_client) c known
    permitted go tick fun _ => section_leaves atomic c
  refine ⟨alone, ?_⟩
  by_cases mine : client s l = .disk
  · by_cases completes : l = .completion
    · subst completes
      obtain ⟨ctl, curr, sem⟩ := completion_effect go
      rw [ctl, curr, sem]
      exact atomic.sem
    · obtain ⟨new, ctl, effect⟩ := disk_effect c known mine completes go
      have here : s'.curr = s.curr → s'.ctl s'.curr = new := fun same => by
        rw [ctl, same, Function.update_self]
      cases effect with
      | waits user before lock _ r run =>
        obtain ⟨same, sem⟩ := section_enter atomic c user before run
        rw [here same, lock]
        exact sem
      | signals before after r run =>
        have sem := atomic.sem
        rw [before] at sem
        obtain ⟨k, r', known, _, sem', curr, _⟩ := semUp_kept c.placed (s := .semDisk) (v := 1)
          (by rw [sem]; decide) (by rw [sem]) (by rw [sem]; decide)
        rw [known, Except.ok.injEq, Prod.mk.injEq] at run
        rw [run.1] at sem' curr
        rw [here curr, after, sem', sem]
        rfl
      | stays lock curr sem =>
        rw [here curr, lock, sem]
        exact atomic.sem
      | refuses event _ _ => exact absurd event accepted
      | leaves before _ curr sem =>
        have idle : holdsDisk (s'.ctl .dispatcherTask) = false := by
          have own := (ok.conserved.dispatcherRole .dispatcherTask).mpr rfl
          revert own
          cases s'.ctl .dispatcherTask <;> simp [role, holdsDisk]
        have same := atomic.sem
        rw [before] at same
        rw [curr, idle, sem, same]
  · have framed := ok.framed .disk (by simp) (Ne.symm mine)
    have same : ∀ t, inSection (s.ctl t) = true ∨ inSection (s'.ctl t) = true →
        s'.ctl t = s.ctl t := by
      intro t inside
      rcases framed.ctl t with same | ⟨before, after⟩
      · exact same
      · rcases inside with old | new
        · exact absurd (section_client old) before
        · exact absurd (section_client new) after
    have holds : holdsDisk (s'.ctl s'.curr) = holdsDisk (s.ctl s.curr) := by
      by_cases inside : inSection (s.ctl s.curr) = true
      · have ctl := same s.curr (Or.inl inside)
        rw [alone s.curr (by rw [ctl]; exact inside), ctl]
      · have before : holdsDisk (s.ctl s.curr) = false := by
          by_contra held
          exact inside (holds_inSection (by simpa using held))
        rw [before]
        by_contra held
        have after := holds_inSection (by simpa using held)
        have ctl := same s'.curr (Or.inr after)
        rw [ctl] at after
        rw [atomic.alone s'.curr after] at inside
        exact inside after
    rw [holds, framed.sem .semDisk rfl]
    exact atomic.sem

end Sections

section Start

/-- disk_mgr_init has returned 0 and nobody has used the disk yet. -/
structure FreshDisk (s : System N) : Prop where
  conserved : Conserved s
  driver : diskPoint (s.ctl .diskDriverTask) = some (.drives .down)
  outside : ∀ t, t ≠ .diskDriverTask → diskPoint (s.ctl t) = none
  sem : s.kernel.sem .semDisk = ⟨1, 0, 1⟩
  queue : tasks s.kernel .diskQueue = []
  requestQueue : s.disk.requestQueue = []
  signal : s.disk.signal = 0
  status : s.device.status = .idle
  blocks : s.device.numblocks = s.disk.numBlocks
  calls : s.history.calls = []
  requests : s.history.requests = []
  performed : s.history.performed = []
  signalsSeen : s.history.signalsSeen = 0
  woken : s.history.woken = []

variable {s s' : System N}

theorem fresh_signalled (fresh : FreshDisk s) : Signalled (diskView s) := by
  refine ⟨⟨.down, fresh.driver⟩, Or.inl fresh.signal, ?_, fun _ => fresh.signal, ?_, ?_, ?_⟩
  · change (s.history.performed.length : Int) = s.history.woken.length + s.disk.signal
    rw [fresh.performed, fresh.woken, fresh.signal]
    rfl
  · exact fun _ _ _ => fresh.signal
  · exact fun _ => fresh.signal
  · change s.history.woken.length = s.history.signalsSeen
    rw [fresh.woken, fresh.signalsSeen]
    rfl

theorem fresh_nobody (fresh : FreshDisk s) (t : Tcb N) (b : Int) (a : Option Nat) (op : Operation)
    (p : BlockOpPoint) : (diskView s).point t ≠ some (.asks b a op p) := by
  intro here
  have here' : diskPoint (s.ctl t) = some (.asks b a op p) := here
  by_cases driver : t = .diskDriverTask
  · rw [driver, fresh.driver] at here'
    cases here'
  · rw [fresh.outside t driver] at here'
    cases here'

theorem fresh_paired (fresh : FreshDisk s) : Paired (diskView s) := by
  have none := fresh_nobody fresh
  have requests : (diskView s).requests = [] := fresh.requests
  have performed : (diskView s).performed = [] := fresh.performed
  have woken : (diskView s).woken = [] := fresh.woken
  have queue : (diskView s).queue = [] := fresh.queue
  refine ⟨fresh_signalled fresh, fresh.blocks,
    fun t b a op p here => absurd here (none t b a op p), ?_, ?_,
    fun busy => absurd fresh.status busy, ?_, ?_, ?_, 
    fun t b a op p here => absurd here (none t b a op p), ?_⟩
  · rw [requests]
    exact fun k mem => absurd mem List.not_mem_nil
  · rw [requests, List.drop_nil, show (diskView s).requestQueue = [] from fresh.requestQueue]
    rfl
  · rw [performed, requests]
    rfl
  · rw [woken, requests]
    rfl
  · intro i k _ found
    rw [requests] at found
    cases found
  · rw [waiters, queue]
    exact List.nil_prefix

theorem fresh_linear (fresh : FreshDisk s) : Linear s.device.file (diskView s) := by
  have none := fresh_nobody fresh
  have requests : (diskView s).requests = [] := fresh.requests
  refine ⟨fresh_paired fresh, Or.inl ⟨fun t b a op => none t b a op _, ?_⟩, ?_, ?_,
    fun t b a op p k here => absurd here (none t b (some a) op p)⟩
  · exact fresh.calls.trans fresh.requests.symm
  · intro b
    rw [requests, List.take_nil]
    rfl
  · intro i k _ found
    rw [requests] at found
    cases found

theorem fresh_atomic (fresh : FreshDisk s) : Atomic s := by
  have nobody : ∀ t, inSection (s.ctl t) = false := by
    intro t
    by_cases driver : t = .diskDriverTask
    · have down := fresh.driver
      rw [← driver] at down
      revert down
      cases s.ctl t with
      | driver p => rintro ⟨⟩; rfl
      | _ => intro down; cases down
    · have outside := fresh.outside t driver
      revert outside
      cases s.ctl t with
      | blockOp b a op p => intro outside; cases outside
      | driver p => intro outside; cases outside
      | _ => intro _; rfl
  refine ⟨fun t inside => ?_, ?_⟩
  · rw [nobody t] at inside
    cases inside
  · have free : holdsDisk (s.ctl s.curr) = false := by
      by_contra held
      have inside := holds_inSection (c := s.ctl s.curr) (by simpa using held)
      rw [nobody] at inside
      cases inside
    rw [free]
    exact fresh.sem

def managed : System N :=
  match diskMgrInit bootSystem true true with
  | .ok s => s
  | .error _ => bootSystem

theorem managed_fresh : FreshDisk (managed : System N) := by
  have lists : ∀ q, tasks (bootSystem : System N).kernel q = bootLists q :=
    congrFun (boot_lists boot_booted).1.elems_eq
  have booted := boot_conserved (N := N) boot_booted
  have permitted : Permitted (bootSystem : System N) (.call (.diskMgrInit true true)) :=
    fun _ => ⟨rfl, lists _⟩
  obtain ⟨first, lists₁, _, sem⟩ := semInit_kept booted.placed (lists (.semQueue .semDisk)) 1
  obtain ⟨k, id, known, own, curr, lists₂, _, _, _, moved⟩ :=
    taskInit_moved first.placed (t := .diskDriverTask) rfl
  have positive : ¬ id < 0 := by
    rw [own, nextId, show (semInit (bootSystem : System N).kernel
      (some .semDisk) 1).1.lastTaskId = 0 from rfl]
    decide
  have here : k.curr = .mainTask := curr
  have run : diskMgrInit (bootSystem : System N) true true = .ok
      ({ bootSystem with
          kernel := k
          ctl := Function.update (Function.update bootSystem.ctl .diskDriverTask (.driver .down))
            .mainTask (.body 0)
          device := ⟨.idle, 0, 0, 0, 1, 64, fun _ _ => 0, 1⟩
          disk := ⟨1, 64, [], 0, true⟩ } : System N) := by
    have ready : diskInit (bootSystem : System N).device =
        (⟨.idle, 0, 0, 0, 1, 64, fun _ _ => 0, 1⟩, 0) := rfl
    simp only [diskMgrInit, ready, System.withKernel, known, Except.map, if_neg positive,
      System.answer, System.goto, System.curr, here]
    rfl
  have go : step (bootSystem : System N) (.call (.diskMgrInit true true)) = some (.ok _) :=
    congrArg some run
  have c := (step_kept booted permitted go).conserved
  rw [managed, run]
  refine ⟨c, rfl, fun t other => ?_, ?_, ?_, rfl, rfl, rfl, rfl, rfl, rfl, rfl, rfl, rfl⟩
  · cases t with
    | mainTask => rfl
    | dispatcherTask => rfl
    | diskDriverTask => exact absurd rfl other
    | user n => rfl
  · exact (moved.sem _ (by simp)).trans sem
  · change tasks k .diskQueue = []
    rw [lists₂, listAppend_other _ _ (by simp), lists₁, lists]
    rfl

end Start

end DiskRequests
