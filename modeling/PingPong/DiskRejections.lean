import PingPong.DiskLinearization
import PingPong.TaskEvents

/-!
Requests that the device rejects. disk_driver takes them from its list and forgets them, so a
disk call with a wrong block or without a buffer never returns an error; without such calls
nobody is left behind when the driver goes to sleep.
-/
namespace DiskRejections
open MachineModel CircularList QueueModel KernelModel KernelEffects TaskPlacement SystemModel
open SystemFrames TransitionRuns TaskConservation DiskProtocol DiskRequests DiskGuarantees
open DiskLinearization
variable {N : Type} [DecidableEq N] [Fintype N]

section Draining

/-- The list of requests fits into the int that queue_size returns. -/
def SizeFits (s : System N) : Label N → Prop
  | .run _ _ => match s.ctl s.curr with
      | .driver .issue => s.disk.requestQueue ≠ [] → 0 < toInt s.disk.requestQueue.length
      | _ => True
  | _ => True

/-- Invalid calls are reported, every call is woken for its own request, the driver goes to
    sleep with an idle disk only when no request is left, and while it sleeps no disk call
    that has left its section is blocked. -/
structure Harmless (s : System N) : Prop where
  reported : ∀ t b a op, s.ctl t = .blockOp b a op .finish →
    0 ≤ b ∧ b < s.disk.numBlocks ∧ a ≠ none
  matched : Matched s
  drained : s.ctl s.curr = .driver .suspend → s.device.status = .idle →
    s.disk.requestQueue = []
  served : .diskDriverTask ∈ tasks s.kernel .diskQueue → s.device.status = .idle →
    inSection (s.ctl s.curr) = false →
    ∀ t b a op p, s.ctl t = .blockOp b a op p → p = .finish ∧ t ∉ tasks s.kernel .diskQueue

/-- No request waits for a driver that is on its way to sleep, or sleeps and is not about to
    be resumed. -/
structure Drained (v : DiskView N) : Prop where
  leaving : ∀ p, v.point .diskDriverTask = some (.drives p) → p = .up ∨ p = .suspend →
    v.device.status = .idle → v.requestQueue = []
  asleep : .diskDriverTask ∈ v.queue → v.device.status = .idle → v.requestQueue = [] ∨
    ∃ t b a op, v.point t = some (.asks b a op .resume)

def insideAt : Option DiskPoint → Bool
  | some (.asks _ _ _ p) => p ≠ .finish
  | some (.drives p) => p ≠ .down
  | none => false

structure Attentive (v v' : DiskView N) : Prop where
  exclusive : ∀ t u, insideAt (v.point t) = true → insideAt (v.point u) = true → t = u
  passes : v.point .diskDriverTask = some (.drives .issue) →
    v'.point .diskDriverTask = some (.drives .up) → v'.device.status = .idle →
    v'.requestQueue = []
  rouses : ∀ t b a op, v.point t = some (.asks b a op .resume) →
    v'.point t = some (.asks b a op .up) → .diskDriverTask ∉ v'.queue

variable {v v' : DiskView N} {e : DiskEvent N}

omit [Fintype N] in
theorem drained_caller (inv : Drained v) (signalled : Signalled v) {t : Tcb N}
    {old : Option DiskPoint} (here : v.point t = old) (other : ∀ p, old ≠ some (.drives p))
    (resumes : ∀ b a op, old ≠ some (.asks b a op .resume)) {new : Option DiskPoint}
    (point : v'.point = Function.update v.point t new) (device : v'.device = v.device)
    (requests : v'.requestQueue = v.requestQueue)
    (queue : .diskDriverTask ∈ v'.queue → .diskDriverTask ∈ v.queue) : Drained v' := by
  obtain ⟨q, drives⟩ := signalled.driver
  have notDriver : .diskDriverTask ≠ t := by
    rintro rfl
    exact other q (here.symm.trans drives)
  refine ⟨fun p at' => ?_, fun mem => ?_⟩
  · rw [point, Function.update_of_ne notDriver] at at'
    rw [device, requests]
    exact inv.leaving p at'
  · rw [device, requests]
    intro idle
    rcases inv.asleep (queue mem) idle with none | ⟨u, b, a, op, asks⟩
    · exact Or.inl none
    · have different : u ≠ t := by
        rintro rfl
        exact resumes b a op (here.symm.trans asks)
      exact Or.inr ⟨u, b, a, op, by rw [point, Function.update_of_ne different]; exact asks⟩

omit [Fintype N] in
theorem drained_driver (inv : Drained v) {old new : DriverPoint}
    (here : v.point .diskDriverTask = some (.drives old))
    (later : new = .up ∨ new = .suspend → old = .up ∨ old = .suspend)
    (point : v'.point = Function.update v.point .diskDriverTask (some (.drives new)))
    (device : v'.device = v.device) (requests : v'.requestQueue = v.requestQueue)
    (queue : .diskDriverTask ∈ v'.queue →
      .diskDriverTask ∈ v.queue ∨ old = .up ∨ old = .suspend) : Drained v' := by
  refine ⟨fun p at' leaves => ?_, fun mem idle => ?_⟩
  · rw [point, Function.update_self] at at'
    cases at'
    rw [device, requests]
    exact inv.leaving old here (later leaves)
  · rw [device] at idle
    rw [requests]
    rcases queue mem with before | leaves
    · rcases inv.asleep before idle with none | ⟨u, b, a, op, asks⟩
      · exact Or.inl none
      · have different : u ≠ .diskDriverTask := by
          rintro rfl
          rw [here] at asks
          cases asks
        exact Or.inr ⟨u, b, a, op, by rw [point, Function.update_of_ne different]; exact asks⟩
    · exact Or.inl (inv.leaving old here leaves idle)

omit [Fintype N] in
theorem drained_issue (alert : Attentive v v')
    (here : v.point .diskDriverTask = some (.drives .issue))
    (point : v'.point = Function.update v.point .diskDriverTask (some (.drives .up))) :
    Drained v' := by
  have up : v'.point .diskDriverTask = some (.drives .up) := by
    rw [point, Function.update_self]
  exact ⟨fun _ _ _ => alert.passes here up, fun _ idle => Or.inl (alert.passes here up idle)⟩

omit [Fintype N] in
theorem drained_step (inv : Drained v) (signalled : Signalled v) (move : DiskMove v e v')
    (calm : DiskProtocol.Calm v e) (alert : Attentive v v') : Drained v' := by
  cases move with
  | outside ram => exact ⟨inv.leaving, inv.asleep⟩
  | call k idle data =>
    exact drained_caller inv signalled idle (by simp) (by simp) rfl rfl rfl id
  | refuse t here =>
    exact drained_caller inv signalled here (by simp) (by simp) rfl rfl rfl id
  | enqueue t tid here =>
    have inside : insideAt (v.point t) = true := by rw [here]; rfl
    obtain ⟨q, drives⟩ := signalled.driver
    have other : .diskDriverTask ≠ t := by
      rintro rfl
      rw [drives] at here
      cases here
    refine ⟨fun p at' leaves => ?_, fun _ _ => Or.inr ⟨t, _, _, _, Function.update_self ..⟩⟩
    -- nobody queues a request while the driver is on its way to sleep
    dsimp only at at'
    rw [Function.update_of_ne other] at at'
    refine absurd (alert.exclusive _ _ ?_ inside) other
    rw [at']
    rcases leaves with rfl | rfl <;> rfl
  | rouse t here queue same =>
    obtain ⟨q, drives⟩ := signalled.driver
    have other : .diskDriverTask ≠ t := by
      rintro rfl
      rw [drives] at here
      cases here
    refine ⟨fun p at' => ?_, fun mem => ?_⟩
    · dsimp only at at'
      rw [Function.update_of_ne other] at at'
      exact inv.leaving p at'
    · exact absurd mem (alert.rouses t _ _ _ here (Function.update_self ..))
  | release t here =>
    exact drained_caller inv signalled here (by simp) (by simp) rfl rfl rfl id
  | suspend t here awake =>
    have other : .diskDriverTask ≠ t := by
      obtain ⟨q, drives⟩ := signalled.driver
      rintro rfl
      rw [drives] at here
      cases here
    refine drained_caller inv signalled here (by simp) (by simp) rfl rfl rfl fun mem => ?_
    exact (List.mem_append.mp mem).resolve_right fun last =>
      other (List.mem_singleton.mp last)
  | finish t here awake =>
    exact drained_caller inv signalled here (by simp) (by simp) rfl rfl rfl id
  | down here => exact drained_driver inv here (by simp) rfl rfl rfl Or.inl
  | wake first rest here set awake waiting =>
    refine drained_driver inv here (by simp) rfl rfl rfl fun mem => Or.inl ?_
    rw [waiting]
    exact List.mem_cons_of_mem _ mem
  | skip here clear => exact drained_driver inv here (by simp) rfl rfl rfl Or.inl
  | issue request rest here free pending => exact drained_issue alert here rfl
  | pass here => exact drained_issue alert here rfl
  | yield here => exact drained_driver inv here (by simp) rfl rfl rfl Or.inl
  | sleep here => exact drained_driver inv here (by simp) rfl rfl rfl fun _ => Or.inr (by simp)
  | complete op busy nodup =>
    refine ⟨fun p at' leaves => ?_, fun mem => absurd mem nodup.not_mem_erase⟩
    have noticed := calm rfl p at'
    rcases leaves with rfl | rfl <;> cases noticed

end Draining

section Tending

structure Tended (s : System N) : Prop where
  conserved : Conserved s
  known : s.device.status ≠ .unknown
  marked : TaskEvents.Marked s
  dozing : TaskEvents.Dozing s.kernel
  atomic : Atomic s
  paired : Paired (diskView s)
  drained : Drained (diskView s)

variable {s s' : System N} {l : Label N}

omit [DecidableEq N] [Fintype N] in
theorem insideAt_inSection {c : Ctl N} (inside : insideAt (diskPoint c) = true) :
    inSection c = true := by
  cases c with
  | blockOp b a op p => cases p <;> first | rfl | cases inside
  | driver p => cases p <;> first | rfl | cases inside
  | _ => cases inside

/-- The driver sleeps in disk_queue exactly when its status says so to the next caller. -/
theorem resume_rouses (c : Conserved s) (dozing : TaskEvents.Dozing s.kernel) {block : Int}
    {buffer : Option Nat} {op : Operation} {malloc : Bool}
    (run : diskBlockOpStep s block buffer op malloc .resume = .ok s') :
    .diskDriverTask ∉ tasks s'.kernel .diskQueue := by
  simp only [diskBlockOpStep] at run
  split at run
  · rename_i suspended
    have alive := suspended_driver_lives c suspended
    obtain ⟨k, resumed, rfl⟩ := map_ok run
    have leaves : tasks k .diskQueue = (tasks s.kernel .diskQueue).erase .diskDriverTask :=
      resume_leaves c.placed alive (by simp) (by simp) resumed
    change .diskDriverTask ∉ tasks k .diskQueue
    rw [leaves]
    exact (c.placed.wellFormed.ring .diskQueue).nodup.not_mem_erase
  · rename_i awake
    cases run
    exact fun mem => awake (dozing _ mem)

theorem issue_drains (paired : Paired (diskView s))
    (fits : s.disk.requestQueue ≠ [] → 0 < toInt s.disk.requestQueue.length)
    (idle : (diskDriverIssue s).device.status = .idle) :
    (diskDriverIssue s).disk.requestQueue = [] := by
  revert idle
  simp only [diskDriverIssue]
  split
  · rename_i free
    split
    · rename_i empty
      exact fun _ => empty
    · rename_i request rest pending
      intro idle
      obtain ⟨k, a, _, _, _, device⟩ :=
        issue_accepted (v := diskView s) paired free.1 pending
      have busy : (diskCmd s.device request.op request.block request.buffer).1.status =
          statusOf k.op := congrArg Device.status device
      exact absurd (busy.symm.trans idle) (statusOf_busy k.op)
  · rename_i passed
    intro idle
    by_contra pending
    exact passed ⟨idle, fits pending⟩

theorem section_moves (atomic : Atomic s) (go : step s l = some (.ok s'))
    {t : Tcb N} (inside : inSection (s.ctl t) = true) (moved : s'.ctl t ≠ s.ctl t) :
    t = s.curr ∧ ∃ m₁ m₂, l = .run m₁ m₂ := by
  have own := atomic.alone t inside
  refine ⟨own.symm, ?_⟩
  cases l with
  | tick =>
    obtain ⟨k, _, rfl⟩ := map_ok (Option.some.inj go)
    exact absurd rfl moved
  | completion => exact absurd (congrFun (completion_effect go).1 t) moved
  | call call' =>
    obtain ⟨_, body, -⟩ := call_runs go
    rw [← own, body] at inside
    cases inside
  | run m₁ m₂ => exact ⟨m₁, m₂, rfl⟩

omit [DecidableEq N] [Fintype N] in
theorem drives_here {p : DriverPoint} {t : Tcb N}
    (here : diskPoint (s.ctl t) = some (.drives p)) : s.ctl t = .driver p := by
  revert here
  cases s.ctl t with
  | driver q => rintro ⟨⟩; rfl
  | _ => intro here; cases here

theorem tended_attentive (inv : Tended s) (go : Operates s l s') (fits : SizeFits s l) :
    Attentive (diskView s) (diskView s') := by
  refine ⟨fun t u first second => ?_, fun here up idle => ?_, fun t b a op here up => ?_⟩
  · rw [← inv.atomic.alone t (insideAt_inSection first)]
    exact inv.atomic.alone u (insideAt_inSection second)
  · have here' := drives_here here
    have moved : s'.ctl .diskDriverTask ≠ s.ctl .diskDriverTask := by
      rw [here', drives_here up]
      simp
    obtain ⟨own, m₁, m₂, rfl⟩ := section_moves inv.atomic go.1
      (by rw [here']; rfl) moved
    rw [own] at here'
    have run := go.1
    simp only [step, advance, here'] at run
    cases run
    rw [SizeFits, here'] at fits
    exact issue_drains inv.paired fits idle
  · have here' := asks_here here
    have moved : s'.ctl t ≠ s.ctl t := by
      rw [here', asks_here up]
      simp
    obtain ⟨own, m₁, m₂, rfl⟩ := section_moves inv.atomic go.1
      (by rw [here']; rfl) moved
    rw [own] at here'
    have run := go.1
    simp only [step, advance, here'] at run
    exact resume_rouses inv.conserved inv.dozing (Option.some.inj run)

theorem tended_step (inv : Tended s) (go : Operates s l s') (whole : Undivided s l)
    (block : ValidBlock s l) (buffer : HasBuffer l) (allocated : Allocated s l)
    (fits : SizeFits s l) : Tended s' := by
  have move := step_moves inv.conserved inv.known go.2 go.1
  have outcome := TaskEvents.step_outcome inv.conserved inv.marked go
  have orderly := undivided_orderly inv.atomic whole block buffer
  have stays : l = .tick → inSection (s.ctl s.curr) = true → s'.curr = s.curr := by
    rintro rfl inside
    exact tick_stays (whole (Or.inl inside)) (Option.some.inj go.1)
  exact ⟨(step_kept inv.conserved go.2 go.1).conserved, move_known move inv.known,
    outcome.marked, outcome.dozing inv.dozing,
    atomic_step inv.atomic inv.conserved inv.known go.2 go.1 stays
      fun event => refuses_eq event allocated,
    paired_step inv.paired move orderly,
    drained_step inv.drained inv.paired.signalled move orderly.calm
      (tended_attentive inv go fits)⟩

theorem fresh_tended (fresh : FreshDisk s) (marked : TaskEvents.Marked s) : Tended s := by
  refine ⟨fresh.conserved, by rw [fresh.status]; simp, marked, ?_, fresh_atomic fresh,
    fresh_paired fresh, ?_, ?_⟩
  · intro t mem
    rw [fresh.queue] at mem
    cases mem
  · exact fun _ _ _ _ => fresh.requestQueue
  · exact fun _ _ => Or.inl fresh.requestQueue

theorem nobody_owed (inv : Paired (diskView s))
    (asleep : .diskDriverTask ∈ tasks s.kernel .diskQueue) (idle : s.device.status = .idle)
    (empty : s.disk.requestQueue = []) : waiters (diskView s) = [] := by
  have clear : (diskView s).signal = 0 := inv.signalled.asleep asleep
  have counted := inv.signalled.counted
  have given : issued (diskView s) = (diskView s).performed.length := by
    rw [issued, if_pos (show (diskView s).device.status = .idle from idle), Nat.add_zero]
  have answered : (diskView s).woken.length = (diskView s).performed.length := by omega
  have queued := inv.queued
  rw [show (diskView s).requestQueue = [] from empty, given, ← answered] at queued
  have none : (diskView s).requests.drop (diskView s).woken.length = [] :=
    List.map_eq_nil_iff.mp queued.symm
  have waiting := inv.inOrder
  rw [owed, none, List.map_nil] at waiting
  exact List.prefix_nil.mp waiting

theorem tended_harmless (inv : Tended s) : Harmless s := by
  have paired := inv.paired
  have asks : ∀ {t b a op p}, s.ctl t = .blockOp b a op p →
      (diskView s).point t = some (.asks b a op p) := by
    intro t b a op p here
    change diskPoint (s.ctl t) = _
    rw [here]
    rfl
  refine ⟨fun t b a op here => paired.valid t b a op _ (asks here),
    ⟨paired.done, paired.woken, paired.signalled.counted, paired.signalled.flag⟩, ?_, ?_⟩
  · intro here idle
    have curr : s.curr = .diskDriverTask := driver_here inv.conserved here
    rw [curr] at here
    refine inv.drained.leaving .suspend ?_ (Or.inr rfl) idle
    change diskPoint (s.ctl .diskDriverTask) = _
    rw [here]
    rfl
  · intro asleep idle outside t b a op p here
    have late : p = .finish := by
      by_contra early
      have inside : inSection (s.ctl t) = true := by
        rw [here]
        cases p <;> first | rfl | exact absurd rfl early
      rw [← inv.atomic.alone t inside, outside] at inside
      cases inside
    refine ⟨late, fun mem => ?_⟩
    have empty : s.disk.requestQueue = [] := by
      refine (inv.drained.asleep asleep idle).resolve_right ?_
      rintro ⟨u, b', a', op', resumes⟩
      have resumes' := asks_here resumes
      have own := inv.atomic.alone u (by rw [resumes']; rfl)
      rw [own, resumes'] at outside
      cases outside
    have waiting : t ∈ waiters (diskView s) :=
      mem_waiters.mpr ⟨mem, caller_not_driver paired.signalled (asks here)⟩
    rw [nobody_owed paired asleep idle empty] at waiting
    cases waiting

end Tending

theorem valid_calls_are_served {s s' : System N} {labels : List (Label N)}
    (fresh : FreshDisk s) (marked : TaskEvents.Marked s)
    (run : Run (fun s l s' => Operates s l s' ∧ Undivided s l ∧ ValidBlock s l ∧ HasBuffer l ∧
      Allocated s l ∧ SizeFits s l) s labels s') : Harmless s' :=
  tended_harmless (run_invariant Tended (fun _ _ _ inv both => tended_step inv both.1 both.2.1
    both.2.2.1 both.2.2.2.1 both.2.2.2.2.1 both.2.2.2.2.2) run (fresh_tended fresh marked))

instance (s : System N) (l : Label N) : Decidable (SizeFits s l) := by
  unfold SizeFits
  generalize s.ctl s.curr = c
  rcases l with _ | _ | _ | _ <;> try infer_instance
  rcases c with _ | _ <;> try infer_instance
  case driver point => rcases point with _ | _ <;> infer_instance

theorem managed_marked : TaskEvents.Marked (managed : System (Fin 1)) := by
  intro t
  revert t
  decide +kernel

def servedRead : List (Label (Fin 1)) :=
  [Label.call (.diskBlockRead 0 (some 0))] ++ List.replicate 14 (Label.run true true) ++
  [Label.completion] ++ List.replicate 9 (Label.run true true)

theorem valid_read_is_served : ∃ s' : System (Fin 1),
    Run (fun s l s' => Operates s l s' ∧ Undivided s l ∧ ValidBlock s l ∧ HasBuffer l ∧
      Allocated s l ∧ SizeFits s l) managed servedRead s' ∧
    .diskDriverTask ∈ tasks s'.kernel .diskQueue ∧ s'.history.woken = [.mainTask] ∧
    Harmless s' := by
  obtain ⟨s', found, facts⟩ := exec_reaches (guardedStep fun s l _ => Permitted s l ∧
      Undivided s l ∧ ValidBlock s l ∧ HasBuffer l ∧ Allocated s l ∧ SizeFits s l)
    managed servedRead (fun s => .diskDriverTask ∈ tasks s.kernel .diskQueue ∧
      s.history.woken = [.mainTask]) (by decide +kernel)
  have run : Run (fun s l s' => Operates s l s' ∧ Undivided s l ∧ ValidBlock s l ∧ HasBuffer l ∧
      Allocated s l ∧ SizeFits s l) managed servedRead s' :=
    run_mono (fun _ _ _ next => ⟨⟨next.1, next.2.1⟩, next.2.2⟩) (exec_guarded found)
  exact ⟨s', run, facts.1, facts.2, valid_calls_are_served managed_fresh managed_marked run⟩

def rejectedRead : List (Label (Fin 1)) :=
  [Label.call (.diskBlockRead 1 (some 0))] ++ List.replicate 14 (Label.run true true)

/-- The driver is asleep again, the disk is idle, the list of requests is empty, and main
    stays in disk_queue. -/
theorem invalid_caller_is_stuck :
    ¬ ∀ (s s' : System (Fin 1)) (labels : List (Label (Fin 1))), FreshDisk s →
      TaskEvents.Marked s → Run (fun s l s' => Operates s l s' ∧ Undivided s l) s labels s' →
      Harmless s' := by
  intro claim
  obtain ⟨s', found, asleep, idle, outside, here, stuck⟩ := exec_reaches
    (guardedStep fun s l _ => Permitted s l ∧ Undivided s l) managed rejectedRead
    (fun s => .diskDriverTask ∈ tasks s.kernel .diskQueue ∧ s.device.status = .idle ∧
      inSection (s.ctl s.curr) = false ∧ s.ctl .mainTask = .blockOp 1 (some 0) .read .finish ∧
      .mainTask ∈ tasks s.kernel .diskQueue) (by decide +kernel)
  have run : Run (fun s l s' => Operates s l s' ∧ Undivided s l) managed rejectedRead s' :=
    run_mono (fun _ _ _ next => ⟨⟨next.1, next.2.1⟩, next.2.2⟩) (exec_guarded found)
  have harmless := claim _ _ _ managed_fresh managed_marked run
  exact (harmless.served asleep idle outside _ _ _ _ _ here).2 stuck

end DiskRejections
