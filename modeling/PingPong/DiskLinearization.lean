import PingPong.DiskGuarantees

/-!
Disk calls that are not interrupted inside their section take effect one after the other, in
the order in which they were made, on an array of blocks.
-/
namespace DiskLinearization
open MachineModel CircularList QueueModel KernelModel KernelEffects TaskPlacement SystemModel
open SystemFrames TransitionRuns TaskConservation DiskProtocol DiskRequests DiskGuarantees
variable {N : Type} [DecidableEq N] [Fintype N]

section Serving

def Serves (s : System N) (l : Label N) (t : Tcb N) : Prop :=
  match l with
  | .completion => s.history.requests[s.history.performed.length]?.map Ticket.task = some t
  | _ => False

/-- Nobody but the disk, for the call it serves, writes to the buffer of a call in progress. -/
def BuffersKept (s : System N) (l : Label N) (s' : System N) : Prop :=
  ∀ t, match s.ctl t with
    | .blockOp _ (some a) _ _ => ¬ Serves s l t → loadBlock s'.ram a = loadBlock s.ram a
    | _ => True

def IsLast (s : System N) (i : Nat) (t : Tcb N) : Prop :=
  ∀ j k, s.history.calls[j]? = some k → k.task = t → j ≤ i

/-- The calls so far, on an array of blocks: which of them the disk has performed and with
    which data, which one is in flight, whom the driver has woken for them, and what a call
    that is back from task_suspend finds. -/
structure Linearized (initial : Int → Block) (s : System N) : Prop where
  performed : ∀ i, i < s.history.performed.length → ∃ k, s.history.calls[i]? = some k ∧
    s.history.performed[i]? = some (outcome initial (s.history.calls.take i) k)
  oneAtATime : s.device.status ≠ .idle → ∃ k,
    s.history.calls[s.history.performed.length]? = some k ∧ InFlight s.device k
  woken : s.history.woken = (s.history.calls.take s.history.woken.length).map Ticket.task
  counted : (s.history.performed.length : Int) = s.history.woken.length + s.disk.signal
  flag : s.disk.signal = 0 ∨ s.disk.signal = 1
  finished : ∀ i k, s.history.calls[i]? = some k → i < s.history.performed.length ∨
    (∃ p, s.ctl k.task = .blockOp k.block k.buffer k.op p) ∧ IsLast s i k.task
  returns : ∀ t b a op, s.ctl t = .blockOp b a op .finish → t ∉ tasks s.kernel .diskQueue →
    ∃ i k, s.history.calls[i]? = some k ∧ k.task = t ∧ ticketOrder k = (b, a, op) ∧
      IsLast s i t ∧ i < s.history.performed.length ∧
      (op = .read → loadBlock s.ram (a.getD 0) = latest initial (s.history.calls.take i) b)

def Newest (v : DiskView N) : Prop := ∀ i k, v.requests[i]? = some k → i ≤ v.ticket k.task

structure Serving (initial : Int → Block) (s : System N) : Prop where
  conserved : Conserved s
  known : s.device.status ≠ .unknown
  atomic : Atomic s
  linear : Linear initial (diskView s)
  newest : Newest (diskView s)

variable {s s' : System N} {l : Label N} {initial : Int → Block}

omit [Fintype N] in
theorem newest_step {v v' : DiskView N} {e : DiskEvent N} (newest : Newest v)
    (move : DiskMove v e v') : Newest v' := by
  cases move with
  | enqueue t tid here =>
    intro i k found
    dsimp only at found ⊢
    rw [Function.update_apply]
    rcases Nat.lt_or_ge i v.requests.length with old | new
    · rw [List.getElem?_append_left old] at found
      split
      · exact Nat.le_of_lt old
      · exact newest i k found
    · have bound := (List.getElem?_eq_some_iff.mp found).1
      rw [List.length_append, List.length_singleton] at bound
      have last : i = v.requests.length := by omega
      subst last
      rw [List.getElem?_append_right (Nat.le_refl _), Nat.sub_self] at found
      cases found
      rw [if_pos rfl]
  | _ => exact newest

omit [DecidableEq N] [Fintype N] in
theorem pending_inSection {c : Ctl N} (pending : pendingAt (diskPoint c) = true) :
    inSection c = true := by
  cases c with
  | blockOp b a op p => cases p <;> first | rfl | cases pending
  | _ => cases pending

theorem serves_ticket {t : Tcb N} (served : Serves s l t) : l = .completion ∧
    ∃ k, (diskView s).requests[(diskView s).performed.length]? = some k ∧ k.task = t := by
  cases l with
  | completion => exact ⟨rfl, Option.map_eq_some_iff.mp served⟩
  | _ => exact absurd served id

theorem asks_here {t : Tcb N} {b : Int} {a : Option Nat} {op : Operation} {p : BlockOpPoint}
    (here : (diskView s).point t = some (.asks b a op p)) : s.ctl t = .blockOp b a op p := by
  have here' : diskPoint (s.ctl t) = some (.asks b a op p) := here
  revert here'
  cases s.ctl t with
  | blockOp b' a' op' p' => rintro ⟨⟩; rfl
  | _ => intro here'; cases here'

/-- While the sections of the calls are not interrupted, nobody can be overtaken. -/
theorem undivided_orderly (atomic : Atomic s) (whole : Undivided s l)
    (block : ValidBlock s l) (buffer : HasBuffer l) :
    Orderly (diskView s) (diskEvent s l) := by
  have alone : ∀ u, pendingAt ((diskView s).point u) = true → s.curr = u := fun u pending =>
    atomic.alone u (pending_inSection pending)
  refine ⟨hears_calm ?_, ?_, ?_, fun k => call_valid block buffer⟩
  · cases l with
    | completion =>
      by_contra deaf
      exact whole (atomic.alone _ (deaf_inSection (by simpa [Hears] using deaf)))
    | _ => trivial
  · intro t event u pending
    obtain ⟨rfl, _⟩ := suspends_eq event
    rw [alone u pending]
  · intro event _ k _
    obtain ⟨_, here⟩ := tests_eq event
    by_contra pending
    have inside : pendingAt ((diskView s).point k.task) = true := by simpa using pending
    have own : pendingAt (diskPoint (s.ctl k.task)) = true := inside
    rw [← alone k.task inside, here] at own
    cases own

omit [DecidableEq N] [Fintype N] in
theorem refuses_eq (event : diskEvent s l = .refuses) (allocated : Allocated s l) : False := by
  cases l with
  | tick => cases event
  | completion => cases event
  | call c => cases c <;> cases event
  | run m₁ m₂ =>
    simp only [diskEvent] at event
    split at event
    · rename_i here
      rw [Allocated, here] at allocated
      rw [if_pos allocated] at event
      cases event
    all_goals cases event

theorem calls_eq {k : Ticket N} (event : diskEvent s l = .calls k)
    (go : step s l = some (.ok s')) : ∃ code, s.ctl s.curr = .body code := by
  cases l with
  | tick => cases event
  | completion => cases event
  | call c =>
    obtain ⟨code, here, -⟩ := call_runs go
    exact ⟨code, here⟩
  | run m₁ m₂ =>
    simp only [diskEvent] at event
    split at event
    · split at event <;> cases event
    all_goals cases event

theorem undivided_undisturbed (atomic : Atomic s) (go : Operates s l s') (whole : Undivided s l)
    (block : ValidBlock s l) (buffer : HasBuffer l) (allocated : Allocated s l)
    (kept : BuffersKept s l s') : Undisturbed (diskView s) (diskEvent s l) (diskView s') := by
  refine ⟨undivided_orderly atomic whole block buffer, fun event => refuses_eq event allocated,
    ?_, ?_⟩
  · intro k event t b a op here
    obtain ⟨code, body⟩ := calls_eq event go.1
    have inside := asks_here here
    rw [← atomic.alone t (by rw [inside]; rfl), body] at inside
    cases inside
  · intro t b a op p here others
    have written := kept t
    rw [asks_here here] at written
    refine written fun served => ?_
    obtain ⟨rfl, k, found, task⟩ := serves_ticket served
    exact others rfl k found task

theorem serving_step (inv : Serving initial s) (go : Operates s l s') (whole : Undivided s l)
    (block : ValidBlock s l) (buffer : HasBuffer l) (allocated : Allocated s l)
    (kept : BuffersKept s l s') : Serving initial s' := by
  have move := step_moves inv.conserved inv.known go.2 go.1
  have stays : l = .tick → inSection (s.ctl s.curr) = true → s'.curr = s.curr := by
    rintro rfl inside
    exact tick_stays (whole (Or.inl inside)) (Option.some.inj go.1)
  exact ⟨(step_kept inv.conserved go.2 go.1).conserved, move_known move inv.known,
    atomic_step inv.atomic inv.conserved inv.known go.2 go.1 stays
      fun event => refuses_eq event allocated,
    linear_step inv.linear move
      (undivided_undisturbed inv.atomic go whole block buffer allocated kept),
    newest_step inv.newest move⟩

theorem fresh_serving (fresh : FreshDisk s) : Serving s.device.file s := by
  refine ⟨fresh.conserved, by rw [fresh.status]; simp, fresh_atomic fresh, fresh_linear fresh, ?_⟩
  intro i k found
  rw [show (diskView s).requests = [] from fresh.requests] at found
  cases found

theorem returned_ticket (inv : Paired (diskView s)) {t : Tcb N} {b : Int} {a : Option Nat}
    {op : Operation} (here : s.ctl t = .blockOp b a op .finish)
    (awake : t ∉ tasks s.kernel .diskQueue) :
    ∃ k, s.history.requests[s.history.ticket t]? = some k ∧ k.task = t ∧
      ticketOrder k = (b, a, op) ∧ s.history.ticket t < s.history.woken.length := by
  have here' : (diskView s).point t = some (.asks b a op .finish) := by
    change diskPoint (s.ctl t) = _
    rw [here]
    rfl
  obtain ⟨k, found, task, order, _⟩ := inv.asks t b a op .finish here' (by simp)
  refine ⟨k, found, task, order, ?_⟩
  by_contra late
  obtain ⟨_, p, at', stands⟩ := inv.own _ k (Nat.le_of_not_lt late) found
  rw [task, here'] at at'
  simp only [Option.some.injEq, DiskPoint.asks.injEq] at at'
  rcases stands with ⟨pending, _⟩ | ⟨_, inside⟩
  · rw [← at'.2.2.2] at pending
    cases pending
  · rw [task] at inside
    exact awake (mem_waiters.mp inside).1

theorem requests_prefix (inv : Linear initial (diskView s)) :
    ∃ later, s.history.calls = s.history.requests ++ later := by
  rcases inv.calls with ⟨_, same⟩ | ⟨t, b, a, op, _, _, same⟩
  · exact ⟨[], same.trans (List.append_nil _).symm⟩
  · exact ⟨_, same⟩

theorem last_call (inv : Linear initial (diskView s)) {i : Nat} {k : Ticket N}
    (found : s.history.calls[i]? = some k) (new : s.history.requests.length ≤ i) :
    s.ctl k.task = .blockOp k.block k.buffer k.op .enqueue ∧
      s.history.calls.length = i + 1 := by
  have bound := (List.getElem?_eq_some_iff.mp found).1
  rcases inv.calls with ⟨_, same⟩ | ⟨t, b, a, op, asks, _, same⟩
  · have same' : s.history.calls = s.history.requests := same
    rw [same'] at bound
    omega
  · have same' : s.history.calls =
        s.history.requests ++ [⟨t, b, a, op, loadBlock s.ram (a.getD 0)⟩] := same
    have last : i = s.history.requests.length := by
      rw [same', List.length_append, List.length_singleton] at bound
      omega
    rw [same', last, List.getElem?_append_right (Nat.le_refl _), Nat.sub_self] at found
    cases found
    refine ⟨asks_here asks, ?_⟩
    rw [same', List.length_append, List.length_singleton, last]

theorem last_request (inv : Serving initial s) {t : Tcb N} {b : Int} {a : Option Nat}
    {op : Operation} {p : BlockOpPoint} (here : s.ctl t = .blockOp b a op p)
    (queued : p ≠ .enqueue) : IsLast s (s.history.ticket t) t := by
  rintro j k found rfl
  rcases Nat.lt_or_ge j s.history.requests.length with old | new
  · obtain ⟨later, calls⟩ := requests_prefix inv.linear
    rw [calls, List.getElem?_append_left old] at found
    exact inv.newest j k found
  · have enqueues := (last_call inv.linear found new).1
    rw [here] at enqueues
    simp only [Ctl.blockOp.injEq] at enqueues
    exact absurd enqueues.2.2.2 queued

theorem serving_linearized (inv : Serving initial s) : Linearized initial s := by
  obtain ⟨later, calls⟩ := requests_prefix inv.linear
  have paired := inv.linear.paired
  have reached : s.history.performed.length ≤ s.history.requests.length := performed_le paired
  have answered : s.history.woken.length ≤ s.history.performed.length := woken_le paired
  have call : ∀ {i : Nat} {k : Ticket N}, s.history.requests[i]? = some k →
      s.history.calls[i]? = some k := by
    intro i k found
    rw [calls,
      List.getElem?_append_left (List.getElem?_eq_some_iff.mp found).1]
    exact found
  have before : ∀ {i : Nat}, i ≤ s.history.requests.length →
      s.history.calls.take i = s.history.requests.take i := by
    intro i low
    rw [calls]
    exact List.take_append_of_le_length low
  refine ⟨?_, ?_, ?_, paired.signalled.counted, paired.signalled.flag, ?_, ?_⟩
  · intro i low
    have found := List.getElem?_eq_getElem (Nat.lt_of_lt_of_le low reached)
    rw [before (by omega)]
    exact ⟨_, call found, inv.linear.results i _ low found⟩
  · intro busy
    obtain ⟨k, found, flies⟩ := paired.flight busy
    exact ⟨k, call found, flies⟩
  · rw [before (by omega)]
    exact paired.woken
  · intro i k found
    rcases Nat.lt_or_ge i s.history.performed.length with done | early
    · exact Or.inl done
    · right
      rcases Nat.lt_or_ge i s.history.requests.length with old | new
      · have found' : s.history.requests[i]? = some k := by
          rw [calls, List.getElem?_append_left old] at found
          exact found
        obtain ⟨own, p, at', stands⟩ := paired.own i k (answered.trans early) found'
        have queued : p ≠ .enqueue := by
          rintro rfl
          rcases stands with ⟨pending, _⟩ | ⟨finished, _⟩
          · cases pending
          · cases finished
        refine ⟨⟨p, asks_here at'⟩, ?_⟩
        rw [← own]
        exact last_request inv (asks_here at') queued
      · obtain ⟨enqueues, last⟩ := last_call inv.linear found new
        refine ⟨⟨_, enqueues⟩, fun j k' found' _ => ?_⟩
        have bound := (List.getElem?_eq_some_iff.mp found').1
        omega
  · intro t b a op here awake
    obtain ⟨k, found, task, order, low⟩ := returned_ticket paired here awake
    refine ⟨s.history.ticket t, k, call found, task, order, last_request inv here (by simp),
      by omega, fun read => ?_⟩
    have here' : (diskView s).point t = some (.asks b a op .finish) := by
      change diskPoint (s.ctl t) = _
      rw [here]
      rfl
    obtain ⟨a', rfl⟩ := Option.ne_none_iff_exists'.mp (paired.valid t b a op _ here').2.2
    rw [before (by omega)]
    exact (inv.linear.buffers t b a' op _ k here' (by simp) found).2
      (Nat.lt_of_lt_of_le low answered) read

end Serving

theorem disk_calls_are_linearized {s s' : System N} {labels : List (Label N)}
    (fresh : FreshDisk s)
    (run : Run (fun s l s' => Operates s l s' ∧ Undivided s l ∧ ValidBlock s l ∧ HasBuffer l ∧
      Allocated s l ∧ BuffersKept s l s') s labels s') : Linearized s.device.file s' :=
  serving_linearized (run_invariant (Serving s.device.file)
    (fun _ _ _ inv both => serving_step inv both.1 both.2.1 both.2.2.1 both.2.2.2.1
      both.2.2.2.2.1 both.2.2.2.2.2) run (fresh_serving fresh))

instance (s : System N) (l : Label N) (t : Tcb N) : Decidable (Serves s l t) := by
  unfold Serves
  rcases l with _ | _ | _ | _ <;> infer_instance

instance (s : System N) (l : Label N) (s' : System N) : Decidable (BuffersKept s l s') := by
  unfold BuffersKept
  have each : ∀ t, Decidable (match s.ctl t with
      | .blockOp _ (some a) _ _ => ¬ Serves s l t → loadBlock s'.ram a = loadBlock s.ram a
      | _ => True) := fun t => by
    split <;> infer_instance
  infer_instance

def writeAndRead : List (Label (Fin 1)) :=
  [Label.call (.store 0 7), .call (.diskBlockWrite 0 (some 0))] ++
  List.replicate 15 (Label.run true true) ++ [Label.completion] ++
  List.replicate 14 (Label.run true true) ++ [Label.call (.diskBlockRead 0 (some 64))] ++
  List.replicate 14 (Label.run true true) ++ [Label.completion] ++
  List.replicate 16 (Label.run true true)

theorem byte_is_read_back : ∃ s' : System (Fin 1),
    Run (fun s l s' => Operates s l s' ∧ Undivided s l ∧ ValidBlock s l ∧ HasBuffer l ∧
      Allocated s l ∧ BuffersKept s l s') managed writeAndRead s' ∧
    s'.ram 64 = 7 ∧ s'.history.woken = [.mainTask, .mainTask] ∧
    Linearized (managed : System (Fin 1)).device.file s' := by
  obtain ⟨s', found, facts⟩ := exec_reaches (guardedStep fun s l s' => Permitted s l ∧
      Undivided s l ∧ ValidBlock s l ∧ HasBuffer l ∧ Allocated s l ∧ BuffersKept s l s')
    managed writeAndRead
    (fun s => s.ram 64 = 7 ∧ s.history.woken = [.mainTask, .mainTask]) (by decide +kernel)
  have run : Run (fun s l s' => Operates s l s' ∧ Undivided s l ∧ ValidBlock s l ∧ HasBuffer l ∧
      Allocated s l ∧ BuffersKept s l s') managed writeAndRead s' :=
    run_mono (fun _ _ _ next => ⟨⟨next.1, next.2.1⟩, next.2.2⟩) (exec_guarded found)
  exact ⟨s', run, facts.1, facts.2, disk_calls_are_linearized managed_fresh run⟩

theorem unallocated_call_returns :
    ¬ ∀ (s s' : System (Fin 1)) (labels : List (Label (Fin 1))), FreshDisk s →
      Run (fun s l s' => Operates s l s' ∧ Undivided s l ∧ ValidBlock s l ∧ HasBuffer l ∧
        BuffersKept s l s') s labels s' → Linearized s.device.file s' := by
  intro claim
  obtain ⟨s', found, calls, performed, body⟩ := exec_reaches (guardedStep fun s l s' =>
      Permitted s l ∧ Undivided s l ∧ ValidBlock s l ∧ HasBuffer l ∧ BuffersKept s l s')
    (managed : System (Fin 1)) [.call (.diskBlockRead 0 (some 0)), .run false true]
    (fun s => s.history.calls.map Ticket.task = [.mainTask] ∧ s.history.performed = [] ∧
      s.ctl .mainTask = .body (-1)) (by decide +kernel)
  have run : Run (fun s l s' => Operates s l s' ∧ Undivided s l ∧ ValidBlock s l ∧ HasBuffer l ∧
      BuffersKept s l s') managed _ s' :=
    run_mono (fun _ _ _ next => ⟨⟨next.1, next.2.1⟩, next.2.2⟩) (exec_guarded found)
  obtain ⟨k, same, task⟩ := List.map_eq_singleton_iff.mp calls
  rcases (claim _ _ _ managed_fresh run).finished 0 k (by rw [same]; rfl) with low | ⟨⟨p, here⟩, _⟩
  · rw [performed] at low
    cases low
  · rw [task, body] at here
    cases here

end DiskLinearization
