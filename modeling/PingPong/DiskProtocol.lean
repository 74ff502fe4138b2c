import PingPong.SystemModel

/-! The disk manager as its callers see it: requests go through one list to the driver and
   from there to the device, while the callers and the driver share another queue, whose
   first task is woken for each completion the driver notices. -/
namespace DiskProtocol
open MachineModel KernelModel SystemModel
variable {N : Type} [DecidableEq N]

/-- Where a task stands in a disk call, or the driver in its loop. -/
inductive DiskPoint where
  | asks (block : Int) (buffer : Option Nat) (op : Operation) (point : BlockOpPoint)
  | drives (point : DriverPoint)
  deriving DecidableEq

@[ext] structure DiskView (N : Type) where
  point : Tcb N → Option DiskPoint
  queue : List (Tcb N)
  requestQueue : List Request
  signal : Int
  numBlocks : Int
  device : Device
  ram : Nat → UInt8
  calls : List (Ticket N)
  requests : List (Ticket N)
  ticket : Tcb N → Nat
  performed : List (Operation × Int × Block)
  signalsSeen : Nat
  woken : List (Tcb N)

inductive DiskEvent (N : Type) where
  | outside
  | calls (k : Ticket N)
  | refuses
  | proceeds
  | suspends (t : Tcb N)
  | tests
  | completes

def statusOf : Operation → DiskStatus
  | .read => .read
  | .write => .write

theorem statusOf_busy (op : Operation) : statusOf op ≠ .idle := by
  cases op <;> simp [statusOf]

theorem statusOf_injective : Function.Injective statusOf := by
  intro op op' same
  cases op <;> cases op' <;> first | rfl | cases same

/-- What the operation in flight moves between its buffer and its block. -/
def transfer (v : DiskView N) : Operation → Block
  | .read => v.device.file v.device.nextBlock
  | .write => loadBlock v.ram v.device.buffer

def completed (v : DiskView N) (op : Operation) : DiskView N :=
  { v with
    ram := match op with
      | .read => storeBlock v.ram v.device.buffer (transfer v .read)
      | .write => v.ram
    device := { v.device with
      file := match op with
        | .read => v.device.file
        | .write => Function.update v.device.file v.device.nextBlock (transfer v .write)
      prevBlock := v.device.nextBlock
      status := .idle }
    performed := v.performed ++ [(op, v.device.nextBlock, transfer v op)]
    signal := 1
    queue := v.queue.erase .diskDriverTask }

def drive (v : DiskView N) (p : DriverPoint) : DiskView N :=
  { v with point := Function.update v.point .diskDriverTask (some (.drives p)) }

inductive DiskMove (v : DiskView N) : DiskEvent N → DiskView N → Prop where
  | outside (ram : Nat → UInt8) : DiskMove v .outside { v with ram := ram }
  | call (k : Ticket N) (idle : v.point k.task = none)
      (data : k.data = loadBlock v.ram (k.buffer.getD 0)) :
      DiskMove v (.calls k) { v with
        point := Function.update v.point k.task (some (.asks k.block k.buffer k.op .enqueue))
        calls := v.calls ++ [k] }
  | refuse (t : Tcb N) {b : Int} {a : Option Nat} {op : Operation}
      (here : v.point t = some (.asks b a op .enqueue)) :
      DiskMove v .refuses { v with point := Function.update v.point t none }
  | enqueue (t : Tcb N) (tid : Int) {b : Int} {a : Option Nat} {op : Operation}
      (here : v.point t = some (.asks b a op .enqueue)) :
      DiskMove v .proceeds { v with
        point := Function.update v.point t (some (.asks b a op .resume))
        requestQueue := v.requestQueue ++ [⟨tid, b, a, op⟩]
        requests := v.requests ++ [⟨t, b, a, op, loadBlock v.ram (a.getD 0)⟩]
        ticket := Function.update v.ticket t v.requests.length }
  | rouse (t : Tcb N) {b : Int} {a : Option Nat} {op : Operation}
      (here : v.point t = some (.asks b a op .resume)) (queue : List (Tcb N))
      (same : queue = v.queue ∨ queue = v.queue.erase .diskDriverTask) :
      DiskMove v .proceeds { v with
        point := Function.update v.point t (some (.asks b a op .up))
        queue := queue }
  | release (t : Tcb N) {b : Int} {a : Option Nat} {op : Operation}
      (here : v.point t = some (.asks b a op .up)) :
      DiskMove v .proceeds { v with
        point := Function.update v.point t (some (.asks b a op .suspend)) }
  | suspend (t : Tcb N) {b : Int} {a : Option Nat} {op : Operation}
      (here : v.point t = some (.asks b a op .suspend)) (awake : t ∉ v.queue) :
      DiskMove v (.suspends t) { v with
        point := Function.update v.point t (some (.asks b a op .finish))
        queue := v.queue ++ [t] }
  | finish (t : Tcb N) {b : Int} {a : Option Nat} {op : Operation}
      (here : v.point t = some (.asks b a op .finish)) (awake : t ∉ v.queue) :
      DiskMove v .proceeds { v with point := Function.update v.point t none }
  | down (here : v.point .diskDriverTask = some (.drives .down)) :
      DiskMove v .proceeds (drive v .test)
  | wake (first : Tcb N) (rest : List (Tcb N))
      (here : v.point .diskDriverTask = some (.drives .test)) (set : v.signal ≠ 0)
      (awake : .diskDriverTask ∉ v.queue) (waiting : v.queue = first :: rest) :
      DiskMove v .tests { drive v .issue with
        signal := 0, queue := rest, signalsSeen := v.performed.length
        woken := v.woken ++ [first] }
  | skip (here : v.point .diskDriverTask = some (.drives .test)) (clear : v.signal = 0) :
      DiskMove v .tests { drive v .issue with signalsSeen := v.performed.length }
  | issue (request : Request) (rest : List Request)
      (here : v.point .diskDriverTask = some (.drives .issue)) (free : v.device.status = .idle)
      (pending : v.requestQueue = request :: rest) :
      DiskMove v .proceeds { drive v .up with
        requestQueue := rest
        device := (diskCmd v.device request.op request.block request.buffer).1 }
  | pass (here : v.point .diskDriverTask = some (.drives .issue)) :
      DiskMove v .proceeds (drive v .up)
  | yield (here : v.point .diskDriverTask = some (.drives .up)) :
      DiskMove v .proceeds (drive v .suspend)
  | sleep (here : v.point .diskDriverTask = some (.drives .suspend)) :
      DiskMove v .proceeds { drive v .down with queue := v.queue ++ [.diskDriverTask] }
  | complete (op : Operation) (busy : v.device.status = statusOf op) (nodup : v.queue.Nodup) :
      DiskMove v .completes (completed v op)

section Signals

def afterTest : DriverPoint → Bool
  | .issue | .up | .suspend => true
  | _ => false

/-- Every completion has been answered by a wake-up, or the signal is set and the driver will look
    at it. -/
structure Signalled (v : DiskView N) : Prop where
  driver : ∃ p, v.point .diskDriverTask = some (.drives p)
  flag : v.signal = 0 ∨ v.signal = 1
  counted : (v.performed.length : Int) = v.woken.length + v.signal
  flight : v.device.status ≠ .idle → v.signal = 0
  tested : ∀ p, v.point .diskDriverTask = some (.drives p) → afterTest p = true → v.signal = 0
  asleep : .diskDriverTask ∈ v.queue → v.signal = 0
  seen : v.woken.length = v.signalsSeen

def Calm (v : DiskView N) (e : DiskEvent N) : Prop :=
  e = .completes → ∀ p, v.point .diskDriverTask = some (.drives p) → afterTest p = false

variable {v v' : DiskView N}

theorem signalled_other (inv : Signalled v) {t : Tcb N} {old : Option DiskPoint}
    (here : v.point t = old) (other : ∀ p, old ≠ some (.drives p)) {new : Option DiskPoint}
    (point : v'.point = Function.update v.point t new) (signal : v'.signal = v.signal)
    (performed : v'.performed = v.performed) (woken : v'.woken = v.woken)
    (seen : v'.signalsSeen = v.signalsSeen) (device : v'.device = v.device)
    (queue : .diskDriverTask ∈ v'.queue → .diskDriverTask ∈ v.queue ∨ .diskDriverTask = t) :
    Signalled v' := by
  obtain ⟨q, drives⟩ := inv.driver
  have notDriver : .diskDriverTask ≠ t := by
    rintro rfl
    exact other q (here.symm.trans drives)
  have same : v'.point .diskDriverTask = v.point .diskDriverTask := by
    rw [point, Function.update_of_ne notDriver]
  refine ⟨⟨q, same.trans drives⟩, ?_, ?_, ?_, ?_, ?_, ?_⟩
  · rw [signal]; exact inv.flag
  · rw [performed, woken, signal]; exact inv.counted
  · rw [device, signal]; exact inv.flight
  · rw [same, signal]; exact inv.tested
  · intro mem
    rw [signal]
    exact inv.asleep ((queue mem).resolve_right notDriver)
  · rw [woken, seen]; exact inv.seen

theorem signalled_drive (inv : Signalled v) {old new : DriverPoint}
    (here : v.point .diskDriverTask = some (.drives old))
    (later : afterTest new = true → afterTest old = true)
    (point : v'.point = Function.update v.point .diskDriverTask (some (.drives new)))
    (signal : v'.signal = v.signal) (performed : v'.performed = v.performed)
    (woken : v'.woken = v.woken) (seen : v'.signalsSeen = v.signalsSeen)
    (device : v'.device.status ≠ .idle → v.device.status ≠ .idle ∨ v.signal = 0)
    (queue : .diskDriverTask ∈ v'.queue → .diskDriverTask ∈ v.queue ∨ v.signal = 0) :
    Signalled v' := by
  refine ⟨⟨new, by rw [point, Function.update_self]⟩, ?_, ?_, ?_, ?_, ?_, ?_⟩
  · rw [signal]; exact inv.flag
  · rw [performed, woken, signal]; exact inv.counted
  · intro busy
    rw [signal]
    exact (device busy).elim inv.flight id
  · intro p at' after
    rw [point, Function.update_self] at at'
    cases at'
    rw [signal]
    exact inv.tested old here (later after)
  · intro mem
    rw [signal]
    exact (queue mem).elim inv.asleep id
  · rw [woken, seen]; exact inv.seen

theorem signalled_step (inv : Signalled v) {e : DiskEvent N} (move : DiskMove v e v')
    (calm : Calm v e) : Signalled v' := by
  cases move with
  | outside ram =>
    exact ⟨inv.driver, inv.flag, inv.counted, inv.flight, inv.tested, inv.asleep, inv.seen⟩
  | call k idle data =>
    exact signalled_other inv idle (by simp) rfl rfl rfl rfl rfl rfl Or.inl
  | refuse t here => exact signalled_other inv here (by simp) rfl rfl rfl rfl rfl rfl Or.inl
  | enqueue t tid here =>
    exact signalled_other inv here (by simp) rfl rfl rfl rfl rfl rfl Or.inl
  | rouse t here queue same =>
    refine signalled_other inv here (by simp) rfl rfl rfl rfl rfl rfl fun mem => Or.inl ?_
    rcases same with rfl | rfl
    · exact mem
    · exact List.mem_of_mem_erase mem
  | release t here => exact signalled_other inv here (by simp) rfl rfl rfl rfl rfl rfl Or.inl
  | suspend t here awake =>
    refine signalled_other inv here (by simp) rfl rfl rfl rfl rfl rfl fun mem => ?_
    simpa using mem
  | finish t here awake =>
    exact signalled_other inv here (by simp) rfl rfl rfl rfl rfl rfl Or.inl
  | down here =>
    exact signalled_drive inv here (by simp [afterTest]) rfl rfl rfl rfl rfl Or.inl Or.inl
  | wake first rest here set awake waiting =>
    have one := inv.flag.resolve_left set
    have counted := inv.counted
    have answered : (v.woken ++ [first]).length = v.performed.length := by
      rw [List.length_append, List.length_singleton]
      omega
    refine ⟨⟨.issue, by simp [drive]⟩, Or.inl rfl, ?_, fun _ => rfl, fun _ _ _ => rfl,
      fun _ => rfl, answered⟩
    change (v.performed.length : Int) = (v.woken ++ [first]).length + 0
    omega
  | skip here clear =>
    have counted := inv.counted
    refine ⟨⟨.issue, by simp [drive]⟩, inv.flag, inv.counted, inv.flight, fun _ _ _ => clear,
      inv.asleep, ?_⟩
    change v.woken.length = v.performed.length
    omega
  | issue request rest here free pending =>
    have clear := inv.tested _ here rfl
    exact signalled_drive inv here (fun _ => rfl) rfl rfl rfl rfl rfl (fun _ => Or.inr clear) Or.inl
  | pass here =>
    exact signalled_drive inv here (fun _ => rfl) rfl rfl rfl rfl rfl Or.inl Or.inl
  | yield here =>
    exact signalled_drive inv here (fun _ => rfl) rfl rfl rfl rfl rfl Or.inl Or.inl
  | sleep here =>
    have clear := inv.tested _ here rfl
    exact signalled_drive inv here (by simp [afterTest]) rfl rfl rfl rfl rfl Or.inl
      fun _ => Or.inr clear
  | complete op busy nodup =>
    have inFlight : v.device.status ≠ .idle := by rw [busy]; exact statusOf_busy op
    have clear := inv.flight inFlight
    have counted := inv.counted
    have noticed : ∀ p, v.point .diskDriverTask = some (.drives p) → afterTest p = false :=
      calm rfl
    refine ⟨inv.driver, Or.inr rfl, ?_, fun on => absurd rfl on, ?_, ?_, inv.seen⟩
    · simp only [completed, List.length_append, List.length_singleton]
      push_cast
      omega
    · intro p here after
      rw [noticed p here] at after
      cases after
    · exact fun mem => absurd mem nodup.not_mem_erase

theorem move_known {e : DiskEvent N} (move : DiskMove v e v')
    (known : v.device.status ≠ .unknown) : v'.device.status ≠ .unknown := by
  cases move with
  | issue request rest here free pending =>
    change (diskCmd v.device request.op request.block request.buffer).1.status ≠ _
    unfold diskCmd
    split
    · exact known
    · split
      · exact known
      · split
        · exact known
        · cases request.op <;> simp
  | complete op busy nodup => simp [completed]
  | _ => exact known

end Signals

section Pairing

/-- 0 <= block < num_blocks, and a buffer. -/
def Valid (v : DiskView N) (block : Int) (buffer : Option Nat) : Prop :=
  0 ≤ block ∧ block < v.numBlocks ∧ buffer ≠ none

def waiters (v : DiskView N) : List (Tcb N) := v.queue.filter (· ≠ .diskDriverTask)

/-- The callers that the driver has still to wake, in the order of their requests. -/
def owed (v : DiskView N) : List (Tcb N) := (v.requests.drop v.woken.length).map Ticket.task

def issued (v : DiskView N) : Nat :=
  v.performed.length + if v.device.status = .idle then 0 else 1

def isPending : BlockOpPoint → Bool
  | .resume | .up | .suspend => true
  | _ => false

def Awaits (v : DiskView N) (k : Ticket N) : Prop :=
  ∃ p, v.point k.task = some (.asks k.block k.buffer k.op p) ∧
    (isPending p = true ∧ k.task ∉ waiters v ∨ p = .finish ∧ k.task ∈ waiters v)

def ticketOrder (k : Ticket N) : Int × Option Nat × Operation := (k.block, k.buffer, k.op)

def requestOrder (r : Request) : Int × Option Nat × Operation := (r.block, r.buffer, r.op)

def InFlight (d : Device) (k : Ticket N) : Prop :=
  k.block = d.nextBlock ∧ k.buffer = some d.buffer ∧ statusOf k.op = d.status

/-- The waiting callers stand in the order of their requests. -/
structure Paired (v : DiskView N) : Prop where
  signalled : Signalled v
  blocks : v.device.numblocks = v.numBlocks
  valid : ∀ t b a op p, v.point t = some (.asks b a op p) → Valid v b a
  tickets : ∀ k ∈ v.requests, Valid v k.block k.buffer
  queued : v.requestQueue.map requestOrder = (v.requests.drop (issued v)).map ticketOrder
  flight : v.device.status ≠ .idle →
    ∃ k, v.requests[v.performed.length]? = some k ∧ InFlight v.device k
  done : v.performed.map (fun x => (x.1, x.2.1)) =
    (v.requests.take v.performed.length).map fun k => (k.op, k.block)
  woken : v.woken = (v.requests.take v.woken.length).map Ticket.task
  own : ∀ i k, v.woken.length ≤ i → v.requests[i]? = some k →
    v.ticket k.task = i ∧ Awaits v k
  asks : ∀ t b a op p, v.point t = some (.asks b a op p) → p ≠ .enqueue →
    ∃ k, v.requests[v.ticket t]? = some k ∧ k.task = t ∧ ticketOrder k = (b, a, op) ∧
      (v.ticket t < v.woken.length → p = .finish ∧ t ∉ waiters v)
  inOrder : waiters v <+: owed v

def pendingAt : Option DiskPoint → Bool
  | some (.asks _ _ _ p) => isPending p
  | _ => false

/-- No caller whose request is older is on its way into disk_queue. -/
def First (v : DiskView N) (t : Tcb N) : Prop :=
  ∀ u, pendingAt (v.point u) = true → v.ticket t ≤ v.ticket u

/-- The caller whose request was completed last is no longer on its way into disk_queue. -/
def Settled (v : DiskView N) : Prop :=
  ∀ k ∈ v.requests[v.performed.length - 1]?, pendingAt (v.point k.task) = false

structure Orderly (v : DiskView N) (e : DiskEvent N) : Prop where
  calm : Calm v e
  first : ∀ t, e = .suspends t → First v t
  settled : e = .tests → v.signal ≠ 0 → Settled v
  valid : ∀ k, e = .calls k → Valid v k.block k.buffer

variable {v v' : DiskView N}

theorem performed_le (inv : Paired v) : v.performed.length ≤ v.requests.length := by
  have lengths := congrArg List.length inv.done
  rw [List.length_map, List.length_map, List.length_take] at lengths
  omega

theorem woken_le (inv : Paired v) : v.woken.length ≤ v.performed.length := by
  have counted := inv.signalled.counted
  rcases inv.signalled.flag with clear | set <;> omega

theorem issued_le (inv : Paired v) : issued v ≤ v.requests.length := by
  have reached := performed_le inv
  unfold issued
  split
  · omega
  · rename_i busy
    obtain ⟨k, found, _⟩ := inv.flight busy
    have := (List.getElem?_eq_some_iff.mp found).1
    omega

theorem mem_waiters {t : Tcb N} : t ∈ waiters v ↔ t ∈ v.queue ∧ t ≠ .diskDriverTask := by
  simp [waiters]

theorem waiters_awake (awake : .diskDriverTask ∉ v.queue) : waiters v = v.queue := by
  refine List.filter_eq_self.mpr fun t mem => ?_
  simp only [ne_eq, decide_not, Bool.not_eq_eq_eq_not, Bool.not_true, decide_eq_false_iff_not]
  rintro rfl
  exact awake mem

omit [DecidableEq N] in
theorem caller_not_driver (inv : Signalled v) {t : Tcb N} {b : Int} {a : Option Nat}
    {op : Operation} {p : BlockOpPoint} (here : v.point t = some (.asks b a op p)) :
    t ≠ .diskDriverTask := by
  obtain ⟨q, drives⟩ := inv.driver
  rintro rfl
  rw [drives] at here
  cases here

omit [DecidableEq N] in
theorem owed_some {i : Nat} {t : Tcb N} :
    (owed v)[i]? = some t ↔ ∃ k, v.requests[v.woken.length + i]? = some k ∧ k.task = t := by
  rw [owed, List.getElem?_map, List.getElem?_drop, Option.map_eq_some_iff]

theorem prefix_snoc {α : Type} {l m : List α} {x : α} (pre : l <+: m)
    (next : m[l.length]? = some x) : l ++ [x] <+: m := by
  obtain ⟨rest, rfl⟩ := pre
  rw [List.getElem?_append_right (Nat.le_refl _), Nat.sub_self] at next
  cases rest with
  | nil => cases next
  | cons y rest =>
    cases next
    exact ⟨rest, by simp⟩

/-- The caller whose request is completed is the first in disk_queue. -/
theorem paired_head (inv : Paired v) (set : v.signal ≠ 0) (settled : Settled v) :
    ∃ k rest, v.requests[v.woken.length]? = some k ∧ waiters v = k.task :: rest := by
  have one := inv.signalled.flag.resolve_left set
  have counted := inv.signalled.counted
  have reached := performed_le inv
  have last : v.performed.length - 1 = v.woken.length := by omega
  have found := List.getElem?_eq_getElem (l := v.requests) (i := v.woken.length) (by omega)
  generalize v.requests[v.woken.length] = k at found
  obtain ⟨_, p, here, stands⟩ := inv.own _ k (Nat.le_refl _) found
  have arrived : isPending p = false := by
    have := settled k (by rw [last]; exact found)
    rwa [here] at this
  obtain ⟨_, mem⟩ := stands.resolve_left fun both => by rw [arrived] at both; cases both.1
  obtain ⟨rest, whole⟩ := inv.inOrder
  have first : (owed v)[0]? = some k.task := owed_some.mpr ⟨k, found, rfl⟩
  cases waiting : waiters v with
  | nil => rw [waiting] at mem; cases mem
  | cons t others =>
    rw [← whole, waiting] at first
    cases first
    exact ⟨k, others, found, rfl⟩

structure SameWork (v v' : DiskView N) : Prop where
  waiters : waiters v' = waiters v
  requestQueue : v'.requestQueue = v.requestQueue
  numBlocks : v'.numBlocks = v.numBlocks
  device : v'.device = v.device
  requests : v'.requests = v.requests
  ticket : v'.ticket = v.ticket
  performed : v'.performed = v.performed
  woken : v'.woken = v.woken

theorem paired_point (inv : Paired v) (signalled : Signalled v') {t : Tcb N}
    {old new : Option DiskPoint} (here : v.point t = old)
    (point : v'.point = Function.update v.point t new) (same : SameWork v v')
    (valid : ∀ b a op p, new = some (.asks b a op p) → Valid v b a)
    (stays : ∀ b a op p, old = some (.asks b a op p) → isPending p = true →
      ∃ q, new = some (.asks b a op q) ∧ isPending q = true)
    (leaves : ∀ b a op, old = some (.asks b a op .finish) → t ∉ waiters v)
    (comes : ∀ b a op p, new = some (.asks b a op p) → p ≠ .enqueue →
      ∃ q, old = some (.asks b a op q) ∧ isPending q = true) : Paired v' := by
  subst here
  have sameIssued : issued v' = issued v := by rw [issued, issued, same.performed, same.device]
  refine ⟨signalled, ?_, ?_, ?_, ?_, ?_, ?_, ?_, ?_, ?_, ?_⟩
  · rw [same.device, same.numBlocks]; exact inv.blocks
  · intro u b a op p at'
    rw [Valid, same.numBlocks]
    rw [point, Function.update_apply] at at'
    split at at'
    · exact valid b a op p at'
    · exact inv.valid u b a op p at'
  · intro k mem
    rw [Valid, same.numBlocks]
    rw [same.requests] at mem
    exact inv.tickets k mem
  · rw [same.requestQueue, same.requests, sameIssued]; exact inv.queued
  · rw [same.device, same.requests, same.performed]; exact inv.flight
  · rw [same.performed, same.requests]; exact inv.done
  · rw [same.woken, same.requests]; exact inv.woken
  · intro i k low found
    rw [same.woken] at low
    rw [same.requests] at found
    obtain ⟨own, p, at', stands⟩ := inv.own i k low found
    refine ⟨by rw [same.ticket]; exact own, ?_⟩
    rw [Awaits, same.waiters, point]
    by_cases mine : k.task = t
    · rcases stands with ⟨pending, out⟩ | ⟨rfl, inside⟩
      · obtain ⟨q, moved, still⟩ := stays _ _ _ p (by rw [← mine]; exact at') pending
        exact ⟨q, by rw [mine, Function.update_self]; exact moved, Or.inl ⟨still, out⟩⟩
      · exact absurd (mine ▸ inside) (leaves _ _ _ (by rw [← mine]; exact at'))
    · exact ⟨p, by rw [Function.update_of_ne mine]; exact at', stands⟩
  · intro u b a op p at' notFirst
    rw [same.requests, same.ticket, same.woken, same.waiters]
    rw [point, Function.update_apply] at at'
    split at at'
    · rename_i mine
      subst mine
      obtain ⟨q, before, pending⟩ := comes b a op p at' notFirst
      obtain ⟨k, found, task, order, woken⟩ := inv.asks u b a op q before (by
        rintro rfl; cases pending)
      refine ⟨k, found, task, order, fun early => ?_⟩
      rw [(woken early).1] at pending
      cases pending
    · exact inv.asks u b a op p at' notFirst
  · rw [owed, same.waiters, same.requests, same.woken]; exact inv.inOrder

theorem paired_drive (inv : Paired v) (signalled : Signalled v') {old new : DriverPoint}
    (here : v.point .diskDriverTask = some (.drives old))
    (point : v'.point = Function.update v.point .diskDriverTask (some (.drives new)))
    (same : SameWork v v') : Paired v' :=
  paired_point inv signalled here point same (by simp) (by simp) (by simp) (by simp)

theorem waiters_erase :
    (v.queue.erase .diskDriverTask).filter (· ≠ .diskDriverTask) = waiters v := by
  rw [waiters]
  induction v.queue with
  | nil => rfl
  | cons t rest ih =>
    rw [List.erase_cons]
    split
    · rename_i same
      rw [beq_iff_eq] at same
      rw [List.filter_cons_of_neg (by simp [same])]
    · rw [List.filter_cons, List.filter_cons, ih]

theorem paired_enqueue (inv : Paired v) (t : Tcb N) (tid : Int) {b : Int} {a : Option Nat}
    {op : Operation} (here : v.point t = some (.asks b a op .enqueue)) (data : Block)
    (signalled : Signalled v')
    (step : v' = { v with
      point := Function.update v.point t (some (.asks b a op .resume))
      requestQueue := v.requestQueue ++ [⟨tid, b, a, op⟩]
      requests := v.requests ++ [⟨t, b, a, op, data⟩]
      ticket := Function.update v.ticket t v.requests.length }) : Paired v' := by
  subst step
  have reached := performed_le inv
  have answered := woken_le inv
  have given := issued_le inv
  have shape := inv.valid t b a op _ here
  have notMine : ∀ k, Awaits v k → k.task ≠ t := by
    rintro k ⟨p, at', stands⟩ rfl
    rw [here] at at'
    cases at'
    rcases stands with ⟨pending, _⟩ | ⟨finished, _⟩
    · cases pending
    · cases finished
  have early : ∀ {i}, i < v.requests.length →
      (v.requests ++ [(⟨t, b, a, op, data⟩ : Ticket N)])[i]? = v.requests[i]? :=
    fun low => List.getElem?_append_left low
  refine ⟨signalled, inv.blocks, ?_, ?_, ?_, ?_, ?_, ?_, ?_, ?_, ?_⟩
  · intro u b' a' op' p at'
    dsimp only at at'
    rw [Function.update_apply] at at'
    split at at'
    · cases at'; exact shape
    · exact inv.valid u b' a' op' p at'
  · intro k mem
    rcases List.mem_append.mp mem with old | new
    · exact inv.tickets k old
    · rw [List.mem_singleton] at new
      subst new
      exact shape
  · change _ = ((v.requests ++ [_]).drop (issued v)).map ticketOrder
    rw [List.drop_append_of_le_length given, List.map_append, List.map_append, inv.queued]
    rfl
  · intro busy
    obtain ⟨k, found, flight⟩ := inv.flight busy
    exact ⟨k, by rw [early (List.getElem?_eq_some_iff.mp found).1]; exact found, flight⟩
  · change _ = ((v.requests ++ [_]).take v.performed.length).map _
    rw [List.take_append_of_le_length reached]
    exact inv.done
  · change _ = ((v.requests ++ [_]).take v.woken.length).map _
    rw [List.take_append_of_le_length (by omega)]
    exact inv.woken
  · intro i k low found
    rcases Nat.lt_or_ge i v.requests.length with old | new
    · rw [early old] at found
      obtain ⟨own, awaits⟩ := inv.own i k low found
      have other := notMine k awaits
      refine ⟨by simp [Function.update_of_ne other, own], ?_⟩
      obtain ⟨p, at', stands⟩ := awaits
      exact ⟨p, by simp [Function.update_of_ne other, at'], stands⟩
    · have bound := (List.getElem?_eq_some_iff.mp found).1
      rw [List.length_append, List.length_singleton] at bound
      have last : i = v.requests.length := by omega
      subst last
      rw [List.getElem?_append_right (Nat.le_refl _), Nat.sub_self] at found
      cases found
      refine ⟨by simp, .resume, by simp, Or.inl ⟨rfl, ?_⟩⟩
      -- nobody waits who is still about to enqueue
      intro inside
      have inside' : t ∈ waiters v := inside
      obtain ⟨m, place⟩ := List.mem_iff_getElem?.mp (inv.inOrder.subset inside')
      obtain ⟨k, found, task⟩ := owed_some.mp place
      exact notMine k (inv.own _ k (by omega) found).2 task
  · intro u b' a' op' p at' notFirst
    dsimp only at at' ⊢
    by_cases mine : u = t
    · subst mine
      rw [Function.update_self] at at'
      cases at'
      refine ⟨_, by rw [Function.update_self]; exact List.getElem?_concat_length, rfl, rfl, ?_⟩
      rw [Function.update_self]
      omega
    · rw [Function.update_of_ne mine] at at' ⊢
      obtain ⟨k, found, rest⟩ := inv.asks u b' a' op' p at' notFirst
      exact ⟨k, by rw [early (List.getElem?_eq_some_iff.mp found).1]; exact found, rest⟩
  · change waiters v <+: ((v.requests ++ [_]).drop v.woken.length).map Ticket.task
    rw [List.drop_append_of_le_length (by omega), List.map_append]
    exact inv.inOrder.trans (List.prefix_append _ _)

theorem paired_suspend (inv : Paired v) (t : Tcb N) {b : Int} {a : Option Nat} {op : Operation}
    (here : v.point t = some (.asks b a op .suspend)) (awake : t ∉ v.queue) (first : First v t)
    (signalled : Signalled v')
    (step : v' = { v with
      point := Function.update v.point t (some (.asks b a op .finish))
      queue := v.queue ++ [t] }) : Paired v' := by
  subst step
  have notDriver := caller_not_driver inv.signalled here
  have out : t ∉ waiters v := fun mem => awake (mem_waiters.mp mem).1
  have queue : waiters { v with
      point := Function.update v.point t (some (.asks b a op .finish))
      queue := v.queue ++ [t] } =
      waiters v ++ [t] := by simp [waiters, notDriver]
  obtain ⟨k, found, task, order, early⟩ := inv.asks t b a op _ here (by simp)
  have late : v.woken.length ≤ v.ticket t := by
    by_contra low
    cases (early (by omega)).1
  -- the request of t is the next one behind those of the waiting callers
  have place : (owed v)[(waiters v).length]? = some t := by
    obtain ⟨rest, whole⟩ := inv.inOrder
    have mine : (owed v)[v.ticket t - v.woken.length]? = some t :=
      owed_some.mpr ⟨k, by rw [Nat.add_sub_cancel' late]; exact found, task⟩
    have behind : (waiters v).length ≤ v.ticket t - v.woken.length := by
      by_contra before
      rw [← whole, List.getElem?_append_left (by omega)] at mine
      exact out (List.mem_of_getElem? mine)
    have bound := (List.getElem?_eq_some_iff.mp mine).1
    obtain ⟨u, next⟩ : ∃ u, (owed v)[(waiters v).length]? = some u :=
      ⟨_, List.getElem?_eq_getElem (by omega)⟩
    obtain ⟨k', found', rfl⟩ := owed_some.mp next
    obtain ⟨own, p, at', stands⟩ := inv.own _ k' (by omega) found'
    rcases stands with ⟨pending, _⟩ | ⟨_, inside⟩
    · have older := first k'.task (by rw [at']; exact pending)
      have same : v.ticket t - v.woken.length = (waiters v).length := by omega
      rw [← same]
      exact mine
    · -- a waiting caller has its place further ahead
      obtain ⟨m, earlier⟩ := List.mem_iff_getElem?.mp inside
      have short := (List.getElem?_eq_some_iff.mp earlier).1
      have again : (owed v)[m]? = some k'.task := by
        rw [← whole, List.getElem?_append_left short]
        exact earlier
      obtain ⟨k'', found'', same⟩ := owed_some.mp again
      have own'' := (inv.own _ k'' (by omega) found'').1
      rw [same, own] at own''
      omega
  refine ⟨signalled, inv.blocks, ?_, inv.tickets, inv.queued, inv.flight, inv.done, inv.woken,
    ?_, ?_, ?_⟩
  · intro u b' a' op' p at'
    dsimp only at at'
    rw [Function.update_apply] at at'
    split at at'
    · cases at'; exact inv.valid t b a op _ here
    · exact inv.valid u b' a' op' p at'
  · intro i k' low found'
    obtain ⟨own, p, at', stands⟩ := inv.own i k' low found'
    refine ⟨own, ?_⟩
    rw [Awaits, queue]
    by_cases mine : k'.task = t
    · rw [mine, here] at at'
      cases at'
      exact ⟨.finish, by simp [mine], Or.inr ⟨rfl, by simp [mine]⟩⟩
    · refine ⟨p, by simp [Function.update_of_ne mine, at'], ?_⟩
      simpa [mine] using stands
  · intro u b' a' op' p at' notFirst
    rw [queue]
    dsimp only at at' ⊢
    by_cases mine : u = t
    · subst mine
      rw [Function.update_self] at at'
      cases at'
      exact ⟨k, found, task, order, fun low => absurd low (by omega)⟩
    · rw [Function.update_of_ne mine] at at'
      obtain ⟨k', found', task', order', early'⟩ := inv.asks u b' a' op' p at' notFirst
      exact ⟨k', found', task', order', fun low => ⟨(early' low).1, by simp [mine, (early' low).2]⟩⟩
  · rw [queue]
    exact prefix_snoc inv.inOrder place

theorem paired_wake (inv : Paired v) {first : Tcb N} {rest : List (Tcb N)} (set : v.signal ≠ 0)
    (awake : .diskDriverTask ∉ v.queue) (waiting : v.queue = first :: rest)
    (settled : Settled v) (signalled : Signalled v')
    (step : v' = { drive v .issue with
      signal := 0, queue := rest, signalsSeen := v.performed.length
      woken := v.woken ++ [first] }) : Paired v' := by
  subst step
  obtain ⟨k, others, found, head⟩ := paired_head inv set settled
  rw [waiters_awake awake, waiting] at head
  cases head
  have before : waiters v = k.task :: rest := (waiters_awake awake).trans waiting
  have after : waiters { drive v .issue with
      signal := 0, queue := rest, signalsSeen := v.performed.length
      woken := v.woken ++ [k.task] } = rest := by
    refine List.filter_eq_self.mpr fun u mem => ?_
    have inside : u ∈ waiters v := by rw [before]; exact List.mem_cons_of_mem _ mem
    simpa using (mem_waiters.mp inside).2
  have more : (v.woken ++ [k.task]).length = v.woken.length + 1 := by simp
  have bound := (List.getElem?_eq_some_iff.mp found).1
  have split : v.requests.take (v.woken.length + 1) = v.requests.take v.woken.length ++ [k] := by
    rw [List.take_add_one, found]; rfl
  have points : ∀ {u}, u ≠ .diskDriverTask → (drive v .issue).point u = v.point u :=
    fun other => by simp [drive, Function.update_of_ne other]
  have ownK := inv.own _ k (Nat.le_refl _) found
  refine ⟨signalled, inv.blocks, ?_, inv.tickets, inv.queued, inv.flight, inv.done, ?_, ?_, ?_, ?_⟩
  · intro u b a op p at'
    exact inv.valid u b a op p (by rw [← points (caller_not_driver signalled at')]; exact at')
  · change v.woken ++ [k.task] = (v.requests.take (v.woken ++ [k.task]).length).map Ticket.task
    rw [more, split, List.map_append, ← inv.woken]
    rfl
  · intro i k' low found'
    have low' : v.woken.length + 1 ≤ i := by rw [← more]; exact low
    obtain ⟨own, p, at', stands⟩ := inv.own i k' (by omega) found'
    refine ⟨own, p, ?_, ?_⟩
    · exact (points (caller_not_driver inv.signalled at')).trans at'
    · rw [after]
      rw [before] at stands
      have other : k'.task ≠ k.task := by
        intro same
        rw [same, ownK.1] at own
        omega
      simpa [other] using stands
  · intro u b a op p at' notFirst
    have at'' : v.point u = some (.asks b a op p) := by
      rw [← points (caller_not_driver signalled at')]; exact at'
    obtain ⟨k', found', task, order, early⟩ := inv.asks u b a op p at'' notFirst
    refine ⟨k', found', task, order, fun low => ?_⟩
    have low' : v.ticket u < v.woken.length + 1 := by rw [← more]; exact low
    rw [after]
    rcases Nat.lt_or_ge (v.ticket u) v.woken.length with old | new
    · obtain ⟨finished, out⟩ := early old
      rw [before] at out
      exact ⟨finished, fun mem => out (List.mem_cons_of_mem _ mem)⟩
    · -- the caller just woken
      have last : v.ticket u = v.woken.length := by omega
      rw [last, found] at found'
      cases found'
      subst task
      obtain ⟨q, at₁, stands⟩ := ownK.2
      rw [at''] at at₁
      cases at₁
      rw [before] at stands
      refine ⟨(stands.resolve_left fun both => both.2 (by simp)).1, fun mem => ?_⟩
      obtain ⟨m, place⟩ := List.mem_iff_getElem?.mp mem
      obtain ⟨tail, whole⟩ := inv.inOrder
      have short := (List.getElem?_eq_some_iff.mp place).1
      have again : (owed v)[m + 1]? = some k.task := by
        rw [← whole, before, List.cons_append, List.getElem?_cons_succ,
          List.getElem?_append_left short]
        exact place
      obtain ⟨k'', found'', same⟩ := owed_some.mp again
      have own'' := (inv.own _ k'' (by omega) found'').1
      rw [same, ownK.1] at own''
      omega
  · rw [after]
    change rest <+: (v.requests.drop (v.woken ++ [k.task]).length).map Ticket.task
    have tail : owed v = k.task :: (v.requests.drop (v.woken.length + 1)).map Ticket.task := by
      rw [owed, List.drop_eq_getElem_cons bound, List.map_cons,
        (List.getElem?_eq_some_iff.mp found).2]
    have pre := inv.inOrder
    rw [before, tail, List.prefix_cons_inj] at pre
    rw [more]
    exact pre

theorem issue_accepted (inv : Paired v) {request : Request} {rest : List Request}
    (free : v.device.status = .idle) (pending : v.requestQueue = request :: rest) :
    ∃ k a, v.requests[v.performed.length]? = some k ∧ k.buffer = some a ∧
      rest.map requestOrder = (v.requests.drop (v.performed.length + 1)).map ticketOrder ∧
      (diskCmd v.device request.op request.block request.buffer).1 =
        { v.device with buffer := a, nextBlock := k.block, status := statusOf k.op } := by
  have given : issued v = v.performed.length := by rw [issued, if_pos free, Nat.add_zero]
  have queued := inv.queued
  rw [pending, given, List.map_cons] at queued
  have nonempty : 0 < (v.requests.drop v.performed.length).length := by
    have lengths := congrArg List.length queued
    rw [List.length_cons, List.length_map, List.length_map] at lengths
    omega
  rw [List.length_drop] at nonempty
  have bound : v.performed.length < v.requests.length := by omega
  have found := List.getElem?_eq_getElem bound
  rw [List.drop_eq_getElem_cons bound, List.map_cons] at queued
  generalize v.requests[v.performed.length] = k at found queued
  obtain ⟨order, queued'⟩ := List.cons.inj queued
  obtain ⟨low, high, buffer⟩ := inv.tickets k (List.mem_of_getElem? found)
  simp only [requestOrder, ticketOrder, Prod.mk.injEq] at order
  obtain ⟨sameBlock, sameBuffer, sameOp⟩ := order
  obtain ⟨a, at'⟩ := Option.ne_none_iff_exists'.mp buffer
  have within : ¬ (k.block < 0 ∨ v.device.numblocks ≤ k.block) := by
    rw [inv.blocks]; omega
  refine ⟨k, a, found, at', queued', ?_⟩
  rw [sameBlock, sameBuffer, sameOp, at']
  simp only [diskCmd, if_neg (not_not.mpr free), if_neg within]
  cases k.op <;> rfl

theorem paired_issue (inv : Paired v) {request : Request} {rest : List Request}
    (free : v.device.status = .idle) (pending : v.requestQueue = request :: rest)
    (signalled : Signalled v')
    (step : v' = { drive v .up with
      requestQueue := rest
      device := (diskCmd v.device request.op request.block request.buffer).1 }) : Paired v' := by
  subst step
  obtain ⟨k, a, found, at', queued', device⟩ := issue_accepted inv free pending
  have points : ∀ {u b a op p}, (drive v .up).point u = some (.asks b a op p) →
      v.point u = some (.asks b a op p) := by
    intro u b a op p at'
    simp only [drive, Function.update_apply] at at'
    split at at'
    · cases at'
    · exact at'
  refine ⟨signalled, ?_, ?_, inv.tickets, ?_, ?_, inv.done, inv.woken, ?_, ?_, inv.inOrder⟩
  · dsimp only
    rw [device]
    exact inv.blocks
  · intro u b a op p asks
    exact inv.valid u b a op p (points asks)
  · simp only [issued, device, if_neg (statusOf_busy k.op)]
    exact queued'
  · intro _
    refine ⟨k, found, ?_⟩
    dsimp only
    rw [device]
    exact ⟨rfl, at', rfl⟩
  · intro i k' low found'
    obtain ⟨own, p, asks, stands⟩ := inv.own i k' low found'
    refine ⟨own, p, ?_, stands⟩
    have other := caller_not_driver inv.signalled asks
    simp [drive, Function.update_of_ne other, asks]
  · intro u b a op p asks
    exact inv.asks u b a op p (points asks)

theorem paired_complete (inv : Paired v) {op : Operation} (busy : v.device.status = statusOf op)
    (signalled : Signalled (completed v op)) : Paired (completed v op) := by
  have inUse : v.device.status ≠ .idle := by rw [busy]; exact statusOf_busy op
  obtain ⟨k, found, block, buffer, status⟩ := inv.flight inUse
  have same : k.op = op := statusOf_injective (status.trans busy)
  have split : v.requests.take (v.performed.length + 1) =
      v.requests.take v.performed.length ++ [k] := by
    rw [List.take_add_one, found]; rfl
  have more : (completed v op).performed.length = v.performed.length + 1 := by simp [completed]
  have given : issued (completed v op) = issued v := by
    have idle : (completed v op).device.status = .idle := rfl
    rw [issued, issued, more, if_neg inUse, if_pos idle]
  have stays : waiters (completed v op) = waiters v := waiters_erase
  refine ⟨signalled, inv.blocks, inv.valid, inv.tickets, ?_, fun on => absurd rfl on, ?_,
    inv.woken, ?_, ?_, ?_⟩
  · rw [given]; exact inv.queued
  · rw [more]
    change (v.performed ++ [_]).map _ = (v.requests.take _).map _
    rw [split, List.map_append, List.map_append, inv.done]
    simp [same, block]
  · intro i k' low found'
    obtain ⟨own, p, asks, stands⟩ := inv.own i k' low found'
    exact ⟨own, p, asks, by rw [stays]; exact stands⟩
  · rw [stays]; exact inv.asks
  · rw [stays]; exact inv.inOrder

theorem paired_step (inv : Paired v) {e : DiskEvent N} (move : DiskMove v e v')
    (orderly : Orderly v e) : Paired v' := by
  have signalled := signalled_step inv.signalled move orderly.calm
  cases move with
  | outside ram =>
    exact ⟨signalled, inv.blocks, inv.valid, inv.tickets, inv.queued, inv.flight, inv.done,
      inv.woken, inv.own, inv.asks, inv.inOrder⟩
  | call k idle data =>
    refine paired_point inv signalled idle rfl ⟨rfl, rfl, rfl, rfl, rfl, rfl, rfl, rfl⟩ ?_ (by simp)
      (by simp) ?_
    · intro b a op p new
      cases new
      exact orderly.valid k rfl
    · intro b a op p new notFirst
      cases new
      exact absurd rfl notFirst
  | refuse t here =>
    refine paired_point inv signalled here rfl ⟨rfl, rfl, rfl, rfl, rfl, rfl, rfl, rfl⟩ (by simp) ?_
      (by simp) (by simp)
    intro b a op p old pending
    cases old
    cases pending
  | enqueue t tid here => exact paired_enqueue inv t tid here _ signalled rfl
  | rouse t here queue same =>
    have stays : queue.filter (· ≠ .diskDriverTask) = waiters v := by
      rcases same with rfl | rfl
      · rfl
      · exact waiters_erase
    refine paired_point inv signalled here rfl ⟨stays, rfl, rfl, rfl, rfl, rfl, rfl, rfl⟩ ?_ ?_
      (by simp) ?_
    · intro b a op p new
      cases new
      exact inv.valid t _ _ _ _ here
    · intro b a op p old _
      cases old
      exact ⟨_, rfl, rfl⟩
    · intro b a op p new _
      cases new
      exact ⟨_, rfl, rfl⟩
  | release t here =>
    refine paired_point inv signalled here rfl ⟨rfl, rfl, rfl, rfl, rfl, rfl, rfl, rfl⟩ ?_ ?_
      (by simp) ?_
    · intro b a op p new
      cases new
      exact inv.valid t _ _ _ _ here
    · intro b a op p old _
      cases old
      exact ⟨_, rfl, rfl⟩
    · intro b a op p new _
      cases new
      exact ⟨_, rfl, rfl⟩
  | suspend t here awake =>
    exact paired_suspend inv t here awake (orderly.first t rfl) signalled rfl
  | finish t here awake =>
    refine paired_point inv signalled here rfl ⟨rfl, rfl, rfl, rfl, rfl, rfl, rfl, rfl⟩ (by simp) ?_
      ?_ (by simp)
    · intro b a op p old pending
      cases old
      cases pending
    · intro _ _ _ _ mem
      exact awake (mem_waiters.mp mem).1
  | down here =>
    exact paired_drive inv signalled here rfl ⟨rfl, rfl, rfl, rfl, rfl, rfl, rfl, rfl⟩
  | wake first rest here set awake waiting =>
    exact paired_wake inv set awake waiting (orderly.settled rfl set) signalled rfl
  | skip here clear =>
    exact paired_drive inv signalled here rfl ⟨rfl, rfl, rfl, rfl, rfl, rfl, rfl, rfl⟩
  | issue request rest here free pending =>
    exact paired_issue inv free pending signalled rfl
  | pass here =>
    exact paired_drive inv signalled here rfl ⟨rfl, rfl, rfl, rfl, rfl, rfl, rfl, rfl⟩
  | yield here =>
    exact paired_drive inv signalled here rfl ⟨rfl, rfl, rfl, rfl, rfl, rfl, rfl, rfl⟩
  | sleep here =>
    exact paired_drive inv signalled here rfl
      ⟨by simp [waiters], rfl, rfl, rfl, rfl, rfl, rfl, rfl⟩
  | complete op busy nodup => exact paired_complete inv busy signalled

end Pairing

section Contents

/-- The last of the earlier writes to the block, or what the file held at first. -/
def latest (initial : Int → Block) (earlier : List (Ticket N)) (block : Int) : Block :=
  match earlier.reverse.find? fun k => k.op = .write ∧ k.block = block with
  | some k => k.data
  | none => initial block

def outcome (initial : Int → Block) (earlier : List (Ticket N)) (k : Ticket N) :
    Operation × Int × Block :=
  (k.op, k.block, match k.op with | .read => latest initial earlier k.block | .write => k.data)

/-- Calls, requests and transfers agree, and every buffer holds what its call needs or got. -/
structure Linear (initial : Int → Block) (v : DiskView N) : Prop where
  paired : Paired v
  calls : (∀ t b a op, v.point t ≠ some (.asks b a op .enqueue)) ∧ v.calls = v.requests ∨
    ∃ t b a op, v.point t = some (.asks b a op .enqueue) ∧
      (∀ u b' a' op', v.point u = some (.asks b' a' op' .enqueue) → u = t) ∧
      v.calls = v.requests ++ [⟨t, b, a, op, loadBlock v.ram (a.getD 0)⟩]
  file : ∀ b, v.device.file b = latest initial (v.requests.take v.performed.length) b
  results : ∀ i k, i < v.performed.length → v.requests[i]? = some k →
    v.performed[i]? = some (outcome initial (v.requests.take i) k)
  buffers : ∀ t b a op p k, v.point t = some (.asks b (some a) op p) → p ≠ .enqueue →
    v.requests[v.ticket t]? = some k →
    (v.performed.length ≤ v.ticket t → loadBlock v.ram a = k.data) ∧
    (v.ticket t < v.performed.length → op = .read →
      loadBlock v.ram a = latest initial (v.requests.take (v.ticket t)) b)

/-- Requests are accepted and made one after the other, and nobody but the disk, for the call it
    serves, writes the buffer of a call in progress. -/
structure Undisturbed (v : DiskView N) (e : DiskEvent N) (v' : DiskView N) : Prop where
  orderly : Orderly v e
  accepted : e ≠ .refuses
  alone : ∀ k, e = .calls k → ∀ t b a op, v.point t ≠ some (.asks b a op .enqueue)
  kept : ∀ t b a op p, v.point t = some (.asks b (some a) op p) →
    (e = .completes → ∀ k, v.requests[v.performed.length]? = some k → k.task ≠ t) →
    loadBlock v'.ram a = loadBlock v.ram a

variable {initial : Int → Block} {v v' : DiskView N}

omit [DecidableEq N] in
theorem latest_snoc (earlier : List (Ticket N)) (k : Ticket N) (block : Int) :
    latest initial (earlier ++ [k]) block =
      if k.op = .write ∧ k.block = block then k.data else latest initial earlier block := by
  by_cases here : k.op = .write ∧ k.block = block
  · simp [latest, here]
  · rw [latest, List.reverse_append, List.reverse_singleton, List.singleton_append,
      List.find?_cons_of_neg (by simpa using here), if_neg here, latest]

theorem load_store (ram : Nat → UInt8) (a : Nat) (block : Block) :
    loadBlock (storeBlock ram a block) a = block := by
  funext i
  have inside : a ≤ a + i ∧ a + i - a < 64 := by omega
  simp only [loadBlock, storeBlock, dif_pos inside]
  congr 1
  exact Fin.ext (Nat.add_sub_cancel_left ..)

theorem cmd_file (d : Device) (op : Operation) (block : Int) (buffer : Option Nat) :
    (diskCmd d op block buffer).1.file = d.file := by
  unfold diskCmd
  split
  · rfl
  · split
    · rfl
    · split <;> rfl

theorem linear_point (inv : Linear initial v) (paired : Paired v') {t : Tcb N}
    {old new : Option DiskPoint} (here : v.point t = old)
    (point : v'.point = Function.update v.point t new) (calls : v'.calls = v.calls)
    (requests : v'.requests = v.requests) (ticket : v'.ticket = v.ticket)
    (performed : v'.performed = v.performed) (file : v'.device.file = v.device.file)
    (ram : v'.ram = v.ram) (entered : ∀ b a op, old ≠ some (.asks b a op .enqueue))
    (within : ∀ b a op p, new = some (.asks b a op p) →
      p ≠ .enqueue ∧ ∃ q, q ≠ .enqueue ∧ old = some (.asks b a op q)) : Linear initial v' := by
  subst here
  have enqueues : ∀ u b a op, v'.point u = some (.asks b a op .enqueue) →
      v.point u = some (.asks b a op .enqueue) := by
    intro u b a op at'
    rw [point, Function.update_apply] at at'
    split at at'
    · exact absurd rfl (within _ _ _ _ at').1
    · exact at'
  refine ⟨paired, ?_, ?_, ?_, ?_⟩
  · rw [calls, requests, ram]
    rcases inv.calls with ⟨none, same⟩ | ⟨u, b, a, op, at', only, same⟩
    · exact Or.inl ⟨fun u b a op at' => none u b a op (enqueues u b a op at'), same⟩
    · have other : u ≠ t := by rintro rfl; exact entered b a op at'
      refine Or.inr ⟨u, b, a, op, ?_,
        fun w b' a' op' at'' => only w b' a' op' (enqueues _ _ _ _ at''),
        same⟩
      rw [point, Function.update_of_ne other]
      exact at'
  · rw [file, requests, performed]; exact inv.file
  · rw [requests, performed]; exact inv.results
  · intro u b a op p k at' notFirst found
    rw [requests, ticket] at found
    rw [performed, ticket, ram, requests]
    rw [point, Function.update_apply] at at'
    split at at'
    · rename_i mine
      subst mine
      obtain ⟨_, q, notFirst', before⟩ := within _ _ _ _ at'
      exact inv.buffers u b a op q k before notFirst' found
    · exact inv.buffers u b a op p k at' notFirst found

theorem linear_complete (inv : Linear initial v) {op : Operation}
    (busy : v.device.status = statusOf op) (paired : Paired (completed v op))
    (kept : ∀ t b a op' p, v.point t = some (.asks b (some a) op' p) →
      (∀ k, v.requests[v.performed.length]? = some k → k.task ≠ t) →
      loadBlock (completed v op).ram a = loadBlock v.ram a) :
    Linear initial (completed v op) := by
  have inUse : v.device.status ≠ .idle := by rw [busy]; exact statusOf_busy op
  obtain ⟨k, found, block, buffer, status⟩ := inv.paired.flight inUse
  have same : k.op = op := statusOf_injective (status.trans busy)
  have answered := woken_le inv.paired
  obtain ⟨own, p, at', _⟩ := inv.paired.own _ k answered found
  have notFirst : p ≠ .enqueue := by
    rintro rfl
    rename_i stands
    rcases stands with ⟨pending, _⟩ | ⟨finished, _⟩
    · cases pending
    · cases finished
  have split : v.requests.take (v.performed.length + 1) =
      v.requests.take v.performed.length ++ [k] := by
    rw [List.take_add_one, found]; rfl
  have more : (completed v op).performed.length = v.performed.length + 1 := by simp [completed]
  rw [buffer] at at'
  have mine := inv.buffers k.task k.block v.device.buffer k.op p k at' notFirst
    (by rw [own]; exact found)
  have data : transfer v op = match k.op with
      | .read => latest initial (v.requests.take v.performed.length) k.block
      | .write => k.data := by
    subst same
    cases kind : k.op with
    | read => simp only [transfer, inv.file, block]
    | write => exact mine.1 (by rw [own])
  have others : ∀ t b a op' p', v.point t = some (.asks b (some a) op' p') → t ≠ k.task →
      loadBlock (completed v op).ram a = loadBlock v.ram a := by
    intro t b a op' p' here other
    refine kept t b a op' p' here fun k' found' => ?_
    rw [found] at found'
    cases found'
    exact other.symm
  refine ⟨paired, ?_, ?_, ?_, ?_⟩
  · rcases inv.calls with none | ⟨t, b, a, op', here, only, calls⟩
    · exact Or.inl none
    · refine Or.inr ⟨t, b, a, op', here, only, ?_⟩
      obtain ⟨a', rfl⟩ := Option.ne_none_iff_exists'.mp (inv.paired.valid t b a op' _ here).2.2
      have other : t ≠ k.task := by
        rintro rfl
        rw [here] at at'
        cases at'
        exact notFirst rfl
      have bytes := others t b a' op' _ here other
      simp only [Option.getD_some] at calls ⊢
      rw [bytes]
      exact calls
  · intro b
    rw [more]
    change (completed v op).device.file b = latest initial (v.requests.take _) b
    rw [split, latest_snoc, ← inv.file b, same]
    cases op with
    | read => simp [completed]
    | write =>
      simp only [completed, Function.update_apply, data, same, block, true_and]
      simp only [eq_comm]
  · intro i k' low found'
    change (v.performed ++ [_])[i]? = some (outcome initial (v.requests.take i) k')
    rw [more] at low
    rcases Nat.lt_or_ge i v.performed.length with old | new
    · rw [List.getElem?_append_left old]
      exact inv.results i k' old found'
    · have last : i = v.performed.length := by omega
      subst last
      rw [show (completed v op).requests = v.requests from rfl, found] at found'
      cases found'
      rw [List.getElem?_append_right (Nat.le_refl _), Nat.sub_self, data, ← block, ← same]
      rfl
  · intro t b a op' p' k' here notFirst' found'
    rw [more]
    by_cases served : t = k.task
    · subst served
      rw [show (completed v op).point = v.point from rfl, at'] at here
      cases here
      refine ⟨fun early => ?_, fun _ kind => ?_⟩
      · have early' : v.performed.length + 1 ≤ v.ticket k.task := early
        omega
      · change _ = latest initial (v.requests.take (v.ticket k.task)) k.block
        rw [kind] at same data
        subst same
        rw [own]
        exact (load_store _ _ _).trans data
    · rw [others t b a op' p' here served]
      obtain ⟨before, after⟩ := inv.buffers t b a op' p' k' here notFirst' found'
      refine ⟨fun early => before (Nat.le_of_succ_le early), fun late kind => after ?_ kind⟩
      -- the request just performed is not that of t
      have late' : v.ticket t < v.performed.length + 1 := late
      have differs : v.ticket t ≠ v.performed.length := by
        intro equal
        obtain ⟨k'', found'', task, _⟩ := inv.paired.asks t b _ op' p' here notFirst'
        rw [equal, found] at found''
        cases found''
        exact served task.symm
      omega

theorem linear_outside (inv : Linear initial v) (ram : Nat → UInt8)
    (paired : Paired { v with ram := ram })
    (kept : ∀ t b a op p, v.point t = some (.asks b (some a) op p) →
      loadBlock ram a = loadBlock v.ram a) : Linear initial { v with ram := ram } := by
  refine ⟨paired, ?_, inv.file, inv.results, ?_⟩
  · rcases inv.calls with none | ⟨t, b, a, op, here, only, calls⟩
    · exact Or.inl none
    · refine Or.inr ⟨t, b, a, op, here, only, ?_⟩
      obtain ⟨a', rfl⟩ := Option.ne_none_iff_exists'.mp (inv.paired.valid t b a op _ here).2.2
      simp only [Option.getD_some] at calls ⊢
      rw [kept t b a' op _ here]
      exact calls
  · intro t b a op p k here notFirst found
    dsimp only
    rw [kept t b a op p here]
    exact inv.buffers t b a op p k here notFirst found

theorem linear_call (inv : Linear initial v) (k : Ticket N)
    (data : k.data = loadBlock v.ram (k.buffer.getD 0))
    (alone : ∀ t b a op, v.point t ≠ some (.asks b a op .enqueue)) (paired : Paired v')
    (step : v' = { v with
      point := Function.update v.point k.task (some (.asks k.block k.buffer k.op .enqueue))
      calls := v.calls ++ [k] }) : Linear initial v' := by
  subst step
  refine ⟨paired, ?_, inv.file, inv.results, ?_⟩
  · rcases inv.calls with ⟨_, same⟩ | ⟨t, b, a, op, here, _⟩
    · refine Or.inr ⟨k.task, k.block, k.buffer, k.op, by simp, ?_, ?_⟩
      · intro u b a op here
        by_contra other
        dsimp only at here
        rw [Function.update_of_ne other] at here
        exact alone u b a op here
      · rw [← data, same]
    · exact absurd here (alone t b a op)
  · intro t b a op p k' here notFirst found
    dsimp only at here
    rw [Function.update_apply] at here
    split at here
    · simp only [Option.some.injEq, DiskPoint.asks.injEq] at here
      exact absurd here.2.2.2.symm notFirst
    · exact inv.buffers t b a op p k' here notFirst found

theorem linear_enqueue (inv : Linear initial v) (t : Tcb N) (tid : Int) {b : Int}
    {a : Option Nat} {op : Operation} (here : v.point t = some (.asks b a op .enqueue))
    (paired : Paired v')
    (step : v' = { v with
      point := Function.update v.point t (some (.asks b a op .resume))
      requestQueue := v.requestQueue ++ [⟨tid, b, a, op⟩]
      requests := v.requests ++ [⟨t, b, a, op, loadBlock v.ram (a.getD 0)⟩]
      ticket := Function.update v.ticket t v.requests.length }) : Linear initial v' := by
  subst step
  have reached := performed_le inv.paired
  refine ⟨paired, Or.inl ?_, ?_, ?_, ?_⟩
  · rcases inv.calls with ⟨none, _⟩ | ⟨u, b', a', op', at', only, calls⟩
    · exact absurd here (none t b a op)
    · have mine := only t b a op here
      subst mine
      rw [here] at at'
      cases at'
      refine ⟨fun w b' a' op' asks => ?_, calls⟩
      dsimp only at asks
      rw [Function.update_apply] at asks
      split at asks
      · cases asks
      · rename_i other
        exact other (only w b' a' op' asks)
  · intro block
    dsimp only
    rw [List.take_append_of_le_length reached]
    exact inv.file block
  · intro i k low found
    dsimp only at low found ⊢
    rw [List.getElem?_append_left (by omega)] at found
    rw [List.take_append_of_le_length (by omega)]
    exact inv.results i k low found
  · intro u b' a' op' p k at' notFirst found
    dsimp only at at' found ⊢
    by_cases mine : u = t
    · subst mine
      rw [Function.update_self] at at' found ⊢
      cases at'
      rw [List.getElem?_append_right (Nat.le_refl _), Nat.sub_self] at found
      cases found
      exact ⟨fun _ => rfl, fun late => absurd late (by omega)⟩
    · rw [Function.update_of_ne mine] at at' found ⊢
      obtain ⟨k', found', _⟩ := inv.paired.asks u b' _ op' p at' notFirst
      have old := (List.getElem?_eq_some_iff.mp found').1
      rw [List.getElem?_append_left old] at found
      rw [List.take_append_of_le_length (by omega)]
      exact inv.buffers u b' a' op' p k at' notFirst found

theorem linear_drive (inv : Linear initial v) (paired : Paired v') {old new : DriverPoint}
    (here : v.point .diskDriverTask = some (.drives old))
    (point : v'.point = Function.update v.point .diskDriverTask (some (.drives new)))
    (calls : v'.calls = v.calls) (requests : v'.requests = v.requests)
    (ticket : v'.ticket = v.ticket) (performed : v'.performed = v.performed)
    (file : v'.device.file = v.device.file) (ram : v'.ram = v.ram) : Linear initial v' :=
  linear_point inv paired here point calls requests ticket performed file ram (by simp) (by simp)

theorem linear_step (inv : Linear initial v) {e : DiskEvent N} (move : DiskMove v e v')
    (quiet : Undisturbed v e v') : Linear initial v' := by
  have paired := paired_step inv.paired move quiet.orderly
  cases move with
  | outside ram =>
    exact linear_outside inv ram paired fun t b a op p here =>
      quiet.kept t b a op p here fun none => by cases none
  | call k idle data => exact linear_call inv k data (quiet.alone k rfl) paired rfl
  | refuse t here => exact absurd rfl quiet.accepted
  | enqueue t tid here => exact linear_enqueue inv t tid here paired rfl
  | rouse t here queue same =>
    refine linear_point inv paired here rfl rfl rfl rfl rfl rfl rfl (by simp) fun b a op p new => ?_
    cases new
    exact ⟨by simp, _, by simp, rfl⟩
  | release t here =>
    refine linear_point inv paired here rfl rfl rfl rfl rfl rfl rfl (by simp) fun b a op p new => ?_
    cases new
    exact ⟨by simp, _, by simp, rfl⟩
  | suspend t here awake =>
    refine linear_point inv paired here rfl rfl rfl rfl rfl rfl rfl (by simp) fun b a op p new => ?_
    cases new
    exact ⟨by simp, _, by simp, rfl⟩
  | finish t here awake =>
    exact linear_point inv paired here rfl rfl rfl rfl rfl rfl rfl (by simp) (by simp)
  | down here => exact linear_drive inv paired here rfl rfl rfl rfl rfl rfl rfl
  | wake first rest here set awake waiting =>
    exact linear_drive inv paired here rfl rfl rfl rfl rfl rfl rfl
  | skip here clear => exact linear_drive inv paired here rfl rfl rfl rfl rfl rfl rfl
  | issue request rest here free pending =>
    exact linear_drive inv paired here rfl rfl rfl rfl rfl (cmd_file ..) rfl
  | pass here => exact linear_drive inv paired here rfl rfl rfl rfl rfl rfl rfl
  | yield here => exact linear_drive inv paired here rfl rfl rfl rfl rfl rfl rfl
  | sleep here => exact linear_drive inv paired here rfl rfl rfl rfl rfl rfl rfl
  | complete op busy nodup =>
    exact linear_complete inv busy paired fun t b a op' p here others =>
      quiet.kept t b a op' p here fun _ => others

end Contents

end DiskProtocol
