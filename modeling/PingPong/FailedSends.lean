import PingPong.QueueDestruction
import PingPong.SemaphoreShares

/-!
What mqueue_send leaves behind when it returns -1. The exits after a failed malloc keep the place
and the buffer that the call has taken.
-/
namespace FailedSends
open MachineModel CircularList QueueModel KernelModel KernelEffects TaskPlacement SystemModel
open SystemFrames TransitionRuns FiniteTally SemaphoreBalance TaskConservation MessageQueues
open QueueDestruction SemaphoreShares
variable {N : Type} [DecidableEq N] [Fintype N]

section Accounts

/-- What a semaphore of the queue has to distribute: the messages, the free places, or the
    buffer. -/
def units (q : Nat) (max : Int) (s : System N) : SemAddr → Int
  | .sItem _ => (buffer q s).length
  | .sVaga _ => max - (buffer q s).length
  | _ => 1

/-- What a call in progress has of it. -/
def callShare (q : Nat) : SemAddr → Ctl N → Int
  | .sItem _ => itemShare q
  | .sVaga _ => vagaShare q
  | _ => bufferShare q

/-- The buffer, the three counters and the blocked tasks are those of the calls that have
    succeeded or are in progress. -/
structure Accounts (q : Nat) (max : Int) (s : System N) : Prop where
  sems : ∀ a, semClient a = .queue q →
    Shared a (units q max s a) (callShare q a) (fun c => waitsAt q a c = true) s
  order : s.history.sent q = s.history.received q ++ buffer q s

/-- mqueue_send on the queue returns -1 and the queue is still active. -/
def SendFails (q : Nat) (s : System N) (l : Label N) (s' : System N) : Prop :=
  (s'.mqueue q).active ≠ 0 ∧ s'.ctl s.curr = .body (-1) ∧
    ((∃ msg point, s.ctl s.curr = .send q msg point) ∨
      ∃ msg, l = .call (.mqueueSend (some q) msg))

/-- Calls on a queue that is not initialised again and not being destroyed. -/
def Uses (q : Nat) (s : System N) (l : Label N) (s' : System N) : Prop :=
  Operates s l s' ∧ Spares q l

/-- While all allocations of messages succeed. -/
structure Clean (q : Nat) (max size : Int) (s : System N) : Prop where
  conserved : Conserved s
  active : (s.mqueue q).active ≠ 0
  msgSize : (s.mqueue q).msgSize = size
  notDestroyed : ∀ t point, s.ctl t ≠ .destroy q point
  bytes : ∀ msg ∈ buffer q s, msg.length = sizeOfInt size
  accounts : Accounts q max s

end Accounts

section Steps
variable {q : Nat} {max size : Int} {s s' : System N} {l : Label N}

omit [DecidableEq N] [Fintype N] in
theorem callShare_off {a : SemAddr} {c : Ctl N} (off : ctlClient c ≠ .queue q) :
    callShare q a c = 0 := by
  cases a with
  | sItem p => exact itemShare_off off
  | sVaga p => exact vagaShare_off off
  | _ => exact bufferShare_off off

theorem fresh_clean (fresh : Fresh q max size s) : Clean q max size s := by
  have empty : buffer q s = [] := by rw [buffer, fresh.mqueue]
  have none : ∀ a t, callShare q a (s.ctl t) = 0 := fun a t => callShare_off (fresh.outside t)
  have room := fresh.room
  have isInt := fresh.isInt
  refine ⟨fresh.conserved, by rw [fresh.mqueue]; simp, by rw [fresh.mqueue], ?_, ?_, ?_, ?_⟩
  · intro t point here
    exact fresh.outside t (by rw [here]; rfl)
  · rw [empty]
    intro msg mem
    cases mem
  · intro a mine
    have vacant : tasks s.kernel (.semQueue a) = [] := fresh.noWaiters a mine
    rcases queue_sems mine with rfl | rfl | rfl
    · exact shared_start fresh.sBuffer rfl vacant (none _)
    · have zero : units q max s (.sItem q) = 0 := by simp [units, empty]
      rw [zero]
      exact shared_start fresh.sItem rfl vacant (none _)
    · have all : units q max s (.sVaga q) = max := by simp [units, empty]
      rw [all]
      exact shared_start fresh.sVaga (toInt_eq_self (by simp only [intMin]; omega) isInt) vacant
        (none _)
  · rw [fresh.sent, fresh.received, empty]
    rfl

theorem clean_framed (cl : Clean q max size s) (conserved : Conserved s')
    (framed : Framed (.queue q) s s') : Clean q max size s' := by
  have data : QueueData q s s' := framed.data
  have same : buffer q s' = buffer q s := by rw [buffer, data.mqueue]; rfl
  refine ⟨conserved, by rw [data.mqueue]; exact cl.active,
    by rw [data.mqueue]; exact cl.msgSize, ?_, by rw [same]; exact cl.bytes, ?_, ?_⟩
  · intro t point here
    rcases framed.ctl t with same | ⟨_, after⟩
    · exact cl.notDestroyed t point (by rw [← same]; exact here)
    · exact after (by rw [here]; rfl)
  · intro a mine
    have equal : units q max s' a = units q max s a := by
      unfold units
      rw [same]
    rw [equal]
    refine shared_framed (cl.accounts.sems a mine) (by rw [mine]; exact framed) ?_ ?_
    · rw [mine]
      exact fun c off => callShare_off off
    · rw [mine]
      exact fun c waits => waitsAt_client waits
  · rw [data.sent, data.received, same]
    exact cl.accounts.order

theorem clean_entry (cl : Clean q max size s) (conserved : Conserved s') {new : Ctl N}
    (ctl : s'.ctl = Function.update s.ctl s.curr new)
    (active : (s'.mqueue q).active = (s.mqueue q).active)
    (msgSize : (s'.mqueue q).msgSize = (s.mqueue q).msgSize)
    (notDestroyed : ∀ point, new ≠ .destroy q point)
    (bytes : ∀ msg ∈ buffer q s', msg.length = sizeOfInt size)
    (sems : ∀ a, semClient a = .queue q →
      Shared a (units q max s' a) (callShare q a) (fun c => waitsAt q a c = true) s')
    (order : s'.history.sent q = s'.history.received q ++ buffer q s') :
    Clean q max size s' := by
  refine ⟨conserved, by rw [active]; exact cl.active, msgSize.trans cl.msgSize, ?_, bytes, sems,
    order⟩
  intro t point
  rw [ctl, Function.update_apply]
  split
  · exact notDestroyed point
  · exact cl.notDestroyed t point

theorem clean_local (cl : Clean q max size s) (conserved : Conserved s') {old new : Ctl N}
    (here : s.ctl s.curr = old) (ctl : s'.ctl = Function.update s.ctl s.curr new)
    (kernel : s'.kernel = s.kernel) (active : (s'.mqueue q).active = (s.mqueue q).active)
    (msgSize : (s'.mqueue q).msgSize = (s.mqueue q).msgSize)
    (notDestroyed : ∀ point, new ≠ .destroy q point)
    (account : ∀ a, semClient a = .queue q →
      units q max s' a - callShare q a new = units q max s a - callShare q a old)
    (bytes : ∀ msg ∈ buffer q s', msg.length = sizeOfInt size)
    (order : s'.history.sent q = s'.history.received q ++ buffer q s') :
    Clean q max size s' := by
  refine clean_entry cl conserved ctl active msgSize notDestroyed bytes (fun a mine => ?_) order
  exact shared_same (cl.accounts.sems a mine) cl.conserved here ctl (by rw [kernel])
    (by rw [kernel]) (account a mine)

theorem clean_move (cl : Clean q max size s) {old new : Ctl N}
    (conserved : Conserved (s.goto s.curr new)) (here : s.ctl s.curr = old)
    (notDestroyed : ∀ point, new ≠ .destroy q point)
    (account : ∀ a, semClient a = .queue q → callShare q a new = callShare q a old) :
    Clean q max size (s.goto s.curr new) := by
  refine clean_local cl conserved here rfl rfl rfl rfl notDestroyed (fun a mine => ?_) cl.bytes
    cl.accounts.order
  rw [account a mine]
  rfl

theorem clean_down (cl : Clean q max size s) {old new : Ctl N} {x : SemAddr}
    (here : s.ctl s.curr = old) (task : role old ≠ .dispatcher)
    (notDestroyed : ∀ point, new ≠ .destroy q point) (waits : waitsAt q x new = true)
    (account : ∀ a, semClient a = .queue q →
      callShare q a new = callShare q a old + if a = x then 1 else 0)
    (run : (semDown s.kernel (some x)).map (fun y => (s.withKernel y.1).goto s.curr new) =
      .ok s') (conserved : Conserved s') : Clean q max size s' := by
  obtain ⟨⟨k, r⟩, down, rfl⟩ := map_ok run
  have user : s.kernel.curr ≠ .dispatcherTask :=
    not_dispatcher cl.conserved (t := s.curr) (by rw [here]; exact task)
  have kept := semDown_any cl.conserved.placed user down
  refine clean_entry cl conserved rfl rfl rfl notDestroyed cl.bytes (fun a mine => ?_)
    cl.accounts.order
  have sh := cl.accounts.sems a mine
  have change := account a mine
  have same : units q max ((s.withKernel k).goto s.curr new) a = units q max s a := rfl
  rw [same]
  by_cases equal : a = x
  · subst equal
    rw [if_pos rfl] at change
    exact shared_down sh cl.conserved here task rfl down (by omega) waits
  · rw [if_neg equal] at change
    exact shared_same sh cl.conserved here rfl (kept.sem a (by simpa using equal))
      (kept.lists (.semQueue a) (by simp) (by simpa using equal)) (by omega)

theorem clean_up (cl : Clean q max size s) {old new : Ctl N} {x : SemAddr}
    (here : s.ctl s.curr = old) (notDestroyed : ∀ point, new ≠ .destroy q point)
    (account : ∀ a, semClient a = .queue q →
      callShare q a new + (if a = x then 1 else 0) = callShare q a old)
    (run : (semUp s.kernel (some x)).map (fun y => (s.withKernel y.1).goto s.curr new) =
      .ok s') (conserved : Conserved s') : Clean q max size s' := by
  obtain ⟨⟨k, r⟩, up, rfl⟩ := map_ok run
  obtain ⟨-, kept⟩ := semUp_any cl.conserved.placed up
  refine clean_entry cl conserved rfl rfl rfl notDestroyed cl.bytes (fun a mine => ?_)
    cl.accounts.order
  have sh := cl.accounts.sems a mine
  have change := account a mine
  have same : units q max ((s.withKernel k).goto s.curr new) a = units q max s a := rfl
  rw [same]
  by_cases equal : a = x
  · subst equal
    rw [if_pos rfl] at change
    exact shared_up sh cl.conserved here rfl up (by omega)
  · rw [if_neg equal] at change
    exact shared_same sh cl.conserved here rfl (kept.sem a (by simpa using equal))
      (kept.lists (.semQueue a) (by simp) (by simpa using equal)) (by omega)

theorem shares_of {p : SemAddr → Prop} (item : p (.sItem q)) (vaga : p (.sVaga q))
    (held : p (.sBuffer q)) : ∀ a, semClient a = .queue q → p a := by
  intro a mine
  rcases queue_sems mine with rfl | rfl | rfl
  · exact held
  · exact item
  · exact vaga

theorem clean_send (cl : Clean q max size s) {msg : Nat} {point : SendPoint} {m₁ m₂ : Bool}
    (here : s.ctl s.curr = .send q msg point) (conserved : Conserved s')
    (stores : Stores q s (.run m₁ m₂)) (run : mqueueSendStep s q msg m₁ m₂ point = .ok s') :
    Clean q max size s' := by
  simp only [Stores, here] at stores
  cases point with
  | vaga =>
    refine clean_down cl here (by simp [role]) (by simp) (by simp [waitsAt]) ?_ run conserved
    apply shares_of <;> simp [callShare, itemShare, vagaShare, bufferShare]
  | buffer =>
    refine clean_down cl here (by simp [role]) (by simp) (by simp [waitsAt]) ?_ run conserved
    apply shares_of <;> simp [callShare, itemShare, vagaShare, bufferShare]
  | check =>
    simp only [mqueueSendStep, if_neg cl.active] at run
    cases run
    refine clean_move cl conserved here (by simp) ?_
    apply shares_of <;> simp [callShare, itemShare, vagaShare, bufferShare]
  | store =>
    obtain ⟨rfl, rfl⟩ := stores rfl
    cases run
    refine clean_local cl conserved here rfl rfl ?_ ?_ (by simp) ?_ ?_ ?_
    · simp [System.setMqueue]
    · simp [System.setMqueue]
    · apply shares_of
      · simp [callShare, units, buffer, System.setMqueue, itemShare]
      · simp [callShare, units, buffer, System.setMqueue, vagaShare]
        omega
      · simp [callShare, units, bufferShare]
    · intro m mem
      simp only [buffer, System.goto_mqueue, System.setMqueue, Function.update_self,
        List.mem_append, List.mem_singleton] at mem
      rcases mem with old | rfl
      · exact cl.bytes m old
      · simp [loadBytes, cl.msgSize]
    · have order := cl.accounts.order
      simp only [buffer] at order
      simp [buffer, System.setMqueue, order]
  | upBuffer =>
    refine clean_up cl here (by simp) ?_ run conserved
    apply shares_of <;> simp [callShare, itemShare, vagaShare, bufferShare]
  | upItem =>
    simp only [mqueueSendStep, up_answer _ cl.conserved] at run
    refine clean_up cl here (by simp) ?_ run conserved
    apply shares_of <;> simp [callShare, itemShare, vagaShare, bufferShare]

theorem clean_recv (cl : Clean q max size s) {msg : Nat} {point : RecvPoint}
    (here : s.ctl s.curr = .recv q msg point) (conserved : Conserved s')
    (run : mqueueRecvStep s q msg point = .ok s') : Clean q max size s' := by
  cases point with
  | item =>
    refine clean_down cl here (by simp [role]) (by simp) (by simp [waitsAt]) ?_ run conserved
    apply shares_of <;> simp [callShare, itemShare, vagaShare, bufferShare]
  | buffer =>
    refine clean_down cl here (by simp [role]) (by simp) (by simp [waitsAt]) ?_ run conserved
    apply shares_of <;> simp [callShare, itemShare, vagaShare, bufferShare]
  | check =>
    simp only [mqueueRecvStep, if_neg cl.active] at run
    cases run
    refine clean_move cl conserved here (by simp) ?_
    apply shares_of <;> simp [callShare, itemShare, vagaShare, bufferShare]
  | take =>
    simp only [mqueueRecvStep] at run
    split at run
    · cases run
    · rename_i first rest split
      have content : buffer q s = first :: rest := split
      have whole : first.take (sizeOfInt (s.mqueue q).msgSize) = first := by
        rw [cl.msgSize, ← cl.bytes first (by rw [content]; simp), List.take_length]
      cases run
      refine clean_local cl conserved here rfl rfl ?_ ?_ (by simp) ?_ ?_ ?_
      · simp [System.setMqueue]
      · simp [System.setMqueue]
      · apply shares_of
        · simp only [units, content]
          simp [callShare, buffer, System.setMqueue, itemShare]
        · simp only [units, content]
          simp [callShare, buffer, System.setMqueue, vagaShare]
          omega
        · simp [callShare, units, bufferShare]
      · intro m mem
        simp only [buffer, System.goto_mqueue, System.setMqueue, Function.update_self] at mem
        exact cl.bytes m (by rw [content]; exact List.mem_cons_of_mem _ mem)
      · have order := cl.accounts.order
        rw [content] at order
        simp [buffer, System.setMqueue, order, whole]
  | upBuffer =>
    refine clean_up cl here (by simp) ?_ run conserved
    apply shares_of <;> simp [callShare, itemShare, vagaShare, bufferShare]
  | upVaga =>
    simp only [mqueueRecvStep, up_answer _ cl.conserved] at run
    refine clean_up cl here (by simp) ?_ run conserved
    apply shares_of <;> simp [callShare, itemShare, vagaShare, bufferShare]

theorem clean_call (cl : Clean q max size s) {code : Int} (body : s.ctl s.curr = .body code)
    {c : Call N} (mine : callClient c = .queue q) (spares : Spares q (.call c))
    (run : call s c = .ok s') (conserved : Conserved s') : Clean q max size s' := by
  simp only [callClient] at mine
  split at mine
  case h_6 =>
    cases mine
    exact absurd rfl spares
  case h_7 msg =>
    cases mine
    cases run
    cases msg with
    | none =>
      refine clean_move cl conserved body (by simp) ?_
      apply shares_of <;> simp [callShare, itemShare, vagaShare, bufferShare]
    | some m =>
      simp only [mqueueSendCall, if_neg cl.active] at conserved ⊢
      refine clean_move cl conserved body (by simp) ?_
      apply shares_of <;> simp [callShare, itemShare, vagaShare, bufferShare]
  case h_8 msg =>
    cases mine
    cases run
    cases msg with
    | none =>
      refine clean_move cl conserved body (by simp) ?_
      apply shares_of <;> simp [callShare, itemShare, vagaShare, bufferShare]
    | some m =>
      simp only [mqueueRecvCall, if_neg cl.active] at conserved ⊢
      refine clean_move cl conserved body (by simp) ?_
      apply shares_of <;> simp [callShare, itemShare, vagaShare, bufferShare]
  case h_9 =>
    cases mine
    exact absurd rfl spares
  all_goals cases mine

theorem clean_step (cl : Clean q max size s) (go : Uses q s l s') (stores : Stores q s l) :
    Clean q max size s' := by
  obtain ⟨⟨run, permitted⟩, spares⟩ := go
  have ok := step_kept cl.conserved permitted run
  by_cases mine : client s l = .queue q
  · cases l with
    | tick => cases mine
    | completion => cases mine
    | call c =>
      obtain ⟨code, body, run⟩ := call_runs run
      exact clean_call cl body mine spares run ok.conserved
    | run m₁ m₂ =>
      rcases queue_runs mine run with ⟨_, _, here, ran⟩ | ⟨_, _, here, ran⟩ | ⟨_, here, -⟩
      · exact clean_send cl here ok.conserved stores ran
      · exact clean_recv cl here ok.conserved ran
      · exact absurd here (cl.notDestroyed _ _)
  · exact clean_framed cl ok.conserved (ok.framed _ (by simp) (Ne.symm mine))

/-- The failed call has left the buffer taken. -/
theorem failure_is_counted (cl : Clean q max size s) (go : Uses q s l s')
    (restores : SendFails q s l s' → Accounts q max s') : Stores q s l := by
  by_contra failed
  obtain ⟨⟨run, permitted⟩, spares⟩ := go
  obtain ⟨m₁, m₂, msg, rfl, here, none⟩ : ∃ m₁ m₂ msg, l = .run m₁ m₂ ∧
      s.ctl s.curr = .send q msg .store ∧ ¬ (m₁ = true ∧ m₂ = true) := by
    unfold Stores at failed
    split at failed
    · rename_i m₁ m₂
      split at failed
      · rename_i p msg here
        obtain ⟨rfl, none⟩ := Classical.not_imp.mp failed
        exact ⟨m₁, m₂, msg, rfl, here, none⟩
      · exact absurd trivial failed
    · exact absurd trivial failed
  have after : s' = s.answer (-1) := by
    simp only [step, advance, here, mqueueSendStep, Option.some.injEq] at run
    split at run
    · exact (Except.ok.inj run).symm
    · rename_i first
      split at run
      · exact (Except.ok.inj run).symm
      · rename_i second
        exact absurd ⟨by simpa using first, by simpa using second⟩ none
  have ctl : s'.ctl = Function.update s.ctl s.curr (.body (-1)) := by rw [after]; rfl
  have fails : SendFails q s (.run m₁ m₂) s' := by
    refine ⟨by rw [after]; exact cl.active, ?_, Or.inl ⟨msg, .store, here⟩⟩
    rw [ctl, Function.update_self]
  have before := (cl.accounts.sems (.sBuffer q) rfl).value
  have later := ((restores fails).sems (.sBuffer q) rfl).value
  have same : s'.kernel.sem (.sBuffer q) = s.kernel.sem (.sBuffer q) := by rw [after]; rfl
  rw [same, before, total_update _ ctl, here] at later
  simp only [units, callShare, bufferShare, ↓reduceIte] at later
  -- the counter would have to be one more than it is
  exact toInt_succ_ne _ ((congrArg toInt (by omega)).trans later.symm)

theorem stores_run {labels : List (Label N)} (cl : Clean q max size s)
    (run : Run (fun s l s' => Uses q s l s' ∧ Stores q s l) s labels s') :
    Clean q max size s' :=
  run_invariant (Clean q max size) (fun _ _ _ cl both => clean_step cl both.1 both.2) run cl

theorem restoring_run {labels : List (Label N)} (cl : Clean q max size s)
    (run : Run (fun s l s' => Uses q s l s' ∧ (SendFails q s l s' → Accounts q max s'))
      s labels s') :
    Run (fun s l s' => Uses q s l s' ∧ Stores q s l) s labels s' := by
  induction run with
  | start => exact .start _
  | step earlier last ih =>
    exact .step ih ⟨last.1, failure_is_counted (stores_run cl ih) last.1 last.2⟩

theorem storing_run {labels : List (Label N)} (cl : Clean q max size s)
    (run : Run (fun s l s' => Uses q s l s' ∧ Stores q s l) s labels s') :
    Run (fun s l s' => Uses q s l s' ∧ (SendFails q s l s' → Accounts q max s'))
      s labels s' := by
  induction run with
  | start => exact .start _
  | step earlier last ih =>
    have after := clean_step (stores_run cl earlier) last.1 last.2
    exact .step ih ⟨last.1, fun _ => after.accounts⟩

end Steps

/-- Every failed send leaves the accounts right exactly in the runs in which all messages are
    allocated. As long as no counter wraps, the blocked tasks are then as many as the counters
    say, and the other sends and receives go on as they should. -/
theorem failed_sends_leave_no_trace {q : Nat} {max size : Int} {s s' : System N}
    {labels : List (Label N)} (fresh : Fresh q max size s) :
    (Run (fun s l s' => Uses q s l s' ∧ (SendFails q s l s' → Accounts q max s'))
        s labels s' ↔
      Run (fun s l s' => Uses q s l s' ∧ Stores q s l) s labels s') ∧
    (Run (fun s l s' => Uses q s l s' ∧ Stores q s l ∧ CounterFits q s l) s labels s' →
      (∀ a, semClient a = .queue q → Balanced s'.kernel a) ∧ Delivered q max s') := by
  have cl := fresh_clean fresh
  refine ⟨⟨restoring_run cl, storing_run cl⟩, fun run => ?_⟩
  have d : Delivery q max size s' := by
    refine run_invariant (Delivery q max size) ?_ run (fresh_delivery fresh)
    intro a l b d ⟨uses, stores, fits⟩
    exact delivery_step d uses.1 uses.2 stores fits
  exact ⟨d.balanced, ⟨_, d.order.symm⟩, within_capacity d, fun t a here => never_empty d here,
    stalled_receivers d, stalled_senders d⟩

section Executions

abbrev useGuard (q : Nat) (s : System N) (l : Label N) : Prop := Permitted s l ∧ Spares q l

def nullThenSend : List (Label (Fin 1)) :=
  [Label.call (.mqueueSend (some 0) none), .call (.mqueueSend (some 0) (some 0))] ++
  List.replicate 6 (Label.run true true)

theorem null_message_leaves_no_trace : ∃ s' : System (Fin 1),
    Run (fun s l s' => Uses 0 s l s' ∧ (SendFails 0 s l s' → Accounts 0 1 s'))
      (initialised 0 1 1) nullThenSend s' ∧
    (∀ a, semClient a = .queue 0 → Balanced s'.kernel a) ∧ buffer 0 s' = [[0]] := by
  obtain ⟨s', found, sent⟩ := exec_reaches
    (guardedStep fun s l _ => useGuard 0 s l ∧ Stores 0 s l ∧ CounterFits 0 s l)
    (initialised 0 1 1 : System (Fin 1)) nullThenSend (fun s => buffer 0 s = [[0]])
    (by decide +kernel)
  have run : Run (fun s l s' => Uses 0 s l s' ∧ Stores 0 s l ∧ CounterFits 0 s l)
      (initialised 0 1 1) nullThenSend s' := by
    refine run_mono ?_ (exec_guarded found)
    intro s l s' ⟨go, ⟨permitted, spares⟩, stores, fits⟩
    exact ⟨⟨⟨go, permitted⟩, spares⟩, stores, fits⟩
  have clean : Run (fun s l s' => Uses 0 s l s' ∧ Stores 0 s l) (initialised 0 1 1)
      nullThenSend s' := run_mono (fun _ _ _ next => ⟨next.1, next.2.1⟩) run
  have fresh : Fresh 0 1 1 (initialised 0 1 1 : System (Fin 1)) :=
    initialised_fresh (by decide) (by decide)
  exact ⟨s', (failed_sends_leave_no_trace fresh).1.mpr clean,
    ((failed_sends_leave_no_trace fresh).2 run).1, sent⟩

/-- The first malloc of main's send fails. -/
theorem failed_send_keeps_place :
    ¬ ∀ (s₀ s s' : System (Fin 1)) (labels : List (Label (Fin 1))) (l : Label (Fin 1)),
      Fresh 0 1 1 s₀ → Run (Uses 0) s₀ labels s → Uses 0 s l s' → SendFails 0 s l s' →
      Accounts 0 1 s' := by
  intro claim
  obtain ⟨s, found, here, more⟩ := exec_reaches (guardedStep fun s l _ => useGuard 0 s l)
    (initialised 0 1 1 : System (Fin 1))
    ([.call (.mqueueSend (some 0) (some 0))] ++ List.replicate 3 (.run true true))
    (fun s => s.ctl s.curr = .send 0 0 .store ∧
      ((guardedStep (fun s l _ => useGuard 0 s l) s (.run false true)).any fun s' =>
        decide ((s'.mqueue 0).active ≠ 0 ∧ s'.ctl s.curr = .body (-1) ∧
          (s'.kernel.sem (.sVaga 0)).value ≠
            toInt (units 0 1 s' (.sVaga 0) - total (callShare 0 (.sVaga 0)) s'))) = true)
    (by decide +kernel)
  obtain ⟨s', next, active, failed, lost⟩ : ∃ s',
      guardedStep (fun s l _ => useGuard 0 s l) s (.run false true) = some s' ∧
      (s'.mqueue 0).active ≠ 0 ∧ s'.ctl s.curr = .body (-1) ∧
      (s'.kernel.sem (.sVaga 0)).value ≠
        toInt (units 0 1 s' (.sVaga 0) - total (callShare 0 (.sVaga 0)) s') := by
    obtain ⟨s', next, facts⟩ := Option.any_eq_true _ _ |>.mp more
    exact ⟨s', next, of_decide_eq_true facts⟩
  have run : Run (Uses 0) (initialised 0 1 1) _ s :=
    run_mono (fun _ _ _ next => ⟨⟨next.1, next.2.1⟩, next.2.2⟩) (exec_guarded found)
  obtain ⟨go, permitted, spares⟩ := guardedStep_eq next
  have accounts := claim _ s s' _ _ (initialised_fresh (by decide) (by decide)) run
    ⟨⟨go, permitted⟩, spares⟩ ⟨active, failed, Or.inl ⟨0, .store, here⟩⟩
  exact lost (accounts.sems (.sVaga 0) rfl).value

end Executions

end FailedSends
