import PingPong.KernelViews
import PingPong.SystemFrames

/-!
Views that the calls leave alone. Where a view shows neither the queues, what scheduling writes
into a descriptor, the task that runs nor a semaphore, only the timer, the dispatcher and the calls
made to begin, to end or to rank a task can change what it shows.
-/
namespace StepViews
open MachineModel CircularList QueueModel KernelModel KernelEffects SystemModel SystemFrames
open KernelViews
variable {N : Type} [DecidableEq N] {α : Type}

structure Apart (view : Kernel N → α) : Prop extends Blind view where
  curr : ∀ k t, view { k with curr := t } = view k
  sem : ∀ k m, view { k with sem := m } = view k

theorem apart_field {field : Task → α}
    (other : ∀ d status waiting hour, field { d with
      status := status, waitingTask := waiting, wakeUpTime := hour } = field d) :
    Apart fun (k : Kernel N) t => field (k.task t) :=
  ⟨blind_field other, fun _ _ => rfl, fun _ _ => rfl⟩

section Kernel
variable {view : Kernel N → α} {k k' : Kernel N}

theorem semInit_apart (apart : Apart view) (k : Kernel N) (s : Option SemAddr) (value : Int) :
    view (semInit k s value).1 = view k := by
  cases s with
  | none => rfl
  | some s =>
    let valued := k.setSem s fun x => { x with value := value }
    have counted : view valued = view k := apart.sem k _
    exact (apart.sem { valued with queues := _ } _).trans ((apart.queues valued _).trans counted)

theorem switch_apart (apart : Apart view) {t : Option (Tcb N)}
    (run : taskSwitch k t = .ok k') : view k' = view k :=
  switch_blind apart.toBlind apart.curr run

variable [Fintype N]

theorem suspend_apart (apart : Apart view) {q : Option TaskQueue}
    (run : taskSuspend k q = .ok k') : view k' = view k :=
  suspend_blind apart.toBlind apart.curr run

theorem resume_apart (apart : Apart view) {t : Option (Tcb N)} {q : Option TaskQueue}
    (run : taskResume k t q = .ok k') : view k' = view k := resume_blind apart.toBlind run

theorem sleep_apart (apart : Apart view) {t : Int} (run : taskSleep k t = .ok k') :
    view k' = view k := by
  simp only [taskSleep] at run
  have alarm := apart.task k k.curr
    (fun d => { d with wakeUpTime := systime k + UInt32.ofNat (t % 4294967296).toNat })
    fun _ => rfl
  exact (suspend_apart apart run).trans alarm

theorem wait_apart (apart : Apart view) {t : Option (Tcb N)} {r : Option Int}
    (run : taskWait k t = .ok (k', r)) : view k' = view k := by
  cases t with
  | none =>
    cases run
    rfl
  | some t =>
    simp only [taskWait] at run
    split at run
    · cases run
      rfl
    · obtain ⟨j, suspended, same⟩ := map_ok run
      cases same
      have waiting := apart.task k k.curr
        (fun d => { d with waitingTask := (k.task t).id }) fun _ => rfl
      exact (suspend_apart apart suspended).trans waiting

theorem down_apart (apart : Apart view) {s : SemAddr} {r : Option Int}
    (run : semDown k (some s) = .ok (k', r)) : view k' = view k := by
  rcases semDown_effect run with rfl | ⟨v, rfl | suspended⟩
  · rfl
  · exact apart.sem k _
  · exact (suspend_apart apart suspended).trans (apart.sem k _)

theorem up_apart (apart : Apart view) {s : SemAddr} {r : Int}
    (run : semUp k (some s) = .ok (k', r)) : view k' = view k := by
  rcases semUp_effect run with rfl | ⟨v, rfl | ⟨-, resumed⟩⟩
  · rfl
  · exact apart.sem k _
  · exact (resume_apart apart resumed).trans (apart.sem k _)

theorem destroy_apart (apart : Apart view) {s : Option SemAddr} {r : Int}
    (run : semDestroy k s = .ok (k', r)) : view k' = view k := by
  cases s with
  | none =>
    cases run
    rfl
  | some s =>
    rcases semDestroy_effect run with rfl | drained
    · rfl
    · exact (drain_blind apart.toBlind drained).trans (apart.sem k _)

theorem semCall_apart (apart : Apart view) (call : SemCall k k') : view k' = view k := by
  cases call with
  | none => rfl
  | down run => exact down_apart apart run
  | up run => exact up_apart apart run
  | destroy run => exact destroy_apart apart run

end Kernel

section Steps
variable [Fintype N] {view : Kernel N → α} {s s' : System N}

theorem semDownStep_apart (apart : Apart view) {n : Nat} {point : DownPoint}
    (run : semDownStep s n point = .ok s') : view s'.kernel = view s.kernel := by
  cases point with
  | enter =>
    simp only [semDownStep] at run
    split at run
    · cases run
      rfl
    · cases run
      exact apart.sem s.kernel _
  | update =>
    cases run
    exact apart.sem s.kernel _
  | woken =>
    cases run
    rfl
  | leave v =>
    cases run
    split
    · exact apart.sem s.kernel _
    · exact apart.sem s.kernel _
  | suspend =>
    obtain ⟨k, suspended, rfl⟩ := map_ok run
    exact suspend_apart apart suspended

theorem semUpStep_apart (apart : Apart view) {n : Nat} {point : UpPoint}
    (run : semUpStep s n point = .ok s') : view s'.kernel = view s.kernel := by
  cases point with
  | enter =>
    simp only [semUpStep] at run
    split at run
    · cases run
      rfl
    · cases run
      exact apart.sem s.kernel _
  | update | leave v =>
    cases run
    exact apart.sem s.kernel _
  | test v =>
    simp only [semUpStep] at run
    split at run
    · split at run
      · cases run
        rfl
      · cases run
        rfl
    · cases run
      rfl
  | resume =>
    obtain ⟨k, resumed, rfl⟩ := map_ok run
    exact resume_apart apart resumed

theorem blockOp_apart (apart : Apart view) {block : Int} {buffer : Option Nat} {op : Operation}
    {malloc : Bool} {point : BlockOpPoint}
    (run : diskBlockOpStep s block buffer op malloc point = .ok s') :
    view s'.kernel = view s.kernel := by
  cases point with
  | enqueue =>
    simp only [diskBlockOpStep] at run
    split at run
    · cases run
      rfl
    · cases run
      rfl
  | resume =>
    simp only [diskBlockOpStep] at run
    split at run
    · obtain ⟨k, resumed, rfl⟩ := map_ok run
      exact resume_apart apart resumed
    · cases run
      rfl
  | up =>
    obtain ⟨⟨k, r⟩, up, rfl⟩ := map_ok run
    exact up_apart apart up
  | suspend =>
    obtain ⟨k, suspended, rfl⟩ := map_ok run
    exact suspend_apart apart suspended
  | finish =>
    cases run
    rfl

theorem driver_apart (apart : Apart view) {point : DriverPoint}
    (run : diskDriverStep s point = .ok s') : view s'.kernel = view s.kernel := by
  cases point with
  | down =>
    obtain ⟨⟨k, r⟩, down, rfl⟩ := map_ok run
    exact down_apart apart down
  | test =>
    simp only [diskDriverStep, diskDriverTest] at run
    split at run
    · obtain ⟨k, resumed, rfl⟩ := map_ok run
      exact resume_apart apart resumed
    · cases run
      rfl
  | issue =>
    cases run
    unfold diskDriverIssue
    split
    · split
      · rfl
      · rfl
    · rfl
  | up =>
    obtain ⟨⟨k, r⟩, up, rfl⟩ := map_ok run
    exact up_apart apart up
  | suspend =>
    obtain ⟨k, suspended, rfl⟩ := map_ok run
    exact suspend_apart apart suspended

theorem completion_apart (apart : Apart view) (go : step s .completion = some (.ok s')) :
    view s'.kernel = view s.kernel := by
  obtain ⟨op, run⟩ := completion_runs go
  obtain ⟨-, resumed, -⟩ := sighandle_returns run
  exact resume_apart apart resumed

/-- A task other than the dispatcher goes on with its call. -/
theorem advance_apart (apart : Apart view) (user : ∀ point, s.ctl s.curr ≠ .dispatcher point)
    {m₁ m₂ : Bool} (run : advance s m₁ m₂ = some (.ok s')) : view s'.kernel = view s.kernel := by
  unfold advance at run
  cases here : s.ctl s.curr <;> rw [here] at run <;> dsimp only at run
  case unborn | terminated | body => cases run
  case waitReturn =>
    cases run
    rfl
  case semDown => exact semDownStep_apart apart (Option.some.inj run)
  case semUp => exact semUpStep_apart apart (Option.some.inj run)
  case send => exact semCall_apart apart (send_semCall (Option.some.inj run))
  case recv => exact semCall_apart apart (recv_semCall (Option.some.inj run))
  case destroy => exact semCall_apart apart (destroy_semCall (Option.some.inj run))
  case blockOp => exact blockOp_apart apart (Option.some.inj run)
  case driver => exact driver_apart apart (Option.some.inj run)
  case dispatcher point => exact absurd here (user point)

/-- A call that neither begins, ends nor ranks a task. -/
theorem call_apart (apart : Apart view) {c : Call N} (init : ∀ t stack, c ≠ .taskInit t stack)
    (manager : ∀ host stack, c ≠ .diskMgrInit host stack) (exit : ∀ code, c ≠ .taskExit code)
    (rank : ∀ t prio, c ≠ .taskSetprio t prio) (run : call s c = .ok s') :
    view s'.kernel = view s.kernel := by
  cases c with
  | taskInit t stack => exact absurd rfl (init t stack)
  | diskMgrInit host stack => exact absurd rfl (manager host stack)
  | taskExit code => exact absurd rfl (exit code)
  | taskSetprio t prio => exact absurd rfl (rank t prio)
  | taskYield =>
    simp only [call, taskYield] at run
    obtain ⟨k, switched, rfl⟩ := map_ok run
    exact switch_apart apart switched
  | taskSwitch t =>
    obtain ⟨k, switched, rfl⟩ := map_ok run
    exact switch_apart apart switched
  | taskSleep t =>
    obtain ⟨k, slept, rfl⟩ := map_ok run
    exact sleep_apart apart slept
  | taskWait t =>
    obtain ⟨⟨k, r⟩, waited, same⟩ := map_ok run
    have kept := wait_apart apart waited
    dsimp only at same
    split at same
    · subst same
      exact kept
    · subst same
      exact kept
  | semInit n value =>
    cases run
    exact semInit_apart apart s.kernel (n.map .user) value
  | semDown n =>
    cases run
    rw [semDownCall_kernel]
  | semUp n =>
    cases run
    rw [semUpCall_kernel]
  | semDestroy n =>
    obtain ⟨⟨k, r⟩, destroyed, rfl⟩ := map_ok run
    exact destroy_apart apart destroyed
  | mqueueInit q max size =>
    cases run
    unfold mqueueInit
    split
    · rfl
    · rename_i q
      have first := semInit_apart apart s.kernel (some (.sBuffer q)) 1
      have second := semInit_apart apart (semInit s.kernel (some (.sBuffer q)) 1).1
        (some (.sItem q)) 0
      refine Eq.trans ?_ (second.trans first)
      exact semInit_apart apart _ (some (.sVaga q)) max
  | mqueueSend q msg =>
    cases run
    rw [mqueueSendCall_kernel]
  | mqueueRecv q msg =>
    cases run
    rw [mqueueRecvCall_kernel]
  | mqueueDestroy q =>
    cases run
    split
    · rfl
    · rfl
  | taskGetprio task =>
    cases run
    rfl
  | mqueueMsgs q =>
    simp only [call] at run
    split at run
    · cases run
    · cases run
      rfl
  | diskBlockRead block buffer | diskBlockWrite block buffer =>
    obtain ⟨⟨k, r⟩, down, rfl⟩ := map_ok run
    exact down_apart apart down
  | store address byte =>
    cases run
    rfl

end Steps
end StepViews
