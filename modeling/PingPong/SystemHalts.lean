import PingPong.Initialisation
import PingPong.TaskLives

/-!
How the process can end. Every exit and every dereference of NULL of the kernel is one of nine
cases; from any state that a program reaches, a step that is none of them returns.
-/
namespace SystemHalts
open MachineModel CircularList QueueModel KernelModel KernelEffects TaskPlacement SystemModel
open SystemFrames TransitionRuns TaskConservation KernelActs KernelViews Initialisation
open TaskRecords TaskLives
variable {N : Type} [DecidableEq N]

section Results

theorem returns {α : Type} {x : Except Halt α} {h : Halt} (ok : ∃ a, x = .ok a) :
    x ≠ .error h := by
  obtain ⟨a, ok⟩ := ok
  rw [ok]
  simp

end Results

section Ends
variable [Fintype N]

/-- The steps that end the process. -/
inductive Ends (s : System N) : Label N → Halt → Prop where
  /-- The loop of the dispatcher is over: of the program no task is left. -/
  | dispatcher (m₁ m₂ : Bool) (here : s.curr = .dispatcherTask)
      (top : s.ctl .dispatcherTask = .dispatcher .top)
      (done : ∀ t, live (s.ctl t) = true → t = .dispatcherTask ∨ t = .diskDriverTask) :
      Ends s (.run m₁ m₂) (.exit 0)
  | stack (t : Tcb N) (r : Int) (body : s.ctl s.curr = .body r) :
      Ends s (.call (.taskInit t false)) (.exit stackCreationError)
  | device (stack : Bool) (r : Int) (body : s.ctl s.curr = .body r)
      (unknown : s.device.status = .unknown) :
      Ends s (.call (.diskMgrInit false stack)) (.exit 1)
  | driverStack (r : Int) (body : s.ctl s.curr = .body r) (unknown : s.device.status = .unknown)
      (blocks : 0 ≤ s.device.fileBlocks) :
      Ends s (.call (.diskMgrInit true false)) (.exit stackCreationError)
  | switch (r : Int) (body : s.ctl s.curr = .body r) :
      Ends s (.call (.taskSwitch none)) (.exit nullPtrError)
  /-- sem_up found a waiting task, and somebody else has resumed it since. -/
  | resume (n : Nat) (m₁ m₂ : Bool) (here : s.ctl s.curr = .semUp n .resume)
      (nobody : tasks s.kernel (.semQueue (.user n)) = []) :
      Ends s (.run m₁ m₂) (.exit nullPtrError)
  /-- The operation is done before its caller waits in disk_queue. -/
  | signal (m₁ m₂ : Bool) (here : s.ctl s.curr = .driver .test) (signal : s.disk.signal ≠ 0)
      (nobody : tasks s.kernel .diskQueue = []) : Ends s (.run m₁ m₂) (.exit nullPtrError)
  | messages (r : Int) (body : s.ctl s.curr = .body r) :
      Ends s (.call (.mqueueMsgs none)) .fault
  | take (q a : Nat) (m₁ m₂ : Bool) (here : s.ctl s.curr = .recv q a .take)
      (empty : (s.mqueue q).buffer = []) : Ends s (.run m₁ m₂) .fault

/-- enter_cs returns at once where lock and unlock are in one step. -/
def Unlocked (s : System N) : Prop :=
  ∀ x, (∀ n, x ≠ .user n) → (s.kernel.sem x).lock = 0

/-- disk_mgr_init sets the handler after it has started the driver, and the disk works only for
    the driver. -/
def Wired (s : System N) : Prop :=
  live (s.ctl .diskDriverTask) = true ∨ s.device.status = .read ∨ s.device.status = .write →
    s.disk.handler = true

end Ends

section Locks
variable [Fintype N] {s s' : System N}

omit [DecidableEq N] [Fintype N] in
theorem unlocked_held {c : Client} (kind : c = .disk ∨ ∃ q, c = .queue q)
    (unlocked : Unlocked s) : Held c s := by
  intro a mine locked
  refine absurd (unlocked a fun n same => ?_) locked
  rw [same] at mine
  rcases kind with rfl | ⟨q, rfl⟩
  · cases mine
  · cases mine

omit [DecidableEq N] [Fintype N] in
theorem held_unlocked {a : SemAddr} (other : ∀ n, a ≠ .user n) (held : Held (semClient a) s) :
    (s.kernel.sem a).lock = 0 := by
  by_contra locked
  obtain ⟨t, holds⟩ := held a rfl locked
  have mine := holds_client holds
  unfold Holds at holds
  split at holds
  · exact other _ holds
  · exact other _ holds
  · exact other _ holds
  · exact other _ holds
  · exact holds

omit [Fintype N] in
theorem init_id {k k' : Kernel N} {t : Tcb N} {stack : Bool} {id : Int}
    (run : taskInit k t stack = .ok (k', id)) : k'.sem = k.sem ∧ (k'.task t).id = id := by
  simp only [taskInit] at run
  split at run
  · cases run
  · obtain ⟨⟨m, code⟩, -, run⟩ := bind_ok run
    cases run
    split
    · exact ⟨rfl, rfl⟩
    · exact ⟨rfl, rfl⟩

omit [Fintype N] in
/-- disk_mgr_init has done nothing about the driver, or started it: then its id, if it is no
    error code, has brought the handler. -/
theorem manager_effect {host stack : Bool} (run : diskMgrInit s host stack = .ok s') :
    Releases s.kernel s'.kernel ∧
      (s'.ctl = Function.update s.ctl s.curr (.body (-1)) ∧ s'.disk = s.disk ∧
        (s'.device.status = s.device.status ∨ s'.device.status = .idle) ∨
      s'.device.status = .idle ∧
        (0 ≤ (s'.kernel.task .diskDriverTask).id → s'.disk.handler = true)) := by
  simp only [diskMgrInit] at run
  split at run
  · cases run
    exact ⟨releases_sem rfl, Or.inl ⟨rfl, rfl, Or.inl rfl⟩⟩
  · rename_i accepted
    have unknown : s.device.status = .unknown := by
      by_contra known
      simp [diskInit, known] at accepted
    have idle : (diskInit s.device).1.status = .idle := by simp [diskInit, unknown]
    split at run
    · cases run
    · split at run
      · cases run
        exact ⟨releases_sem rfl, Or.inl ⟨rfl, rfl, Or.inr idle⟩⟩
      · obtain ⟨⟨k, id⟩, started, after⟩ := map_ok run
        obtain ⟨sem, same⟩ := init_id started
        have releases := releases_trans (semInit_releases s.kernel (some .semDisk) 1)
          (releases_sem sem)
        dsimp only at after
        split at after
        · rename_i negative
          subst after
          refine ⟨releases, Or.inr ⟨idle, fun positive => ?_⟩⟩
          change 0 ≤ (k.task .diskDriverTask).id at positive
          omega
        · subst after
          exact ⟨releases, Or.inr ⟨idle, fun _ => rfl⟩⟩

theorem disk_releases {l : Label N} (go : step s l = some (.ok s')) (mine : client s l = .disk) :
    Releases s.kernel s'.kernel := by
  cases l with
  | tick => cases mine
  | completion =>
    obtain ⟨op, handled⟩ := completion_runs go
    obtain ⟨-, resumed, -⟩ := sighandle_returns handled
    exact releases_sem (resume_blind blind_sem resumed)
  | call c =>
    obtain ⟨r, body, go⟩ := call_runs go
    cases c with
    | diskMgrInit host stack => exact (manager_effect go).1
    | diskBlockRead block buffer | diskBlockWrite block buffer =>
      obtain ⟨⟨k, code⟩, down, rfl⟩ := map_ok go
      exact semDown_releases down
    | taskInit | taskYield | taskSwitch | taskSleep | taskWait | taskExit | taskSetprio
    | taskGetprio | mqueueMsgs | store => cases mine
    | semInit n | semDown n | semUp n | semDestroy n => cases n <;> cases mine
    | mqueueInit q | mqueueSend q | mqueueRecv q | mqueueDestroy q => cases q <;> cases mine
  | run m₁ m₂ =>
    rcases disk_runs mine go with ⟨block, buffer, op, point, -, run⟩ | ⟨point, -, run⟩
    · cases point with
      | enqueue =>
        simp only [diskBlockOpStep] at run
        split at run
        · cases run
          exact releases_sem rfl
        · cases run
          exact releases_sem rfl
      | resume =>
        simp only [diskBlockOpStep] at run
        split at run
        · obtain ⟨k, resumed, rfl⟩ := map_ok run
          exact releases_sem (resume_blind blind_sem resumed)
        · cases run
          exact releases_sem rfl
      | up =>
        obtain ⟨⟨k, code⟩, up, rfl⟩ := map_ok run
        exact semUp_releases up
      | suspend =>
        obtain ⟨k, suspended, rfl⟩ := map_ok run
        exact releases_sem (suspend_sem suspended)
      | finish =>
        cases run
        exact releases_sem rfl
    · cases point with
      | down =>
        obtain ⟨⟨k, code⟩, down, rfl⟩ := map_ok run
        exact semDown_releases down
      | test =>
        simp only [diskDriverStep, diskDriverTest] at run
        split at run
        · obtain ⟨k, resumed, rfl⟩ := map_ok run
          exact releases_sem (resume_blind blind_sem resumed)
        · cases run
          exact releases_sem rfl
      | issue =>
        cases run
        refine fields_releases ?_
        unfold diskDriverIssue
        split
        · split
          · rfl
          · rfl
        · rfl
      | up =>
        obtain ⟨⟨k, code⟩, up, rfl⟩ := map_ok run
        exact semUp_releases up
      | suspend =>
        obtain ⟨k, suspended, rfl⟩ := map_ok run
        exact releases_sem (suspend_sem suspended)

theorem unlocked_step {l : Label N} (conserved : Conserved s) (unlocked : Unlocked s)
    (go : Operates s l s') : Unlocked s' := by
  intro a other
  rcases client : semClient a with _ | _ | n | q | _
  case plain | birth => cases a <;> cases client
  case semaphore =>
    cases a with
    | user m => exact absurd rfl (other m)
    | sBuffer | sItem | sVaga | semDisk => cases client
  case queue =>
    have held := held_step conserved (unlocked_held (Or.inr ⟨q, rfl⟩) unlocked)
      (Or.inr ⟨q, rfl⟩) go
    exact held_unlocked other (client ▸ held)
  case disk =>
    by_cases mine : SystemFrames.client s l = .disk
    · rcases disk_releases go.1 mine a with same | zero
      · rw [same]
        exact unlocked a other
      · exact zero
    · have framed := (step_kept conserved go.2 go.1).framed .disk (by simp) (Ne.symm mine)
      rw [framed.sem a client]
      exact unlocked a other

end Locks

section Handler
variable [Fintype N] {s s' : System N}

omit [DecidableEq N] [Fintype N] in
theorem wired_kept (wired : Wired s) (handler : s'.disk.handler = s.disk.handler)
    (alive : live (s'.ctl .diskDriverTask) = true → live (s.ctl .diskDriverTask) = true)
    (status : s'.device.status = s.device.status ∨ s'.device.status = .idle) : Wired s' := by
  intro works
  rw [handler]
  refine wired ?_
  rcases works with on | busy
  · exact Or.inl (alive on)
  · rcases status with same | idle
    · rw [same] at busy
      exact Or.inr busy
    · rw [idle] at busy
      rcases busy with busy | busy
      · cases busy
      · cases busy

omit [Fintype N] in
theorem issue_effect (s : System N) : (diskDriverIssue s).disk.handler = s.disk.handler := by
  unfold diskDriverIssue
  split
  · split
    · rfl
    · rfl
  · rfl

theorem driver_handler {point : DriverPoint} (run : diskDriverStep s point = .ok s') :
    s'.disk.handler = s.disk.handler := by
  cases point with
  | down =>
    obtain ⟨_, -, rfl⟩ := map_ok run
    rfl
  | test =>
    simp only [diskDriverStep, diskDriverTest] at run
    split at run
    · obtain ⟨_, -, rfl⟩ := map_ok run
      rfl
    · cases run
      rfl
  | issue =>
    cases run
    exact issue_effect s
  | up =>
    obtain ⟨_, -, rfl⟩ := map_ok run
    rfl
  | suspend =>
    obtain ⟨_, -, rfl⟩ := map_ok run
    rfl

theorem blockOp_device {block : Int} {buffer : Option Nat} {op : Operation} {malloc : Bool}
    {point : BlockOpPoint} (run : diskBlockOpStep s block buffer op malloc point = .ok s') :
    s'.disk.handler = s.disk.handler ∧ s'.device = s.device := by
  cases point with
  | enqueue =>
    simp only [diskBlockOpStep] at run
    split at run
    · cases run
      exact ⟨rfl, rfl⟩
    · cases run
      exact ⟨rfl, rfl⟩
  | resume =>
    simp only [diskBlockOpStep] at run
    split at run
    · obtain ⟨_, -, rfl⟩ := map_ok run
      exact ⟨rfl, rfl⟩
    · cases run
      exact ⟨rfl, rfl⟩
  | up =>
    obtain ⟨_, -, rfl⟩ := map_ok run
    exact ⟨rfl, rfl⟩
  | suspend =>
    obtain ⟨_, -, rfl⟩ := map_ok run
    exact ⟨rfl, rfl⟩
  | finish =>
    cases run
    exact ⟨rfl, rfl⟩

theorem driver_lived {l : Label N} (conserved : Conserved s) (go : Operates s l s')
    (other : ∀ host stack, l ≠ .call (.diskMgrInit host stack))
    (on : live (s'.ctl .diskDriverTask) = true) : live (s.ctl .diskDriverTask) = true := by
  have living := congrFun (step_living conserved go) .diskDriverTask
  have permitted := go.2
  simp only [liveTasks, on] at living
  unfold event at living
  split at living
  · exact living.symm
  · exact living.symm
  · rename_i t stack
    rw [Event.living, Function.update_of_ne permitted.2.symm] at living
    exact living.symm
  · rename_i host stack
    exact absurd rfl (other host stack)
  · rw [Event.living, Function.update_apply] at living
    split at living
    · cases living
    · exact living.symm
  · split at living
    · exact living.symm
    · exact living.symm
    · exact living.symm
  · exact living.symm

theorem wired_step {l : Label N} (conserved : Conserved s) (wired : Wired s)
    (id : live (s'.ctl .diskDriverTask) = true → 0 ≤ (s'.kernel.task .diskDriverTask).id)
    (go : Operates s l s') : Wired s' := by
  by_cases mine : client s l = .disk
  · cases l with
    | tick => cases mine
    | completion =>
      obtain ⟨op, handled⟩ := completion_runs go.1
      obtain ⟨on, -, ctl, disk, -⟩ := sighandle_returns handled
      intro _
      rw [disk]
      exact on
    | call c =>
      obtain ⟨r, body, run⟩ := call_runs go.1
      cases c with
      | diskMgrInit host stack =>
        obtain ⟨-, ⟨ctl, disk, status⟩ | ⟨idle, handler⟩⟩ := manager_effect run
        · refine wired_kept wired (by rw [disk]) (fun on => ?_) status
          rwa [ctl, Function.update_of_ne (body_not_driver conserved body).symm] at on
        · intro works
          rcases works with on | busy | busy
          · exact handler (id on)
          · rw [idle] at busy
            cases busy
          · rw [idle] at busy
            cases busy
      | diskBlockRead block buffer | diskBlockWrite block buffer =>
        have lived := driver_lived conserved go (by simp)
        obtain ⟨_, -, rfl⟩ := map_ok run
        exact wired_kept wired rfl lived (Or.inl rfl)
      | taskInit | taskYield | taskSwitch | taskSleep | taskWait | taskExit | taskSetprio
      | taskGetprio | mqueueMsgs | store => cases mine
      | semInit n | semDown n | semUp n | semDestroy n => cases n <;> cases mine
      | mqueueInit q | mqueueSend q | mqueueRecv q | mqueueDestroy q => cases q <;> cases mine
    | run m₁ m₂ =>
      have lived := driver_lived conserved go (by simp)
      rcases disk_runs mine go.1 with ⟨block, buffer, op, point, here, run⟩ | ⟨point, here, run⟩
      · obtain ⟨handler, device⟩ := blockOp_device run
        exact wired_kept wired handler lived (Or.inl (by rw [device]))
      · have same : s.curr = .diskDriverTask := conserved.driverRole _ (by rw [here]; rfl)
        have alive : live (s.ctl s.curr) = true := current_live conserved.placed
        intro _
        rw [driver_handler run]
        exact wired (Or.inl (same ▸ alive))
  · have data : DiskData s s' :=
      ((step_kept conserved go.2 go.1).framed .disk (by simp) (Ne.symm mine)).data
    refine wired_kept wired (by rw [data.disk]) (driver_lived conserved go ?_)
      (Or.inl (by rw [data.device]))
    rintro host stack rfl
    exact mine rfl

end Handler

section Outcomes
variable [Fintype N] {s : System N} {k : Kernel N} {alive : Tcb N → Bool}

variable {h : Halt}

end Outcomes

section Runs
variable [Fintype N]

/-- Until the ids run out. -/
structure Sound (a : Noted N) : Prop where
  small : Small a
  unlocked : Unlocked a.system
  wired : (a.diary.inits : Int) < intMax → Wired a.system

theorem id_nonneg {a : Noted N} (kept : TaskLives.Kept a) (few : (a.diary.inits : Int) < intMax)
    {t : Tcb N} (on : live (a.system.ctl t) = true) (user : t ≠ .dispatcherTask) :
    0 ≤ (a.system.kernel.task t).id := by
  have number := (live_id kept few on user).1
  omega

theorem sound_step {a b : Noted N} {l : Label N} (sound : Sound a) (go : Notes a l b) :
    Sound b := by
  have small := small_step sound.small go
  have conserved := sound.small.kept.conserved
  refine ⟨small, unlocked_step conserved sound.unlocked go.1, fun few => ?_⟩
  have before : (a.diary.inits : Int) < intMax := by
    have grow : a.diary.inits ≤ b.diary.inits := by
      rw [go.2]
      cases event a.system b.system l <;> simp [Diary.note]
    omega
  exact wired_step conserved (sound.wired before)
    (fun on => id_nonneg small.kept few on driver_is_not_dispatcher) go.1

end Runs
end SystemHalts
