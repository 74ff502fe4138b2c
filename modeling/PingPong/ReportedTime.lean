import PingPong.ProcessorTime

/-!
The processor time that task_exit prints. The dispatcher charges a task for a turn when control
comes back to it, and the report is made before that; the first turn of main is not the
dispatcher's.
-/
namespace ReportedTime
open MachineModel CircularList QueueModel KernelModel KernelEffects TaskPlacement SystemModel
open SystemFrames TransitionRuns TaskConservation ProcessorTime
variable {N : Type} [DecidableEq N]

section Meters

/-- The ticks handled while a task was curr: before the dispatcher ever switched to it, in its
    earlier turns, and in its last one. -/
structure Meter where
  first : Nat
  earlier : Nat
  turn : Option Nat
  deriving DecidableEq

namespace Meter

def fresh : Meter := ⟨0, 0, none⟩

def ticks (m : Meter) : Nat := m.first + m.earlier + m.turn.getD 0

def tick (m : Meter) : Meter :=
  match m.turn with
  | none => { m with first := m.first + 1 }
  | some n => { m with turn := some (n + 1) }

def dispatch (m : Meter) : Meter := ⟨m.first, m.earlier + m.turn.getD 0, some 0⟩

end Meter

structure Timed (N : Type) where
  system : System N
  meter : Tcb N → Meter

/-- task_init starts the meter of its task; disk_mgr_init calls it for the driver. -/
def meters (a : Timed N) (l : Label N) (s' : System N) : Tcb N → Meter :=
  match l with
  | .tick => Function.update a.meter a.system.curr (a.meter a.system.curr).tick
  | .call (.taskInit t _) => Function.update a.meter t .fresh
  | .call (.diskMgrInit _ _) =>
    if s'.ctl .diskDriverTask = a.system.ctl .diskDriverTask then a.meter
    else Function.update a.meter .diskDriverTask .fresh
  | .run _ _ => match a.system.ctl a.system.curr with
      | .dispatcher (.dispatch _ next) => Function.update a.meter next (a.meter next).dispatch
      | _ => a.meter
  | _ => a.meter

/-- All switching goes through the dispatcher, and ticks occur only while a task is curr. -/
def Regular (s : System N) : Label N → Prop
  | .call (.taskSwitch (some t)) => t = .dispatcherTask
  | .tick => s.curr ≠ .dispatcherTask
  | _ => True

variable [Fintype N]

def Runs (a : Timed N) (l : Label N) (b : Timed N) : Prop :=
  Operates a.system l b.system ∧ Regular a.system l ∧ b.meter = meters a l b.system

structure Started (a : Timed N) : Prop where
  booted : Booted a.system
  meter : ∀ t, a.meter t = .fresh

/-- The dispatcher waits for this task to give the processor back. -/
def Awaits (s : System N) (t : Tcb N) (start : UInt32) : Prop :=
  s.ctl .dispatcherTask = .dispatcher (.back t start)

/-- What the dispatcher has read on the clock, if it has not switched to a task since. -/
def readAt : DispatcherPoint N → Option UInt32
  | .wake start | .schedule start | .dispatch start _ => some start
  | .top | .back _ _ => none

def Inside (s : System N) (start : UInt32) : Prop :=
  ∃ point, s.ctl .dispatcherTask = .dispatcher point ∧ readAt point = some start

end Meters

section Steps
variable [Fintype N] {a b : Timed N} {l : Label N}

theorem ofNat_succ (n : Nat) : UInt32.ofNat (n + 1) = UInt32.ofNat n + 1 := UInt32.ofNat_add n 1

omit [DecidableEq N] [Fintype N] in
theorem awaits_one {s : System N} {t u : Tcb N} {start start' : UInt32}
    (here : Awaits s t start) (there : Awaits s u start') : t = u ∧ start = start' := by
  have same := here.symm.trans there
  simp only [Ctl.dispatcher.injEq, DispatcherPoint.back.injEq] at same
  exact same

omit [DecidableEq N] [Fintype N] in
theorem awaits_same {s s' : System N}
    (dispatcher : s'.ctl .dispatcherTask = s.ctl .dispatcherTask) (t : Tcb N) (start : UInt32) :
    Awaits s' t start ↔ Awaits s t start := by
  unfold Awaits
  rw [dispatcher]

omit [Fintype N] in
theorem setTask_charge (k : Kernel N) (t u : Tcb N) (more : UInt32) :
    ((k.setTask t fun d => { d with processorTime := d.processorTime + more }).task u).processorTime
      = if u = t then (k.task u).processorTime + more else (k.task u).processorTime := by
  by_cases same : u = t
  · subst same
    simp [Kernel.setTask]
  · simp [Kernel.setTask, same]

/-- The step that switches: the dispatcher charges itself the time since it read the clock. -/
theorem dispatch_time {s s' : System N} {start : UInt32} {next : Tcb N}
    (run : dispatcherStep s (.dispatch start next) = .ok s') :
    s'.kernel.sysclock = s.kernel.sysclock ∧ s'.curr = next ∧
      Awaits s' next s.kernel.sysclock ∧
      ∀ t, (s'.kernel.task t).processorTime =
        if t = .dispatcherTask then (s.kernel.task t).processorTime + (s.kernel.sysclock - start)
        else (s.kernel.task t).processorTime := by
  simp only [dispatcherStep] at run
  obtain ⟨k, switched, rfl⟩ := map_ok run
  obtain ⟨time, dest⟩ := switch_time switched
  have first := setTask_time s.kernel .dispatcherTask
    (f := fun d => { d with activations := d.activations + 1 }) fun _ => rfl
  have second := setTask_time (s.kernel.setTask .dispatcherTask
    fun d => { d with activations := d.activations + 1 }) next
    (f := fun d => { d with activations := d.activations + 1 }) fun _ => rfl
  have same := second.trans first
  have after := time.trans
    (setTask_time _ next (f := fun d => { d with quantum := 0 }) fun _ => rfl)
  simp only [timeView, Prod.mk.injEq] at same after
  refine ⟨after.1, (Option.some.inj dest).symm,
    Function.update_self Tcb.dispatcherTask _ s.ctl, fun t => ?_⟩
  refine (congrFun after.2.1 t).trans ?_
  refine (setTask_charge _ _ t _).trans ?_
  rw [congrFun same.2.1 t]
  rfl

theorem back_time {s s' : System N} {next : Tcb N} {start : UInt32}
    (run : dispatcherStep s (.back next start) = .ok s') :
    s'.kernel.sysclock = s.kernel.sysclock ∧ s'.curr = s.curr ∧
      s'.ctl .dispatcherTask = .dispatcher .top ∧
      ∀ t, (s'.kernel.task t).processorTime =
        if t = next then (s.kernel.task t).processorTime + (s.kernel.sysclock - start)
        else (s.kernel.task t).processorTime := by
  cases run
  refine ⟨rfl, rfl, Function.update_self Tcb.dispatcherTask _ s.ctl, fun t => ?_⟩
  have free : s.kernel.sysclock - s.kernel.sysclock = 0 := by grind
  refine (setTask_charge _ _ t _).trans ?_
  change ite (t = .dispatcherTask) (_ + (s.kernel.sysclock - s.kernel.sysclock)) _ = _
  rw [free, UInt32.add_zero, ite_self]
  exact setTask_charge s.kernel next t _

end Steps

section Reports
variable [Fintype N]

/-- No tick since the dispatcher switched to the task, none before it first did so to main, and
    a number that fits. -/
def Settled (t : Tcb N) (m : Meter) : Prop :=
  m.turn.getD 0 = 0 ∧ (t = .mainTask → m.first = 0) ∧ m.ticks < 2 ^ 32

instance (s : System N) (l : Label N) : Decidable (Regular s l) := by
  unfold Regular
  rcases l with _ | _ | c | _ <;> try infer_instance
  rcases c with _ | _ <;> try infer_instance
  case taskSwitch o => rcases o with _ | _ <;> infer_instance

def begun : Timed (Fin 1) := ⟨bootSystem, fun _ => .fresh⟩

/-- The dispatcher goes around its loop once and switches to a task. -/
def loopOnce : List (Label (Fin 1)) := List.replicate 5 (.run true true)

def mainYields : List (Label (Fin 1)) :=
  [Label.call (.taskInit (.user 0) true), .call .taskYield] ++ loopOnce.tail

end Reports
end ReportedTime
