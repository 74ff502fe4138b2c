import PingPong.SchedulerAging
import PingPong.SchedulerDecisions

/-!
task_setprio narrows an int to a short, and scheduler lowers the shorts of the tasks it passes
over. Priorities that leave room below for one call a ready task keep their order and never
wrap.
-/
namespace PriorityRange
open MachineModel CircularList QueueModel KernelModel KernelEffects TransitionRuns
open SchedulerAging SchedulerDecisions
variable {N : Type} [DecidableEq N] [Fintype N]

inductive Act (N : Type) where
  | setprio (task : Option (Tcb N)) (prio : Int)
  | queue (e : Event N)

/-- A call of task_setprio, or a step of the scheduler or of the queues, with at most n tasks
    ready. -/
def Follows (n : Nat) (k : Kernel N) (e : Act N × List (Option (Tcb N))) (k' : Kernel N) : Prop :=
  match e.1 with
  | .setprio task prio => intMin ≤ prio ∧ prio ≤ intMax ∧ k' = taskSetprio k task prio ∧
      e.2 = [] ∧ (readyTasks k').length ≤ n
  | .queue event => SchedulerAging.Step n k (event, e.2) k'

def InRange (lo hi : Int) : Act N → Prop
  | .setprio _ prio => lo ≤ prio ∧ prio ≤ hi
  | .queue _ => True

def assigned (k : Kernel N) (task : Option (Tcb N)) (prio : Int) : Task :=
  (taskSetprio k task prio).task (task.getD k.curr)

/-- Whatever the tasks, the smaller prio is stored as the smaller priority. -/
def KeepsOrder (lo hi : Int) (k : Kernel N) : Prop :=
  ∀ t u p q, lo ≤ p → p < q → q ≤ hi →
    (assigned k t p).staticPriority < (assigned k u q).staticPriority ∧
    (assigned k t p).dynamicPriority < (assigned k u q).dynamicPriority

/-- The next call of scheduler lowers every ready task but the one it returns. -/
def Lowers (k : Kernel N) : Prop :=
  ∃ next k', scheduler k = .ok (next, k') ∧
    ∀ t ∈ readyTasks k, next ≠ some t → dynamicPriority k' t < dynamicPriority k t

variable {lo hi : Int} {n : Nat} {k k' : Kernel N}

theorem setprio_aged (a : Aged lo hi n k) (fits : (readyTasks k).length ≤ n)
    (task : Option (Tcb N)) {prio : Int} (low : lo ≤ prio) (high : prio ≤ hi)
    (short : toShort prio = prio) : Aged lo hi n (taskSetprio k task prio) := by
  let target := task.getD k.curr
  have own : ∀ t, t = target → dynamicPriority (taskSetprio k task prio) t = prio ∧
      staticPriority (taskSetprio k task prio) t = prio := by
    rintro t rfl
    simp [dynamicPriority, staticPriority, taskSetprio, Kernel.setTask, target, short]
  have other : ∀ t, t ≠ target →
      dynamicPriority (taskSetprio k task prio) t = dynamicPriority k t ∧
      staticPriority (taskSetprio k task prio) t = staticPriority k t := by
    intro t ne
    have ne' : t ≠ task.getD k.curr := ne
    simp [dynamicPriority, staticPriority, taskSetprio, Kernel.setTask, ne']
  refine ⟨a.wellFormed, ?_, ?_, ?_⟩
  · intro t
    by_cases mine : t = target
    · rw [(own t mine).2]
      exact ⟨low, high⟩
    · rw [(other t mine).2]
      exact a.static t
  · intro t mem
    by_cases mine : t = target
    · rw [(own t mine).1, (own t mine).2]
    · rw [(other t mine).1, (other t mine).2]
      exact a.upper t mem
  · intro pre i post split
    have split' : readyTasks k = pre ++ i :: post := split
    have room := ahead_fits (dynamicPriority (taskSetprio k task prio)) split' fits
    by_cases mine : i = target
    · rw [(own i mine).1]
      omega
    · have keyI := (other i mine).1
      by_cases reached : lo ≤ dynamicPriority k i
      · omega
      · -- i has aged below lo, so the new priority does not get ahead of it
        have before := a.lower pre i post split'
        have fewer : ahead (dynamicPriority (taskSetprio k task prio)) pre post i ≤
            ahead (dynamicPriority k) pre post i := by
          apply Nat.add_le_add
          · apply List.countP_mono_left
            intro x _ less
            by_cases changed : x = target
            · rw [(own x changed).1, keyI, decide_eq_true_eq] at less
              omega
            · rwa [(other x changed).1, keyI] at less
          · apply List.countP_mono_left
            intro x _ less
            by_cases changed : x = target
            · rw [(own x changed).1, keyI, decide_eq_true_eq] at less
              omega
            · rwa [(other x changed).1, keyI] at less
        rw [keyI]
        omega

section Range
variable (high : hi ≤ shrtMax) (low : shrtMin ≤ lo - n + 1) (pos : 0 < n)
include high low

theorem aged_lowers (a : Aged lo hi n k) : Lowers k := by
  rcases perform_schedule a.wellFormed with ⟨empty, -⟩ | ⟨c, least, -⟩
  · refine ⟨none, k, scheduler_empty a.wellFormed empty, fun t mem _ => ?_⟩
    rw [empty] at mem
    cases mem
  · have ready : readyTasks k ≠ [] := List.ne_nil_of_mem (firstLeast_mem least)
    obtain ⟨d, least, run⟩ := scheduler_spec a.wellFormed ready
    refine ⟨_, _, run, fun t mem passed => ?_⟩
    have other : t ≠ d := fun same => passed (by rw [same])
    have ages := passed_ages high low a least mem other
    have lowered : dynamicPriority { k with task := agedTasks k (readyTasks k) d } t =
        dynamicPriority k t - 1 := by
      change (agedTasks k (readyTasks k) d t).dynamicPriority = _
      simp only [agedTasks, other, mem, ↓reduceIte]
      exact ages
    change dynamicPriority { k with task := agedTasks k (readyTasks k) d } t < _
    omega

include pos

theorem prio_fits {prio : Int} (above : lo ≤ prio) (below : prio ≤ hi) : toShort prio = prio := by
  apply toShort_eq_self <;> omega

omit [Fintype N] in
theorem range_keepsOrder (k : Kernel N) : KeepsOrder lo hi k := by
  intro t u p q least less most
  have fitsP := prio_fits high low pos least (by omega : p ≤ hi)
  have fitsQ := prio_fits high low pos (by omega : lo ≤ q) most
  simp only [assigned, taskSetprio, Kernel.setTask, Function.update_self, fitsP, fitsQ]
  exact ⟨less, less⟩

theorem follows_aged {e : Act N × List (Option (Tcb N))}
    (inv : Aged lo hi n k ∧ (readyTasks k).length ≤ n)
    (go : Follows n k e k') (range : InRange lo hi e.1) :
    Aged lo hi n k' ∧ (readyTasks k').length ≤ n := by
  obtain ⟨a, fits⟩ := inv
  obtain ⟨act, out⟩ := e
  cases act with
  | setprio task prio =>
    obtain ⟨-, -, rfl, -, fits'⟩ := go
    have short := prio_fits high low pos range.1 range.2
    exact ⟨setprio_aged a fits task range.1 range.2 short, fits'⟩
  | queue event => exact ⟨step_aged high low a go, go.2.2⟩

theorem aging_never_wraps {k₀ : Kernel N} {past} (start : Start lo hi n k₀)
    (run : Run (fun k e k' => Follows n k e k' ∧ InRange lo hi e.1) k₀ past k) :
    KeepsOrder lo hi k ∧ Lowers k := by
  have inv : Aged lo hi n k ∧ (readyTasks k).length ≤ n :=
    run_invariant (fun k => Aged lo hi n k ∧ (readyTasks k).length ≤ n)
      (fun _ _ _ inv go => follows_aged high low pos inv go.1 go.2) run
      ⟨start_aged start, start.fits⟩
  exact ⟨range_keepsOrder high low pos k, aged_lowers high low inv.1⟩

end Range

theorem twoReady_start {p q : Int} (least : lo ≤ p ∧ lo ≤ q ∧ lo ≤ 0)
    (most : p ≤ hi ∧ q ≤ hi ∧ 0 ≤ hi) : Start lo hi 2 (twoReady p q) := by
  have lists := (twoReady_represents p q).elems_eq
  have ready : readyTasks (twoReady p q) = [.mainTask, .user 0] := congrFun lists .readyTasks
  refine ⟨(twoReady_represents p q).read_back, by rw [ready]; decide, fun t => ?_, fun t mem => ?_⟩
  · cases t with
    | mainTask => exact ⟨least.1, most.1⟩
    | user n => exact ⟨least.2.1, most.2.1⟩
    | dispatcherTask => exact ⟨least.2.2, most.2.2⟩
    | diskDriverTask => exact ⟨least.2.2, most.2.2⟩
  · cases t <;> rfl

theorem two_tasks_keep_their_order : ∃ k k' : Kernel (Fin 1),
    Follows 2 (twoReady 0 20) (.setprio none 20, []) k ∧
    Follows 2 k (.queue .schedule, [some .mainTask]) k' ∧ KeepsOrder (-20) 20 k' ∧ Lowers k' := by
  let k := taskSetprio (twoReady 0 20) none 20
  have picks : ((perform k .schedule).toOption.any fun r => decide
      (r.2 = [some .mainTask] ∧ (readyTasks r.1).length ≤ 2)) = true := by decide +kernel
  obtain ⟨⟨k', out⟩, found, picked⟩ := Option.any_eq_true _ _ |>.mp picks
  obtain ⟨rfl, fits⟩ := of_decide_eq_true picked
  have ran : perform k .schedule = .ok (k', [some .mainTask]) := by
    cases result : perform k .schedule with
    | error halt => rw [result] at found; cases found
    | ok r => rw [result] at found; cases found; rfl
  have first : Follows 2 (twoReady 0 20) (.setprio none 20, []) k :=
    ⟨by decide, by decide, rfl, rfl, by decide +kernel⟩
  have second : Follows 2 k (.queue .schedule, [some .mainTask]) k' := ⟨trivial, ran, fits⟩
  have start : Start (-20) 20 2 (twoReady 0 20) := twoReady_start (by decide) (by decide)
  have orderly := aging_never_wraps (by decide) (by decide) (by decide) start
    (run_cons ⟨first, by decide, by decide⟩ (run_one ⟨second, trivial⟩))
  exact ⟨k, k', first, second, orderly⟩

/-- Both tasks are given the lowest short, and the second one is passed over. -/
theorem lowest_priority_wraps :
    (¬ ∀ (n : Nat) (lo hi : Int) (k₀ k : Kernel (Fin 1)) past, Start lo hi n k₀ →
      Run (Follows n) k₀ past k → KeepsOrder intMin intMax k) ∧
    ¬ ∀ (n : Nat) (lo hi : Int) (k₀ k : Kernel (Fin 1)) past, Start lo hi n k₀ →
      Run (Follows n) k₀ past k → Lowers k := by
  have start : Start 0 0 2 (twoReady 0 0) := twoReady_start (by decide) (by decide)
  constructor
  · intro claim
    have order := claim _ _ _ _ _ _ start (.start _) none none 0 32768 (by decide) (by decide)
      (by decide)
    exact absurd order.1 (by decide)
  · intro claim
    let k₁ := taskSetprio (twoReady 0 0) none (-32768)
    let k₂ := taskSetprio k₁ (some (.user 0)) (-32768)
    have first : Follows 2 (twoReady 0 0) (.setprio none (-32768), []) k₁ :=
      ⟨by decide, by decide, rfl, rfl, by decide +kernel⟩
    have second : Follows 2 k₁ (.setprio (some (.user 0)) (-32768), []) k₂ :=
      ⟨by decide, by decide, rfl, rfl, by decide +kernel⟩
    obtain ⟨next, k₃, ran, lowers⟩ := claim _ _ _ _ _ _ start (run_cons first (run_one second))
    have wraps : (scheduler k₂).toOption.map
        (fun r => (r.1, dynamicPriority r.2 (.user 0), dynamicPriority k₂ (.user 0))) =
          some (some .mainTask, 32767, -32768) := by decide +kernel
    rw [ran] at wraps
    simp only [Except.toOption, Option.map_some, Option.some.injEq, Prod.mk.injEq] at wraps
    obtain ⟨picked, high, low⟩ := wraps
    have ready : (.user 0 : Tcb (Fin 1)) ∈ readyTasks k₂ := by decide +kernel
    have lowered := lowers (.user 0) ready (by rw [picked]; decide)
    rw [high, low] at lowered
    exact absurd lowered (by decide)

end PriorityRange
