import PingPong.SystemFrames

/-! The dispatcher loop from its head to the switch: while user tasks are counted and nobody
   sleeps, it hands the processor to a ready task and leaves everything else alone. -/
namespace DispatcherTurns
open MachineModel CircularList QueueModel KernelModel KernelEffects TaskPlacement SystemModel
open SystemFrames TransitionRuns
variable {N : Type} [DecidableEq N] [Fintype N]

structure Turned (s s' : System N) : Prop where
  ctl : ∀ t, t ≠ .dispatcherTask → s'.ctl t = s.ctl t
  lists : tasks s'.kernel = tasks s.kernel
  sem : s'.kernel.sem = s.kernel.sem
  num : s'.kernel.userTasksNum = s.kernel.userTasksNum
  last : s'.kernel.lastTaskId = s.kernel.lastTaskId
  ids : ∀ t, (s'.kernel.task t).id = (s.kernel.task t).id
  mqueue : s'.mqueue = s.mqueue

theorem turned_trans {s s' s'' : System N} (first : Turned s s') (second : Turned s' s'') :
    Turned s s'' :=
  ⟨fun t other => (second.ctl t other).trans (first.ctl t other),
   second.lists.trans first.lists, second.sem.trans first.sem, second.num.trans first.num,
   second.last.trans first.last, fun t => (second.ids t).trans (first.ids t),
   second.mqueue.trans first.mqueue⟩

/-- A step of the dispatcher. -/
def Dispatches (s : System N) (l : Label N) (s' : System N) : Prop :=
  step s l = some (.ok s') ∧ l = .run true true ∧ s.curr = .dispatcherTask

def LoopHead (s : System N) : Prop :=
  s.ctl .dispatcherTask = .dispatcher .top ∨
    ∃ next start, s.ctl .dispatcherTask = .dispatcher (.back next start)

variable {s : System N}

theorem dispatcher_moves (c : Conserved s) (curr : s.curr = .dispatcherTask)
    {point p : DispatcherPoint N} (here : s.ctl .dispatcherTask = .dispatcher point)
    {k : Kernel N} {touched : List TaskQueue}
    (run : dispatcherStep s point = .ok ((s.withKernel k).goto .dispatcherTask (.dispatcher p)))
    (kept : Kept (liveTasks s) touched [] s.kernel k) (lists : tasks k = tasks s.kernel) :
    ∃ s', Dispatches s (.run true true) s' ∧ Conserved s' ∧ Turned s s' ∧ s'.curr = k.curr ∧
      s'.ctl .dispatcherTask = .dispatcher p := by
  have go : step s (.run true true) =
      some (.ok ((s.withKernel k).goto .dispatcherTask (.dispatcher p))) := by
    simp only [step, advance, curr, here, run]
  have permitted : Permitted s (.run true true) := trivial
  refine ⟨_, ⟨go, rfl, curr⟩, (step_kept c permitted go).conserved, ?_, rfl, by simp⟩
  exact ⟨fun t other => by simp [other], lists, funext fun a => kept.sem a (by simp),
    (kept.counters rfl).1, (kept.counters rfl).2, fun t => kept.ids t rfl, rfl⟩

theorem dispatcher_tops (c : Conserved s) (curr : s.curr = .dispatcherTask) (head : LoopHead s) :
    ∃ labels s', Run Dispatches s labels s' ∧ Conserved s' ∧ s'.curr = .dispatcherTask ∧
      s'.ctl .dispatcherTask = .dispatcher .top ∧ Turned s s' := by
  rcases head with top | ⟨next, start, back⟩
  · exact ⟨[], s, .start s, c, curr, top,
      ⟨fun _ _ => rfl, rfl, rfl, rfl, rfl, fun _ => rfl, rfl⟩⟩
  · have first := kept_setTask c.placed next
      (f := fun d => { d with processorTime := d.processorTime + (systime s.kernel - start) })
      (fun _ => rfl) fun _ => rfl
    have second := kept_trans first (kept_setTask first.placed .dispatcherTask
      (f := fun d => { d with processorTime := d.processorTime +
        (systime s.kernel - systime s.kernel) }) (fun _ => rfl) fun _ => rfl)
    obtain ⟨s', fits, c', turned, same, top⟩ := dispatcher_moves c curr back rfl second rfl
    exact ⟨_, s', run_one fits, c', same.trans curr, top, turned⟩

theorem dispatcher_turn (c : Conserved s) (curr : s.curr = .dispatcherTask) (head : LoopHead s)
    (going : 0 < s.kernel.userTasksNum) (nobody : tasks s.kernel .sleepingTasks = [])
    (someone : tasks s.kernel .readyTasks ≠ []) :
    ∃ t ∈ tasks s.kernel .readyTasks, ∃ labels s', Run Dispatches s labels s' ∧ Conserved s' ∧
      s'.curr = t ∧ LoopHead s' ∧ Turned s s' := by
  obtain ⟨labels, s₀, run₀, c₀, curr₀, at₀, same₀⟩ := dispatcher_tops c curr head
  -- the loop goes on
  obtain ⟨s₁, run₁, c₁, same₁, next₁, at₁⟩ := dispatcher_moves c₀ curr₀ at₀ (k := s₀.kernel)
    (by simp only [dispatcherStep, same₀.num, going]; rfl) (kept_refl c₀) rfl
  have curr₁ := next₁.trans curr₀
  -- wake_tasks finds nobody
  obtain ⟨k₂, woken, still₂, _, lists₂, kept₂⟩ := wake_kept c₁.placed
  obtain ⟨s₂, run₂, c₂, same₂, next₂, at₂⟩ := dispatcher_moves c₁ curr₁ at₁ (k := k₂)
    (by simp only [dispatcherStep, woken]; rfl) kept₂
    (lists₂ (by rw [same₁.lists, same₀.lists]; exact nobody))
  have curr₂ := (next₂.trans still₂).trans curr₁
  have whole₂ := turned_trans (turned_trans same₀ same₁) same₂
  -- scheduler picks a ready task
  rcases scheduler_kept c₂.placed with ⟨empty, _⟩ | ⟨t, mem, picked, kept₃⟩
  · rw [whole₂.lists] at empty
    exact absurd empty someone
  · obtain ⟨s₃, run₃, c₃, same₃, next₃, at₃⟩ := dispatcher_moves c₂ curr₂ at₂
      (by simp only [dispatcherStep, picked]; rfl) kept₃ rfl
    obtain ⟨k₄, ran₄, still₄, lists₄, kept₄⟩ := dispatch_kept c₃ at₃
    obtain ⟨s₄, run₄, c₄, same₄, next₄, at₄⟩ := dispatcher_moves c₃ (next₃.trans curr₂) at₃ ran₄
      kept₄ lists₄
    exact ⟨t, by rw [← whole₂.lists]; exact mem, _, s₄,
      .step (.step (.step (.step run₀ run₁) run₂) run₃) run₄, c₄, next₄.trans still₄,
      Or.inr ⟨_, _, at₄⟩, turned_trans (turned_trans whole₂ same₃) same₄⟩

end DispatcherTurns
