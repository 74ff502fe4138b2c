import PingPong.ProcessorTime
import PingPong.SchedulerAging
import PingPong.TaskRecords

/-!
The ageing scheduler at work in the whole system. A task leaves ready_tasks from the processor
only, with the priority that the scheduler has just given back to it, so whoever joins has not
aged, and a task that stays ready waits for a bounded number of decisions.
-/
namespace SystemScheduling
open MachineModel CircularList QueueModel KernelModel KernelEffects TaskPlacement SystemModel
open SystemFrames TransitionRuns TaskConservation KernelActs ProcessorTime TaskRecords
open SchedulerAging (readyTasks dynamicPriority staticPriority Aged ahead ahead_fits ahead_sublist
  sublist_split schedule_aged passed_ages)
variable {N : Type} [DecidableEq N] [Fintype N]

section Ranks
variable {T : Type}

theorem ahead_thinned (key : T → Int) (q : T → Bool) (pre post : List T) (i : T)
    (rest : ∀ x ∈ pre ++ post, key x ≤ key i → q x = true) :
    ahead key pre post i = ahead key (pre.filter q) (post.filter q) i := by
  have before : ∀ x ∈ pre, key x ≤ key i → q x = true :=
    fun x mem => rest x (List.mem_append_left _ mem)
  have after : ∀ x ∈ post, key x < key i → q x = true :=
    fun x mem less => rest x (List.mem_append_right _ mem) less.le
  simp only [ahead, List.countP_filter]
  congr 1
  · refine List.countP_congr fun x mem => ?_
    simp only [decide_eq_true_eq, Bool.and_eq_true]
    exact ⟨fun le => ⟨le, before x mem le⟩, And.left⟩
  · refine List.countP_congr fun x mem => ?_
    simp only [decide_eq_true_eq, Bool.and_eq_true]
    exact ⟨fun less => ⟨less, after x mem less⟩, And.left⟩

theorem ahead_congr (key key' : T → Int) (pre post : List T) (i : T)
    (same : ∀ x ∈ pre ++ i :: post, key' x = key x) :
    ahead key' pre post i = ahead key pre post i := by
  have own : key' i = key i := same i (by simp)
  simp only [ahead]
  congr 1
  · refine List.countP_congr fun x mem => ?_
    rw [same x (by simp [mem]), own]
  · refine List.countP_congr fun x mem => ?_
    rw [same x (by simp [mem]), own]

end Ranks

section Flows
variable {k j k' : Kernel N} {live : Tcb N → Bool}

/-- Of the ready tasks only the running one may leave; the others keep their order, and those
    that join stand behind them. -/
structure Flow (k k' : Kernel N) : Prop where
  lists : ∃ kept joined, readyTasks k' = kept ++ joined ∧ kept.Sublist (readyTasks k) ∧
    ∀ t ∈ joined, t ∉ readyTasks k
  stays : ∀ t ∈ readyTasks k, t ≠ k.curr → t ∈ readyTasks k'

theorem flow_same (lists : readyTasks k' = readyTasks k) : Flow k k' :=
  ⟨⟨readyTasks k, [], lists.trans (List.append_nil _).symm, List.Sublist.refl _, by simp⟩,
   fun _ mem _ => lists ▸ mem⟩

theorem flow_joined (joined : List (Tcb N))
    (lists : readyTasks k' = readyTasks k ++ joined)
    (fresh : ∀ t ∈ joined, t ∉ readyTasks k) : Flow k k' :=
  ⟨⟨readyTasks k, joined, lists, List.Sublist.refl _, fresh⟩,
   fun _ mem _ => lists ▸ List.mem_append_left _ mem⟩

theorem flow_left (joined : List (Tcb N))
    (lists : readyTasks k' = (readyTasks k).erase k.curr ++ joined)
    (fresh : ∀ t ∈ joined, t ∉ readyTasks k) : Flow k k' := by
  refine ⟨⟨_, joined, lists, List.erase_sublist, fresh⟩, fun t mem other => ?_⟩
  have still := List.mem_append_left joined ((List.mem_erase_of_ne other).mpr mem)
  exact lists ▸ still

theorem flow_after (quiet : Quiet k j) (flow : Flow j k') : Flow k k' := by
  have lists : readyTasks j = readyTasks k := congrFun quiet.lists .readyTasks
  obtain ⟨⟨kept, joined, split, sub, fresh⟩, stays⟩ := flow
  rw [lists] at sub fresh stays
  rw [quiet.curr] at stays
  exact ⟨⟨kept, joined, split, sub, fresh⟩, stays⟩

theorem flow_suspend (p : Placed live k) (user : k.curr ≠ .dispatcherTask) {q : TaskQueue}
    (other : q ≠ .readyTasks) (run : taskSuspend k (some q) = .ok k') : Flow k k' := by
  obtain ⟨m, known, lists, -⟩ := TaskPlacement.suspend_kept p user q
  cases known.symm.trans run
  refine flow_left [] ?_ (by simp)
  change elems m .readyTasks = _
  rw [lists, moveTask_source _ other.symm, List.append_nil]
  rfl

theorem waits_elsewhere (p : Placed live k) {t : Tcb N} {q : TaskQueue}
    (other : q ≠ .readyTasks) (mem : t ∈ tasks k q) : t ∉ readyTasks k :=
  fun ready => other (p.wellFormed.unique mem ready)

theorem flow_resume (p : Placed live k) {t : Tcb N} (on : live t = true)
    (user : t ≠ .dispatcherTask) {q : TaskQueue} (other : q ≠ .readyTasks)
    (run : taskResume k (some t) (some q) = .ok k') : Flow k k' := by
  obtain ⟨_, known, -, -, moved, stays, -⟩ := resume_any p on user q
  cases known.symm.trans run
  by_cases inside : t ∈ tasks k q
  · refine flow_joined [t] ?_ ?_
    · exact (congrFun (moved inside) .readyTasks).trans (moveTask_target t other)
    · intro a mem
      rw [List.mem_singleton.mp mem]
      exact waits_elsewhere p other inside
  · exact flow_same (congrFun (stays inside) .readyTasks)

theorem flow_resumed (p : Placed live k) {q : TaskQueue} (other : q ≠ .readyTasks)
    {condition : Tcb N → Bool}
    (lists : tasks k' = resumeLists (tasks k) q condition (tasks k q) []) : Flow k k' := by
  refine flow_joined ((tasks k q).filter condition) ?_ ?_
  · exact (congrFun lists .readyTasks).trans (resumeLists_target ..)
  · intro t mem
    exact waits_elsewhere p other (List.mem_filter.mp mem).1

theorem flow_drain (p : Placed live k) {q : TaskQueue} (other : q ≠ .readyTasks)
    (run : drainQueue q (Fintype.card (Tcb N)) k = .ok k') : Flow k k' := by
  obtain ⟨m, known, lists, -⟩ := TaskPlacement.drain_kept p other
  cases known.symm.trans run
  exact flow_resumed p other lists

theorem flow_wake (p : Placed live k) (run : wakeTasks k = .ok k') : Flow k k' := by
  obtain ⟨m, known, lists, -⟩ := TaskPlacement.resumeWhere_kept p (q := .sleepingTasks) (by decide)
    (fun d => d.wakeUpTime ≤ systime k) id fun _ => rfl
  cases known.symm.trans run
  exact flow_resumed p (by decide) lists

theorem flow_init (p : Placed live k) {t : Tcb N} (dead : live t = false) {stack : Bool} {id : Int}
    (run : taskInit k t stack = .ok (k', id)) : Flow k k' := by
  cases stack with
  | false => cases run
  | true =>
    obtain ⟨_, _, known, -, -, lists, -⟩ := taskInit_moved p dead
    cases known.symm.trans run
    refine flow_joined [t] ((congrFun lists .readyTasks).trans
      (listAppend_same ..)) ?_
    intro a mem ready
    rw [List.mem_singleton.mp mem] at ready
    have on := ((p.queued t).mp ⟨_, ready⟩).1
    rw [dead] at on
    cases on

theorem flow_exit (p : Placed live k) (user : k.curr ≠ .dispatcherTask) {code : Int}
    (run : taskExit k code = .ok k') : Flow k k' := by
  obtain ⟨m, resume, lists, kept⟩ := TaskPlacement.resumeWhere_kept (exitRecord_placed p code)
    (q := .suspendedTasks) (by decide)
    (fun d => d.waitingTask = ((exitRecord k code).task k.curr).id)
    (fun d => { d with waitingTask := -1 }) fun _ => rfl
  rw [taskExit_eq, resume] at run
  simp only [Except.bind] at run
  split at run
  · cases run
  · obtain ⟨m', r, remove, gone, -⟩ := removal_moved kept.placed user 0
    have remove' : queueRemove m (some .readyTasks) (some k.curr) = .ok (m', r) := remove
    rw [remove'] at run
    cases run
    have mem : k.curr ∈ tasks k .readyTasks := current_ready p user
    refine flow_left ((tasks k .suspendedTasks).filter fun t =>
      ((exitRecord k code).task t).waitingTask = ((exitRecord k code).task k.curr).id) ?_ ?_
    · change elems m' .readyTasks = _
      have gone' : elems m' = listRemove (elems m) .readyTasks k.curr := gone
      rw [gone', listRemove_same, lists, resumeLists_target]
      exact List.erase_append_left _ mem
    · intro t mem
      exact waits_elsewhere p (by decide) (List.mem_filter.mp mem).1

theorem flow_act (p : Placed live k) (user : k.curr ≠ .dispatcherTask) (act : Act k k') :
    Flow k k' := by
  cases act with
  | quiet idle => exact flow_after idle (flow_same rfl)
  | suspend before other run =>
    have placed := quiet_placed before p
    exact flow_after before (flow_suspend placed (before.curr ▸ user) other run)
  | @resume j _ q before other run =>
    have placed := quiet_placed before p
    refine flow_after before ?_
    cases first : j.queues.head q with
    | none =>
      rw [first] at run
      cases run
    | some t =>
      rw [first] at run
      have mem : t ∈ tasks j q := by
        refine List.mem_of_head? ?_
        rw [← placed.wellFormed.head q, first]
      obtain ⟨on, other'⟩ := (placed.queued t).mp ⟨q, mem⟩
      exact flow_resume placed on other' other run
  | drain before other run =>
    exact flow_after before (flow_drain (quiet_placed before p) other run)

end Flows

section Motions
variable {s s' : System N}

/-- What a step does to ready_tasks, to the processor, and to the task the dispatcher has chosen,
    if all switching goes through the dispatcher. -/
inductive Motion (s s' : System N) : Event N → Prop where
  | schedule (start : UInt32) (next : Tcb N) (curr : s'.curr = .dispatcherTask)
      (lists : readyTasks s'.kernel = readyTasks s.kernel)
      (chosen : s'.ctl .dispatcherTask = .dispatcher (.dispatch start next)) :
      Motion s s' (.schedule next)
  | turn (start now : UInt32) (next : Tcb N) (curr : s'.curr = next)
      (lists : readyTasks s'.kernel = readyTasks s.kernel)
      (chosen : s.ctl .dispatcherTask = .dispatcher (.dispatch start next))
      (away : s'.ctl .dispatcherTask = .dispatcher (.back next now)) : Motion s s' (.turn next)
  | flow (e : Event N) (plain : ∀ next, e ≠ .schedule next ∧ e ≠ .turn next)
      (flow : Flow s.kernel s'.kernel)
      (curr : s'.curr = s.curr ∨ s'.curr = .dispatcherTask)
      (chosen : ∀ start next, s'.ctl .dispatcherTask = .dispatcher (.dispatch start next) →
        s.ctl .dispatcherTask = .dispatcher (.dispatch start next)) : Motion s s' e

theorem untimed_motion {e : Event N} (plain : ∀ next, e ≠ .schedule next ∧ e ≠ .turn next)
    (flow : Flow s.kernel s'.kernel) (untimed : Untimed s s') : Motion s s' e :=
  .flow e plain flow untimed.curr fun start next chosen => by
    rwa [untimed.dispatcher] at chosen

theorem dispatcher_motion (c : Conserved s) {point : DispatcherPoint N}
    (here : s.ctl .dispatcherTask = .dispatcher point) (idle : s.curr = .dispatcherTask)
    (run : dispatcherStep s point = .ok s') {m₁ m₂ : Bool} :
    Motion s s' (event s s' (.run m₁ m₂)) := by
  simp only [event, idle, here]
  cases point with
  | top =>
    simp only [dispatcherStep] at run
    split at run
    · cases run
      exact .flow _ (by simp) (flow_same rfl) (Or.inl rfl) (by simp)
    · obtain ⟨k, ended, -⟩ := map_ok run
      rw [taskExit_dispatcher c.placed idle c.dispatcherId] at ended
      cases ended
  | wake start =>
    obtain ⟨k, woken, rfl⟩ := map_ok run
    exact .flow _ (by simp) (flow_wake c.placed woken) (Or.inl (wake_time woken).2) (by simp)
  | schedule start =>
    obtain ⟨⟨next, k⟩, picked, same⟩ := map_ok run
    dsimp only at same
    cases next with
    | none =>
      subst same
      obtain ⟨-, rfl⟩ := scheduler_idle c.placed picked
      exact .flow _ (by simp) (flow_same rfl) (Or.inl rfl) (by simp)
    | some next =>
      subst same
      obtain ⟨-, -, queues⟩ := scheduler_entry c.placed picked
      have curr := (scheduler_time picked).2
      simp only [System.goto_ctl, Function.update_self]
      refine .schedule start next (curr.trans idle) ?_ (by simp)
      exact congrArg (fun m => elems m .readyTasks) queues
  | dispatch start next =>
    simp only [dispatcherStep] at run
    obtain ⟨k, switched, rfl⟩ := map_ok run
    have dest := (Option.some.inj (switch_time switched).2).symm
    cases switched
    exact .turn start _ next dest rfl here (by simp; rfl)
  | back next start =>
    cases run
    exact .flow _ (by simp) (flow_same rfl) (Or.inl rfl) (by simp)

theorem run_motion (c : Conserved s) {m₁ m₂ : Bool} (next : advance s m₁ m₂ = some (.ok s')) :
    Motion s s' (event s s' (.run m₁ m₂)) := by
  have alive : live (s.ctl s.curr) = true := current_live c.placed
  by_cases idle : s.curr = .dispatcherTask
  · obtain ⟨point, here⟩ := dispatcher_point c
    simp only [advance, idle, here] at next
    exact dispatcher_motion c here idle (Option.some.inj next)
  · have away := user_point c idle
    have none : event s s' (.run m₁ m₂) = .none := by
      simp only [event]
      split
      · rename_i here _
        exact absurd here (away _)
      · rename_i start next here
        exact absurd here (away _)
      · rfl
    rw [none]
    refine untimed_motion (by simp) ?_ (advance_untimed alive idle away next)
    by_cases wakes : ∃ block buffer op, s.ctl s.curr = .blockOp block buffer op .resume
    · obtain ⟨block, buffer, op, here⟩ := wakes
      simp only [advance, here, Option.some.injEq] at next
      rcases (wake_driver next).1 with ⟨asleep, resumed⟩ | ⟨-, same⟩
      · exact flow_resume c.placed (suspended_driver_lives c asleep) (by simp) (by simp) resumed
      · exact flow_same (by rw [same])
    · exact flow_act c.placed idle (advance_acts alive away
        (fun block buffer op here => wakes ⟨block, buffer, op, here⟩) next).kernel

/-- All switching goes through the dispatcher, and priorities are set between lo and hi. -/
def Prioritised (lo hi : Int) : Label N → Prop
  | .call (.taskSwitch (some t)) => t = .dispatcherTask
  | .call (.taskSetprio _ prio) => lo ≤ prio ∧ prio ≤ hi
  | _ => True

theorem call_motion (c : Conserved s) {call' : Call N} {r : Int} (body : s.ctl s.curr = .body r)
    (permitted : Permitted s (.call call')) {lo hi : Int}
    (prioritised : Prioritised lo hi (.call call' : Label N)) (run : call s call' = .ok s') :
    Motion s s' (event s s' (.call call')) := by
  have user := body_user c body
  have driver := body_not_driver c body
  have untimed := fun init manager exit switch =>
    call_untimed c.placed user permitted init manager exit switch run
  have flows := fun init manager exit yield switch =>
    flow_act c.placed user (call_acts c.placed permitted init manager exit yield switch run).kernel
  cases call' with
  | taskInit t stack =>
    have begins := init_begins user c.placed.dispatcher permitted.1 run
    obtain ⟨⟨k, id⟩, started, rfl⟩ := map_ok run
    refine .flow _ (by simp [event]) (flow_init c.placed permitted.1 started)
      (Or.inl begins.curr) ?_
    intro start next chosen
    rwa [begins.dispatcher] at chosen
  | diskMgrInit host stack =>
    have plain : ∀ next, event s s' (.call (.diskMgrInit host stack)) ≠ .schedule next ∧
        event s s' (.call (.diskMgrInit host stack)) ≠ .turn next := by
      intro next
      simp only [event]
      split
      · simp
      · simp
    rcases manager_time c.placed user driver permitted run with ⟨untimed, -⟩ | ⟨unknown, -, begins⟩
    · rcases manager_acts c.placed permitted run with acts | ⟨unknown, j, id, quiet, started, -⟩
      · exact untimed_motion plain (flow_act c.placed user acts.kernel) untimed
      · exact untimed_motion plain (flow_after quiet (flow_init (quiet_placed quiet c.placed)
          (permitted unknown).1 started)) untimed
    · have flow : Flow s.kernel s'.kernel := by
        rcases manager_acts c.placed permitted run with acts | ⟨-, j, id, quiet, started, -⟩
        · exact flow_act c.placed user acts.kernel
        · exact flow_after quiet (flow_init (quiet_placed quiet c.placed)
            (permitted unknown).1 started)
      refine .flow _ plain flow (Or.inl begins.curr) ?_
      intro start next chosen
      rwa [begins.dispatcher] at chosen
  | taskExit code =>
    obtain ⟨-, -, curr, dispatcher⟩ := exit_leaves user run
    obtain ⟨k, ended, rfl⟩ := map_ok run
    refine .flow _ (by simp [event]) (flow_exit c.placed user ended) (Or.inr curr) ?_
    intro start next chosen
    rwa [dispatcher] at chosen
  | taskYield =>
    have quiet := untimed (by simp) (by simp) (by simp) (by simp)
    simp only [call, taskYield] at run
    obtain ⟨k, switched, rfl⟩ := map_ok run
    cases switched
    exact untimed_motion (by simp [event]) (flow_same rfl) quiet
  | taskSwitch t =>
    have dest : ∀ u, Call.taskSwitch t = .taskSwitch (some u) → u = .dispatcherTask := by
      intro u same
      cases same
      exact prioritised
    have quiet := untimed (by simp) (by simp) (by simp) dest
    obtain ⟨k, switched, rfl⟩ := map_ok run
    cases t with
    | none => cases switched
    | some t =>
      cases switched
      exact untimed_motion (by simp [event]) (flow_same rfl) quiet
  | taskSleep | taskWait | taskSetprio | taskGetprio | semInit | semDown | semUp | semDestroy
  | mqueueInit | mqueueSend | mqueueRecv | mqueueDestroy | mqueueMsgs | diskBlockRead
  | diskBlockWrite | store =>
    exact untimed_motion (by simp [event]) (flows (by simp) (by simp) (by simp) (by simp) (by simp))
      (untimed (by simp) (by simp) (by simp) (by simp))

theorem step_motion (c : Conserved s) {l : Label N} (go : Operates s l s') {lo hi : Int}
    (prioritised : Prioritised lo hi l) : Motion s s' (event s s' l) := by
  obtain ⟨next, permitted⟩ := go
  cases l with
  | tick =>
    obtain ⟨k, handled, rfl⟩ := map_ok (Option.some.inj next)
    obtain ⟨_, known, lists, -⟩ := tick_kept c.placed
    cases known.symm.trans handled
    exact .flow _ (by simp [event]) (flow_same (congrFun lists .readyTasks))
      (tick_time handled).2.2.2 fun _ _ chosen => chosen
  | completion =>
    obtain ⟨op, run⟩ := completion_runs next
    obtain ⟨on, resumed, -⟩ := sighandle_returns run
    exact untimed_motion (by simp [event]) (flow_resume c.placed (c.handler on) (by simp) (by simp)
      resumed) (completion_untimed next)
  | call c' =>
    obtain ⟨r, body, run⟩ := call_runs next
    exact call_motion c body permitted prioritised run
  | run m₁ m₂ => exact run_motion c next

end Motions
section Ages
variable {k k' : Kernel N} {lo hi : Int} {n : Nat}

/-- The task has not aged since the scheduler, task_init or task_setprio set its priority. -/
def Reset (k : Kernel N) (t : Tcb N) : Prop := dynamicPriority k t = staticPriority k t

instance (k : Kernel N) (t : Tcb N) : Decidable (Reset k t) := inferInstanceAs (Decidable (_ = _))

def Repriced (lo hi : Int) (k k' : Kernel N) : Prop :=
  ∀ t, (Reset k' t ∧ lo ≤ staticPriority k' t ∧ staticPriority k' t ≤ hi) ∨
    (dynamicPriority k' t = dynamicPriority k t ∧ staticPriority k' t = staticPriority k t)

omit [DecidableEq N] [Fintype N] in
theorem repriced_reset (repriced : Repriced lo hi k k') {t : Tcb N} (reset : Reset k t) :
    Reset k' t := by
  rcases repriced t with ⟨reset', -⟩ | ⟨dynamic, static⟩
  · exact reset'
  · exact dynamic.trans (reset.trans static.symm)

omit [DecidableEq N] [Fintype N] in
theorem repriced_static (repriced : Repriced lo hi k k')
    (range : ∀ t, lo ≤ staticPriority k t ∧ staticPriority k t ≤ hi) (t : Tcb N) :
    lo ≤ staticPriority k' t ∧ staticPriority k' t ≤ hi := by
  rcases repriced t with ⟨-, range'⟩ | ⟨-, static⟩
  · exact range'
  · rw [static]
    exact range t

/-- A task that has not aged is no nearer to the limit than lo, and whoever has it ahead is not
    either: only the aged ones count, and they stand in their old order. -/
theorem repriced_aged (a : Aged lo hi n k) (repriced : Repriced lo hi k k')
    (wellFormed : Represents k'.queues (elems k'.queues)) (fits : (readyTasks k').length ≤ n)
    (order : ((readyTasks k').filter fun t => ¬ Reset k' t).Sublist (readyTasks k)) :
    Aged lo hi n k' := by
  have static := repriced_static repriced a.static
  have older : ∀ t, ¬ Reset k' t → dynamicPriority k' t = dynamicPriority k t ∧
      staticPriority k' t = staticPriority k t := by
    intro t aged
    rcases repriced t with ⟨reset, -⟩ | same
    · exact absurd reset aged
    · exact same
  refine ⟨wellFormed, static, ?_, ?_⟩
  · intro t mem
    by_cases reset : Reset k' t
    · exact reset.le
    · have before : t ∈ readyTasks k :=
        order.subset (List.mem_filter.mpr ⟨mem, by simpa using reset⟩)
      obtain ⟨dynamic, same⟩ := older t reset
      rw [dynamic, same]
      exact a.upper t before
  · intro pre i post split
    have room := ahead_fits (dynamicPriority k') split fits
    have low : ∀ x, Reset k' x → lo ≤ dynamicPriority k' x := fun x reset => by
      rw [reset]
      exact (static x).1
    by_cases reset : Reset k' i
    · have bound := low i reset
      omega
    · by_cases overtaken : ∃ x ∈ pre ++ post, dynamicPriority k' x ≤ dynamicPriority k' i ∧
          Reset k' x
      · obtain ⟨x, -, le, resetX⟩ := overtaken
        have bound := low x resetX
        omega
      · -- nobody who has been reset is ahead of i
        have thin := ahead_thinned (dynamicPriority k') (fun t => ¬ Reset k' t) pre post i
          fun x mem le => by
            simp only [decide_eq_true_eq]
            exact fun resetX => overtaken ⟨x, mem, le, resetX⟩
        rw [split, List.filter_append, List.filter_cons_of_pos (by simpa using reset)] at order
        obtain ⟨pre₀, post₀, whole, before, after⟩ := sublist_split order
        have same := ahead_congr (dynamicPriority k) (dynamicPriority k')
          (pre.filter fun t => ¬ Reset k' t) (post.filter fun t => ¬ Reset k' t) i fun x mem => by
            refine (older x ?_).1
            rcases List.mem_append.mp mem with inPre | inRest
            · simpa using (List.mem_filter.mp inPre).2
            · rcases List.mem_cons.mp inRest with rfl | inPost
              · exact reset
              · simpa using (List.mem_filter.mp inPost).2
        have fewer := ahead_sublist (dynamicPriority k) i before after
        have old := a.lower pre₀ i post₀ whole
        rw [thin, same, (older i reset).1]
        omega

/-- Nobody joins ready_tasks aged. -/
theorem flow_aged (a : Aged lo hi n k) (flow : Flow k k') (repriced : Repriced lo hi k k')
    (wellFormed : Represents k'.queues (elems k'.queues)) (fits : (readyTasks k').length ≤ n)
    (idle : ∀ t ∈ readyTasks k', t ∉ readyTasks k → Reset k t) : Aged lo hi n k' := by
  obtain ⟨kept, joined, split, sub, fresh⟩ := flow.lists
  refine repriced_aged a repriced wellFormed fits ?_
  have none : joined.filter (fun t => ¬ Reset k' t) = [] := by
    refine List.filter_eq_nil_iff.mpr fun t mem => ?_
    have joins : t ∈ readyTasks k' := by rw [split]; exact List.mem_append_right _ mem
    have reset := repriced_reset repriced (idle t joins (fresh t mem))
    simpa using reset
  rw [split, List.filter_append, none, List.append_nil]
  exact List.filter_sublist.trans sub

end Ages

section Fairness
variable {s s' : System N} {lo hi : Int}

theorem entry_same {e : Event N} (entry : Entry s s' e) {t : Tcb N}
    (priority : ∀ prio, e ≠ .priority t prio) (begins : e ≠ .begins t)
    (schedule : ∀ next, e ≠ .schedule next) :
    dynamicPriority s'.kernel t = dynamicPriority s.kernel t ∧
      staticPriority s'.kernel t = staticPriority s.kernel t := by
  suffices same : ((registry s'.kernel).record t).dynamicPriority =
      ((registry s.kernel).record t).dynamicPriority ∧
      ((registry s'.kernel).record t).staticPriority =
        ((registry s.kernel).record t).staticPriority from same
  cases entry with
  | none same => rw [same]; exact ⟨rfl, rfl⟩
  | tick passed => rw [passed]; exact ⟨rfl, rfl⟩
  | schedule next => exact absurd rfl (schedule next)
  | priority u prio set =>
    have apart : t ≠ u := fun same => priority prio (same ▸ rfl)
    rw [set]
    simp [Registry.reprioritised, Registry.set, apart]
  | begins u _ fresh =>
    have apart : t ≠ u := fun same => begins (same ▸ rfl)
    rw [fresh]
    simp [Registry.begins, Registry.set, apart]
  | ends code time user program printed =>
    rw [printed]
    by_cases own : t = s.curr
    · subst own
      simp [Registry.ends, Registry.set]
    · simp [Registry.ends, Registry.set, own]
  | turn next user counted =>
    rw [counted]
    by_cases own : t = next
    · subst own
      simp [Registry.turn, Registry.set, user]
    · by_cases dispatcher : t = .dispatcherTask
      · subst dispatcher
        simp [Registry.turn, Registry.set, own]
      · simp [Registry.turn, Registry.set, own, dispatcher]

omit [Fintype N] in
theorem event_range {l : Label N} (prioritised : Prioritised lo hi l) {t : Tcb N} {prio : Int}
    (sets : event s s' l = .priority t prio) : lo ≤ prio ∧ prio ≤ hi := by
  unfold event at sets
  split at sets <;> try cases sets
  · exact prioritised
  · split at sets <;> cases sets
  · split at sets <;> cases sets

theorem entry_repriced (low : shrtMin ≤ lo) (high : hi ≤ shrtMax) (zero : lo ≤ 0 ∧ 0 ≤ hi)
    {e : Event N} (entry : Entry s s' e) (schedule : ∀ next, e ≠ .schedule next)
    (range : ∀ t prio, e = .priority t prio → lo ≤ prio ∧ prio ≤ hi) :
    Repriced lo hi s.kernel s'.kernel := by
  intro t
  by_cases sets : ∃ prio, e = .priority t prio
  · obtain ⟨prio, rfl⟩ := sets
    have limits := range t prio rfl
    have fits : toShort prio = prio := toShort_eq_self (by omega) (by omega)
    cases entry with
    | priority _ _ set =>
      have own : (registry s'.kernel).record t = _ := congrFun (congrArg Registry.record set) t
      simp only [Registry.reprioritised, Registry.set, Function.update_self, fits] at own
      have dynamic : dynamicPriority s'.kernel t = prio := congrArg Record.dynamicPriority own
      have static : staticPriority s'.kernel t = prio := congrArg Record.staticPriority own
      exact Or.inl ⟨dynamic.trans static.symm, by rw [static]; exact limits⟩
  · by_cases starts : e = .begins t
    · subst starts
      cases entry with
      | begins _ _ fresh =>
        have own : (registry s'.kernel).record t = _ := congrFun (congrArg Registry.record fresh) t
        simp only [Registry.begins, Registry.set, Function.update_self] at own
        have dynamic : dynamicPriority s'.kernel t = 0 := congrArg Record.dynamicPriority own
        have static : staticPriority s'.kernel t = 0 := congrArg Record.staticPriority own
        exact Or.inl ⟨dynamic.trans static.symm, by rw [static]; exact zero⟩
    · exact Or.inr (entry_same entry (fun prio same => sets ⟨prio, same⟩) starts schedule)

structure Fair (lo hi : Int) (s : System N) : Prop where
  conserved : Conserved s
  aged : Aged lo hi (Fintype.card (Tcb N)) s.kernel
  idle : ∀ t, t ≠ .dispatcherTask → t ∉ readyTasks s.kernel → Reset s.kernel t
  running : s.curr ≠ .dispatcherTask → Reset s.kernel s.curr
  chosen : ∀ start next, s.ctl .dispatcherTask = .dispatcher (.dispatch start next) →
    Reset s.kernel next

/-- The bounds of the priorities, with room for the ageing of as many tasks as there are. -/
structure Limits (N : Type) [Fintype N] (lo hi : Int) : Prop where
  lowest : lo ≤ maxPriority
  zero : 0 ≤ hi
  high : hi ≤ shrtMax
  low : shrtMin ≤ lo - Fintype.card (Tcb N) + 1

/-- The decision of the scheduler: the chosen task is reset, the other ready ones age by one. -/
theorem schedule_priorities (limits : Limits N lo hi) (f : Fair lo hi s) {next : Tcb N}
    (entry : Entry s s' (.schedule next)) :
    FirstLeast (dynamicPriority s.kernel) (readyTasks s.kernel) next ∧
    (∀ t, staticPriority s'.kernel t = staticPriority s.kernel t) ∧
    dynamicPriority s'.kernel next = staticPriority s.kernel next ∧
    (∀ t ∈ readyTasks s.kernel, t ≠ next →
      dynamicPriority s'.kernel t = dynamicPriority s.kernel t - 1) ∧
    (∀ t, t ∉ readyTasks s.kernel → dynamicPriority s'.kernel t = dynamicPriority s.kernel t) ∧
    ∀ t, (s'.kernel.task t).dynamicPriority =
      (agedTasks s.kernel (readyTasks s.kernel) next t).dynamicPriority := by
  cases entry with
  | schedule _ least aged =>
    have record : ∀ t, (registry s'.kernel).record t =
        ((registry s.kernel).scheduled (readyTasks s.kernel) next).record t :=
      fun t => congrFun (congrArg Registry.record aged) t
    simp only [Registry.scheduled] at record
    have mem := firstLeast_mem least
    refine ⟨least, fun t => ?_, ?_, fun t ready other => ?_, fun t out => ?_, fun t => ?_⟩
    · refine (congrArg Record.staticPriority (record t)).trans ?_
      split
      · rfl
      · split
        · rfl
        · rfl
    · refine (congrArg Record.dynamicPriority (record next)).trans ?_
      rw [if_pos rfl]
      rfl
    · refine (congrArg Record.dynamicPriority (record t)).trans ?_
      rw [if_neg other, if_pos ready]
      exact passed_ages limits.high limits.low f.aged least ready other
    · refine (congrArg Record.dynamicPriority (record t)).trans ?_
      have other : t ≠ next := by
        rintro rfl
        exact out mem
      rw [if_neg other, if_neg out]
      rfl
    · refine (congrArg Record.dynamicPriority (record t)).trans ?_
      simp only [agedTasks]
      split
      · rfl
      · split
        · rfl
        · rfl

theorem fair_step (limits : Limits N lo hi) (f : Fair lo hi s) {l : Label N}
    (go : Operates s l s') (prioritised : Prioritised lo hi l) : Fair lo hi s' := by
  have conserved := (step_kept f.conserved go.2 go.1).conserved
  have entry := step_entry f.conserved go
  have motion := step_motion f.conserved go prioritised
  have range := fun t prio (sets : event s s' l = .priority t prio) =>
    event_range prioritised sets
  have wellFormed := conserved.placed.wellFormed
  have fits : (readyTasks s'.kernel).length ≤ Fintype.card (Tcb N) := wellFormed.length_le _
  have slack := limits.low
  have lowest := limits.lowest
  have high := limits.high
  have bounds : shrtMin ≤ lo ∧ lo ≤ 0 := by
    simp only [maxPriority] at lowest
    have one : 1 ≤ Fintype.card (Tcb N) := Fintype.card_pos_iff.mpr ⟨.mainTask⟩
    omega
  generalize event s s' l = e at entry motion range
  cases motion with
  | schedule start next curr lists chosen =>
    obtain ⟨least, static, dynamic, -, others, aged⟩ := schedule_priorities limits f entry
    have member := firstLeast_mem least
    have room : (readyTasks s.kernel).length ≤ Fintype.card (Tcb N) := lists ▸ fits
    have before := schedule_aged limits.high limits.low f.aged room least
    have same : Repriced lo hi
        { s.kernel with task := agedTasks s.kernel (readyTasks s.kernel) next } s'.kernel := by
      intro t
      refine Or.inr ⟨aged t, (static t).trans ?_⟩
      simp only [staticPriority, agedTasks]
      split
      · rfl
      · split
        · rfl
        · rfl
    refine ⟨conserved, repriced_aged before same wellFormed fits ?_, ?_, ?_, ?_⟩
    · rw [lists]
      exact List.filter_sublist
    · intro t user out
      rw [lists] at out
      exact (others t out).trans ((f.idle t user out).trans (static t).symm)
    · intro user
      exact absurd curr user
    · intro start' next' again
      have one := chosen.symm.trans again
      simp only [Ctl.dispatcher.injEq, DispatcherPoint.dispatch.injEq] at one
      rw [← one.2]
      exact dynamic.trans (static next).symm
  | turn start now next curr lists chosen away =>
    have repriced : Repriced lo hi s.kernel s'.kernel :=
      entry_repriced bounds.1 high ⟨bounds.2, limits.zero⟩
      entry (by simp) range
    refine ⟨conserved, repriced_aged f.aged repriced wellFormed fits ?_, ?_, ?_, ?_⟩
    · rw [lists]
      exact List.filter_sublist
    · intro t user out
      rw [lists] at out
      exact repriced_reset repriced (f.idle t user out)
    · intro _
      rw [curr]
      exact repriced_reset repriced (f.chosen start next chosen)
    · intro start' next' again
      cases away.symm.trans again
  | flow _ plain flow curr chosen =>
    have repriced : Repriced lo hi s.kernel s'.kernel :=
      entry_repriced bounds.1 high ⟨bounds.2, limits.zero⟩
      entry (fun next => (plain next).1) range
    refine ⟨conserved, flow_aged f.aged flow repriced wellFormed fits ?_, ?_, ?_, ?_⟩
    · intro t joins out
      exact f.idle t ((conserved.placed.queued t).mp ⟨_, joins⟩).2 out
    · intro t user out
      refine repriced_reset repriced ?_
      by_cases ready : t ∈ readyTasks s.kernel
      · -- it has left ready_tasks, from the processor
        have own : t = s.curr := by
          by_contra other
          exact out (flow.stays t ready other)
        rw [own] at user ⊢
        exact f.running user
      · exact f.idle t user ready
    · intro user
      rcases curr with same | gone
      · rw [same] at user ⊢
        exact repriced_reset repriced (f.running user)
      · exact absurd gone user
    · intro start next there
      exact repriced_reset repriced (f.chosen start next (chosen start next there))

end Fairness
section Windows
variable {lo hi : Int}

theorem boot_fair (limits : Limits N lo hi) {s : System N} (boot : Booted s) : Fair lo hi s := by
  have lowest := limits.lowest
  have zero := limits.zero
  simp only [maxPriority] at lowest
  obtain ⟨represents, curr, -⟩ := boot_lists boot
  have lists : readyTasks s.kernel = [.mainTask] := congrFun represents.elems_eq .readyTasks
  have conserved := boot_conserved boot
  have fits : (readyTasks s.kernel).length ≤ Fintype.card (Tcb N) :=
    conserved.placed.wellFormed.length_le _
  obtain ⟨sem, run⟩ := boot.kernel
  rw [pposInit_boot, Except.ok.injEq] at run
  have task : ∀ t, t ≠ .dispatcherTask → Reset s.kernel t := by
    intro t user
    rw [← run]
    cases t with
    | dispatcherTask => exact absurd rfl user
    | mainTask | diskDriverTask | user => rfl
  have static : ∀ t, lo ≤ staticPriority s.kernel t ∧ staticPriority s.kernel t ≤ hi := by
    intro t
    rw [← run]
    cases t with
    | dispatcherTask =>
      exact ⟨limits.lowest, by simp [staticPriority, bootKernel, maxPriority]; omega⟩
    | mainTask | diskDriverTask | user =>
      simp [staticPriority, bootKernel, zeroedTask]
      omega
  refine ⟨conserved, SchedulerAging.start_aged ⟨conserved.placed.wellFormed, fits, static, ?_⟩,
    fun t user _ => task t user, fun user => task _ user, ?_⟩
  · intro t mem
    rw [lists, List.mem_singleton] at mem
    exact task t (by rw [mem]; simp)
  · intro start next chosen
    cases boot.dispatcher.symm.trans chosen

structure Window (N : Type) where
  system : System N
  picks : List (Tcb N × Int)

def decision (s : System N) : Event N → List (Tcb N × Int)
  | .schedule next => [(next, staticPriority s.kernel next)]
  | _ => []

/-- The event sets the priority of the task, or gives it the processor. -/
def Concerns (i : Tcb N) : Event N → Prop
  | .priority t _ => t = i
  | .schedule next => next = i
  | _ => False

/-- Task i stays ready, with its priority left alone, and is not chosen. -/
def Passes (lo hi : Int) (i : Tcb N) (a : Window N) (l : Label N) (b : Window N) : Prop :=
  Operates a.system l b.system ∧ Prioritised lo hi l ∧
  ¬ Concerns i (event a.system b.system l) ∧ i ∈ readyTasks b.system.kernel ∧
  b.picks = a.picks ++ decision a.system (event a.system b.system l)

/-- Each decision has brought i one step forward; whoever was chosen before is behind i, unless
    its static priority is the better one. -/
structure Waiting (lo hi : Int) (i : Tcb N) (begun prio : Int) (a : Window N) : Prop where
  fair : Fair lo hi a.system
  ready : i ∈ readyTasks a.system.kernel
  dynamic : dynamicPriority a.system.kernel i = begun - a.picks.length
  static : staticPriority a.system.kernel i = prio
  aged : a.picks ≠ [] → dynamicPriority a.system.kernel i < prio
  behind : ∀ pick ∈ a.picks, prio ≤ staticPriority a.system.kernel pick.1 →
    dynamicPriority a.system.kernel i < dynamicPriority a.system.kernel pick.1
  twice : ∀ before pick rest, a.picks = before ++ pick :: rest → pick.1 ∈ before.map Prod.fst →
    pick.2 < prio

theorem split_last {T : Type} {l before rest : List T} {x y : T}
    (split : l ++ [y] = before ++ x :: rest) :
    (rest = [] ∧ x = y ∧ before = l) ∨ ∃ rest', l = before ++ x :: rest' := by
  rcases List.eq_nil_or_concat rest with rfl | ⟨rest', z, rfl⟩
  · obtain ⟨same, last⟩ := List.append_inj' split rfl
    exact Or.inl ⟨rfl, (List.head_eq_of_cons_eq last).symm, same.symm⟩
  · refine Or.inr ⟨rest', ?_⟩
    have whole : l ++ [y] = (before ++ x :: rest') ++ [z] := by
      rw [split]
      simp
    exact (List.append_inj' whole rfl).1

theorem waiting_flow {i : Tcb N} {begun prio : Int} {a b : Window N}
    (w : Waiting lo hi i begun prio a) (fair : Fair lo hi b.system)
    (ready : i ∈ readyTasks b.system.kernel) (picks : b.picks = a.picks)
    (own : dynamicPriority b.system.kernel i = dynamicPriority a.system.kernel i ∧
      staticPriority b.system.kernel i = staticPriority a.system.kernel i)
    (repriced : Repriced lo hi a.system.kernel b.system.kernel) :
    Waiting lo hi i begun prio b := by
  refine ⟨fair, ready, by rw [own.1, picks]; exact w.dynamic, own.2.trans w.static, ?_, ?_, ?_⟩
  · intro some
    rw [own.1]
    exact w.aged (picks ▸ some)
  · intro pick mem worse
    rw [picks] at mem
    rw [own.1]
    rcases repriced pick.1 with ⟨reset, -⟩ | ⟨dynamic', static'⟩
    · -- a priority set anew is no better than that of i, and i has already aged
      have aged := w.aged (List.ne_nil_of_mem mem)
      rw [reset]
      omega
    · rw [static'] at worse
      rw [dynamic']
      exact w.behind pick mem worse
  · intro before pick rest split
    rw [picks] at split
    exact w.twice before pick rest split

theorem waiting_schedule (limits : Limits N lo hi) {i next : Tcb N} {begun prio : Int}
    {a b : Window N} (w : Waiting lo hi i begun prio a) (fair : Fair lo hi b.system)
    (ready : i ∈ readyTasks b.system.kernel) (other : next ≠ i)
    (picks : b.picks = a.picks ++ [(next, staticPriority a.system.kernel next)])
    (entry : Entry a.system b.system (.schedule next)) : Waiting lo hi i begun prio b := by
  obtain ⟨least, kept, reset, aged, rest, -⟩ := schedule_priorities limits w.fair entry
  have own := aged i w.ready other.symm
  have upper := w.fair.aged.upper i w.ready
  rw [w.static] at upper
  -- the chosen task is behind i from now on, and the others keep their distance
  have behind : ∀ t, (t = next ∨ dynamicPriority a.system.kernel i <
      dynamicPriority a.system.kernel t) → prio ≤ staticPriority b.system.kernel t →
      dynamicPriority b.system.kernel i < dynamicPriority b.system.kernel t := by
    intro t why worse
    rw [own]
    by_cases chosen : t = next
    · subst chosen
      rw [kept] at worse
      rw [reset]
      omega
    · have before := why.resolve_left chosen
      by_cases mem : t ∈ readyTasks a.system.kernel
      · rw [aged t mem chosen]
        omega
      · rw [rest t mem]
        omega
  refine ⟨fair, ready, ?_, (kept i).trans w.static, ?_, ?_, ?_⟩
  · rw [own, w.dynamic, picks, List.length_append]
    push_cast
    simp only [List.length_singleton]
    omega
  · intro _
    omega
  · intro pick mem worse
    rw [picks] at mem
    rcases List.mem_append.mp mem with earlier | new
    · refine behind pick.1 (Or.inr ?_) worse
      rw [kept] at worse
      exact w.behind pick earlier worse
    · rw [List.mem_singleton] at new
      exact behind pick.1 (Or.inl (by rw [new])) worse
  · intro before pick tail split again
    rw [picks] at split
    rcases split_last split with ⟨-, rfl, rfl⟩ | ⟨tail', earlier⟩
    · obtain ⟨past, mem, twice⟩ := List.mem_map.mp again
      have same : past.1 = next := twice
      by_contra worse
      have least' := firstLeast_le least w.ready
      have further := w.behind past mem (by rw [same]; omega)
      rw [same] at further
      omega
    · exact w.twice before pick tail' earlier again

theorem waiting_step (limits : Limits N lo hi) {i : Tcb N} {begun prio : Int}
    {a b : Window N} {l : Label N} (w : Waiting lo hi i begun prio a)
    (go : Passes lo hi i a l b) : Waiting lo hi i begun prio b := by
  obtain ⟨operates, prioritised, other, ready, picks⟩ := go
  have fair := fair_step limits w.fair operates prioritised
  have entry := step_entry w.fair.conserved operates
  have range := fun t prio (sets : event a.system b.system l = .priority t prio) =>
    event_range prioritised sets
  have alive : liveTasks a.system i = true :=
    ((w.fair.conserved.placed.queued i).mp ⟨_, w.ready⟩).1
  generalize event a.system b.system l = e at entry range other picks
  by_cases chosen : ∃ next, e = .schedule next
  · obtain ⟨next, rfl⟩ := chosen
    exact waiting_schedule limits w fair ready other picks entry
  · have schedule : ∀ next, e ≠ .schedule next := fun next same => chosen ⟨next, same⟩
    have untouched : ∀ prio, e ≠ .priority i prio := by
      rintro prio rfl
      exact other rfl
    have begins : e ≠ .begins i := by
      rintro rfl
      cases entry with
      | begins _ dead _ =>
        rw [liveTasks, dead] at alive
        cases alive
    have lowest := limits.lowest
    have slack := limits.low
    have zero := limits.zero
    simp only [maxPriority] at lowest
    have one : 1 ≤ Fintype.card (Tcb N) := Fintype.card_pos_iff.mpr ⟨.mainTask⟩
    have none : decision a.system e = [] := by
      cases e <;> first | rfl | exact absurd rfl (schedule _)
    rw [none, List.append_nil] at picks
    exact waiting_flow w fair ready picks (entry_same entry untouched begins schedule)
      (entry_repriced (by omega) limits.high (by omega) entry schedule range)

/-- Whatever else the system does, a task that stays ready sees fewer than hi - lo + n decisions
    for others, n being the number of descriptors, and among these no task twice whose static
    priority, at the second time, is not better than its own. -/
theorem waiting_is_bounded (limits : Limits N lo hi) {s₀ s : System N} {labels : List (Label N)}
    (boot : Booted s₀)
    (run : Run (fun s l s' => Operates s l s' ∧ Prioritised lo hi l) s₀ labels s)
    {i : Tcb N} (ready : i ∈ readyTasks s.kernel) {window : List (Label N)} {b : Window N}
    (passes : Run (Passes lo hi i) ⟨s, []⟩ window b) :
    (b.picks.length : Int) < hi - lo + Fintype.card (Tcb N) ∧
    ∀ before pick rest, b.picks = before ++ pick :: rest → pick.1 ∈ before.map Prod.fst →
      pick.2 < staticPriority s.kernel i := by
  have fair : Fair lo hi s := by
    refine run_invariant (Fair lo hi) ?_ run (boot_fair limits boot)
    intro s l s' f go
    exact fair_step limits f go.1 go.2
  have start : Waiting lo hi i (dynamicPriority s.kernel i) (staticPriority s.kernel i)
      ⟨s, []⟩ := by
    refine ⟨fair, ready, by simp, rfl, by simp, by simp, ?_⟩
    intro before pick rest split
    have empty := congrArg List.length split
    simp at empty
  have w := run_invariant _ (fun _ _ _ w go => waiting_step limits w go) passes start
  refine ⟨?_, w.twice⟩
  obtain ⟨pre, post, split⟩ := List.append_of_mem w.ready
  have least := w.fair.aged.lower pre i post split
  have most := fair.aged.upper i ready
  have static := (fair.aged.static i).2
  have dynamic := w.dynamic
  omega

instance (l : Label N) : Decidable (Prioritised lo hi l) := by
  unfold Prioritised
  rcases l with _ | _ | c | _ <;> try infer_instance
  rcases c with _ | _ <;> try infer_instance
  case taskSwitch o => rcases o with _ | _ <;> infer_instance

instance (i : Tcb N) (e : Event N) : Decidable (Concerns i e) := by
  unfold Concerns
  rcases e with _ | _ | _ | _ | _ | _ | _ <;> infer_instance

def prioritisedStep (lo hi : Int) : System N → Label N → Option (System N) :=
  guardedStep fun s l _ => Permitted s l ∧ Prioritised lo hi l

def passesStep (lo hi : Int) (i : Tcb N) (a : Window N) (l : Label N) : Option (Window N) :=
  (guardedStep (fun s l s' => Permitted s l ∧ Prioritised lo hi l ∧ ¬ Concerns i (event s s' l) ∧
    i ∈ readyTasks s'.kernel) a.system l).map fun s' =>
      ⟨s', a.picks ++ decision a.system (event a.system s' l)⟩

theorem passesStep_eq {i : Tcb N} {a b : Window N} {l : Label N}
    (next : passesStep lo hi i a l = some b) : Passes lo hi i a l b := by
  obtain ⟨s', stepped, rfl⟩ := Option.map_eq_some_iff.mp next
  obtain ⟨go, permitted, prioritised, other, ready⟩ := guardedStep_eq stepped
  exact ⟨⟨go, permitted⟩, prioritised, other, ready, rfl⟩

/-- main, which every decision but the last prefers, yields each time; then the task chosen instead
    goes to sleep. -/
def fourDecisions : List (Label N) :=
  [.call .taskYield] ++ List.replicate 4 (.run true true) ++
  [.tick, .call .taskYield] ++ List.replicate 5 (.run true true) ++
  [.call .taskYield] ++ List.replicate 5 (.run true true) ++
  [.call .taskYield] ++ List.replicate 5 (.run true true) ++ [.call (.taskSleep 2)]

theorem last_task_is_passed_over : ∃ b : Window (Fin 2),
    b.picks = [(.mainTask, -2), (.mainTask, -2), (.mainTask, -2), (.user 0, 0)] ∧
    (b.picks.length : Int) < 20 - -20 + 5 ∧
    ∀ before pick rest, b.picks = before ++ pick :: rest → pick.1 ∈ before.map Prod.fst →
      pick.2 < 0 := by
  obtain ⟨s, spawned, ready, static, ends⟩ := exec_reaches (prioritisedStep (-20) 20)
    (bootSystem : System (Fin 2)) [.call (.taskInit (.user 0) true),
      .call (.taskInit (.user 1) true), .call (.taskSetprio none (-2))]
    (fun s => .user 1 ∈ readyTasks s.kernel ∧ staticPriority s.kernel (.user 1) = 0 ∧
      (exec (passesStep (-20) 20 (.user 1)) ⟨s, []⟩ fourDecisions).any (fun b => b.picks =
        [(.mainTask, -2), (.mainTask, -2), (.mainTask, -2), (.user 0, 0)]) = true)
    (by decide +kernel)
  obtain ⟨b, found, picks⟩ := (Option.any_eq_true _ _).mp ends
  have limits : Limits (Fin 2) (-20) 20 := ⟨by decide, by decide, by decide, by decide⟩
  have run := exec_guarded spawned
  have bound := waiting_is_bounded limits boot_booted
    (run_mono (fun s l s' go => ⟨⟨go.1, go.2.1⟩, go.2.2⟩) run) ready
    (run_mono (fun _ _ _ => passesStep_eq) (exec_run found))
  rw [static] at bound
  exact ⟨b, of_decide_eq_true picks, bound⟩

end Windows
end SystemScheduling
