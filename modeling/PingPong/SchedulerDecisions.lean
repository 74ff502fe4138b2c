import PingPong.KernelEffects
import PingPong.TransitionRuns

/-!
What one call of scheduler decides, and what follows for many: tasks of equal priority take
turns, although the ready ring is never rotated.
-/
namespace SchedulerDecisions
open MachineModel CircularList QueueModel KernelModel KernelEffects TransitionRuns
variable {N : Type} [DecidableEq N] [Fintype N]

section Decision

/-- What a call on the ready list l that returns next may change. -/
structure Decides (k : Kernel N) (l : List (Tcb N)) (next : Option (Tcb N)) (k' : Kernel N) :
    Prop where
  empty : next = none ↔ l = []
  least : ∀ c, next = some c → FirstLeast (fun t => (k.task t).dynamicPriority) l c
  reset : ∀ c, next = some c → (k'.task c).dynamicPriority = (k'.task c).staticPriority
  aged : ∀ t ∈ l, next ≠ some t →
    (k'.task t).dynamicPriority = (k.task t).dynamicPriority - 1
  outside : ∀ t, t ∉ l → k'.task t = k.task t
  fields : ∀ t, { k'.task t with dynamicPriority := (k.task t).dynamicPriority } = k.task t
  rest : { k' with task := k.task } = k

/-- A priority that can be lowered once more. -/
def Above (k : Kernel N) (t : Tcb N) : Prop :=
  shrtMin < (k.task t).dynamicPriority ∧ (k.task t).dynamicPriority ≤ shrtMax

instance (k : Kernel N) (t : Tcb N) : Decidable (Above k t) :=
  inferInstanceAs (Decidable (_ ∧ _))

variable {k : Kernel N} {l : List (Tcb N)}

omit [DecidableEq N] [Fintype N] in
theorem above_ages {t : Tcb N} (above : Above k t) :
    toShort ((k.task t).dynamicPriority + alpha) = (k.task t).dynamicPriority - 1 := by
  obtain ⟨low, high⟩ := above
  simp only [alpha]
  apply toShort_eq_self <;> omega

omit [Fintype N] in
theorem agedTasks_fields (c t : Tcb N) :
    { agedTasks k l c t with dynamicPriority := (k.task t).dynamicPriority } = k.task t := by
  unfold agedTasks
  split
  · rfl
  · split <;> rfl

theorem scheduler_decides (ready : Listed k.queues .readyTasks l) (above : ∀ t ∈ l, Above k t) :
    ∃ next k', scheduler k = .ok (next, k') ∧ Decides k l next k' := by
  by_cases none : l = []
  · subst none
    refine ⟨_, _, scheduler_none ready, by simp, ?_, ?_, ?_, fun _ _ => rfl, fun _ => rfl, rfl⟩
    · intro c some
      cases some
    · intro c some
      cases some
    · intro t mem
      cases mem
  · obtain ⟨c, least, run⟩ := scheduler_some ready none
    have member := firstLeast_mem least
    refine ⟨_, _, run, by simp [none], ?_, ?_, ?_, ?_, fun t => agedTasks_fields c t, rfl⟩
    · intro d same
      cases same
      exact least
    · intro d same
      cases same
      simp [agedTasks]
    · intro t mem other
      have tc : t ≠ c := fun same => other (by rw [same])
      simp only [agedTasks, tc, mem, ↓reduceIte]
      exact above_ages (above t mem)
    · intro t out
      have tc : t ≠ c := fun same => out (same ▸ member)
      simp [agedTasks, tc, out]

omit [DecidableEq N] [Fintype N] in
theorem decides_static {k' : Kernel N} {next : Option (Tcb N)} (decides : Decides k l next k')
    (t : Tcb N) : (k'.task t).staticPriority = (k.task t).staticPriority := by
  rw [← decides.fields t]

omit [DecidableEq N] [Fintype N] in
theorem decides_queues {k' : Kernel N} {next : Option (Tcb N)} (decides : Decides k l next k') :
    k'.queues = k.queues := by
  rw [← decides.rest]

def twoLists : TaskLists (Fin 1)
  | .readyTasks => [.mainTask, .user 0]
  | _ => []

def twoReady (p q : Int) : Kernel (Fin 1) :=
  { bootKernel with
    queues := ⟨fun r => (twoLists r).head?, fun t => match t with
      | .mainTask => ⟨some (.user 0), some (.user 0)⟩
      | .user _ => ⟨some .mainTask, some .mainTask⟩
      | _ => Links.free⟩
    task := fun t => match t with
      | .mainTask => { zeroedTask with dynamicPriority := p, staticPriority := p }
      | .user _ => { zeroedTask with dynamicPriority := q, staticPriority := q }
      | _ => zeroedTask }

theorem twoReady_represents (p q : Int) : Represents (twoReady p q).queues twoLists := by
  have only : ∀ {t r}, t ∈ twoLists r → (t = .mainTask ∨ t = .user 0) ∧ r = .readyTasks := by
    intro t r mem
    cases r <;> simp_all [twoLists]
  refine ⟨fun r => rfl, fun r => ?_, fun hp hq => (only hp).2.trans (only hq).2.symm, ?_⟩
  · cases r with
    | readyTasks => exact ⟨by simp [twoLists], by simp [twoLists, twoReady, Linked]⟩
    | _ => exact ring_nil _
  · intro t out
    have notReady := out .readyTasks
    cases t with
    | mainTask => exact absurd (by simp [twoLists]) notReady
    | user n =>
      obtain rfl := Subsingleton.elim n 0
      exact absurd (by simp [twoLists]) notReady
    | dispatcherTask => rfl
    | diskDriverTask => rfl

theorem lower_priority_is_picked : ∃ k, scheduler (twoReady 5 (-3)) = .ok (some (.user 0), k) ∧
    Decides (twoReady 5 (-3)) [.mainTask, .user 0] (some (.user 0)) k := by
  have ready := represents_listed (twoReady_represents 5 (-3)) .readyTasks
  obtain ⟨next, k, run, decides⟩ := scheduler_decides ready (by decide)
  have least : FirstLeast (fun t => ((twoReady 5 (-3)).task t).dynamicPriority)
      [.mainTask, .user 0] (.user 0) := ⟨[.mainTask], [], rfl, by decide, by decide⟩
  obtain ⟨c, rfl⟩ : ∃ c, next = some c :=
    Option.ne_none_iff_exists'.mp fun none => by cases decides.empty.mp none
  obtain rfl := firstLeast_unique least (decides.least c rfl)
  exact ⟨k, run, decides⟩

end Decision

section RoundRobin

/-- A call of scheduler, with what it returned, or anything that leaves the ready ring and the
    priorities in it as they are. -/
def Turn (l : List (Tcb N)) (k : Kernel N) (e : Option (Option (Tcb N))) (k' : Kernel N) : Prop :=
  match e with
  | some next => scheduler k = .ok (next, k')
  | none => Listed k'.queues .readyTasks l ∧ ∀ t ∈ l,
      (k'.task t).dynamicPriority = (k.task t).dynamicPriority ∧
      (k'.task t).staticPriority = (k.task t).staticPriority

def returned (events : List (Option (Option (Tcb N)))) : List (Option (Tcb N)) :=
  events.filterMap id

/-- How often the task at position i of n has been passed over since its last turn, after m
    calls. -/
def age (n m i : Nat) : Nat :=
  if i < m % n then m % n - 1 - i else if m < n then m else n + m % n - 1 - i

theorem mod_turn {n m : Nat} (pos : 0 < n) :
    (m + 1) % n = if m % n + 1 = n then 0 else m % n + 1 := by
  have small := Nat.mod_lt m pos
  rw [← Nat.mod_add_mod]
  split
  · rename_i last
    rw [last, Nat.mod_self]
  · exact Nat.mod_eq_of_lt (by omega)

theorem age_turn {n m i : Nat} (small : i < n) :
    age n (m + 1) i = if i = m % n then 0 else age n m i + 1 := by
  have next := mod_turn (n := n) (m := m) (by omega)
  have first : m < n → m % n = m := Nat.mod_eq_of_lt
  have last := Nat.mod_lt m (show 0 < n by omega)
  unfold age
  split at next <;> rw [next] <;> split_ifs <;> omega

theorem age_lt {n m i : Nat} (small : i < n) : age n m i < n := by
  have last := Nat.mod_lt m (show 0 < n by omega)
  unfold age
  split_ifs <;> omega

/-- The task whose turn it is has waited longest. -/
theorem age_longest {n m i : Nat} (small : i < n) :
    age n m i ≤ age n m (m % n) ∧ (i < m % n → age n m i < age n m (m % n)) := by
  have first : m < n → m % n = m := Nat.mod_eq_of_lt
  have last := Nat.mod_lt m (show 0 < n by omega)
  unfold age
  split_ifs <;> omega

theorem firstLeast_at {T : Type} {key : T → Int} {l : List T} {i : Nat} (small : i < l.length)
    (before : ∀ j (h : j < l.length), j < i → key l[i] < key l[j])
    (least : ∀ j (h : j < l.length), key l[i] ≤ key l[j]) : FirstLeast key l l[i] := by
  refine ⟨l.take i, l.drop (i + 1), ?_, ?_, ?_⟩
  · rw [List.getElem_cons_drop, List.take_append_drop]
  · intro x mem
    obtain ⟨j, room, rfl⟩ := List.getElem_of_mem mem
    rw [List.length_take] at room
    rw [List.getElem_take]
    exact before j (by omega) (by omega)
  · intro x mem
    obtain ⟨j, room, rfl⟩ := List.getElem_of_mem (List.mem_of_mem_drop mem)
    exact least j room

structure Turned (l : List (Tcb N)) (p : Int) (m : Nat) (k : Kernel N) : Prop where
  ready : Listed k.queues .readyTasks l
  static : ∀ t ∈ l, (k.task t).staticPriority = p
  aged : ∀ i (h : i < l.length), (k.task l[i]).dynamicPriority = p - age l.length m i

variable {k k' : Kernel N} {l : List (Tcb N)} {p : Int} {m : Nat}

section Calls
variable (nonempty : l ≠ []) (low : shrtMin ≤ p - l.length) (high : p ≤ shrtMax)
include nonempty low high

theorem turned_picks (inv : Turned l p m k) :
    ∃ k', scheduler k = .ok (l[m % l.length]?, k') ∧ Turned l p (m + 1) k' := by
  have pos : 0 < l.length := List.length_pos_iff.mpr nonempty
  have turn : m % l.length < l.length := Nat.mod_lt m pos
  have above : ∀ t ∈ l, Above k t := by
    intro t mem
    obtain ⟨i, small, rfl⟩ := List.getElem_of_mem mem
    have aged := inv.aged i small
    have bound := age_lt (m := m) small
    unfold Above
    omega
  obtain ⟨next, k', run, decides⟩ := scheduler_decides inv.ready above
  have longest : FirstLeast (fun t => (k.task t).dynamicPriority) l l[m % l.length] := by
    apply firstLeast_at turn
    · intro j small earlier
      have ages := (age_longest (m := m) small).2 earlier
      rw [inv.aged _ turn, inv.aged j small]
      omega
    · intro j small
      have ages := (age_longest (m := m) small).1
      rw [inv.aged _ turn, inv.aged j small]
      omega
  obtain ⟨c, rfl⟩ : ∃ c, next = some c :=
    Option.ne_none_iff_exists'.mp fun none => nonempty (decides.empty.mp none)
  obtain rfl := firstLeast_unique longest (decides.least c rfl)
  refine ⟨k', by rw [run, List.getElem?_eq_getElem turn], ?_, ?_, ?_⟩
  · rw [decides_queues decides]
    exact inv.ready
  · intro t mem
    rw [decides_static decides]
    exact inv.static t mem
  · intro i small
    rw [age_turn small]
    split
    · rename_i mine
      subst mine
      rw [decides.reset _ rfl, decides_static decides, inv.static _ (List.getElem_mem _)]
      omega
    · rename_i other
      have aged := decides.aged l[i] (List.getElem_mem _) fun same => other <|
        (List.Nodup.getElem_inj_iff inv.ready.ring.nodup).mp (Option.some.inj same).symm
      rw [aged, inv.aged i small]
      push_cast
      omega

theorem turned_step {e : Option (Option (Tcb N))} (inv : Turned l p m k) (turn : Turn l k e k') :
    Turned l p (m + (returned [e]).length) k' := by
  cases e with
  | none =>
    obtain ⟨ready, fields⟩ := turn
    refine ⟨ready, ?_, ?_⟩
    · intro t mem
      rw [(fields t mem).2]
      exact inv.static t mem
    · intro i small
      rw [(fields l[i] (List.getElem_mem _)).1]
      exact inv.aged i small
  | some next =>
    obtain ⟨k'', run, next'⟩ := turned_picks nonempty low high inv
    obtain ⟨-, rfl⟩ := Prod.mk.inj (Except.ok.inj (run.symm.trans turn))
    exact next'

end Calls

theorem equal_priorities_take_turns (nonempty : l ≠ []) (low : shrtMin ≤ p - l.length)
    (high : p ≤ shrtMax) (ready : Listed k.queues .readyTasks l)
    (equal : ∀ t ∈ l, (k.task t).staticPriority = p ∧ (k.task t).dynamicPriority = p)
    {events : List (Option (Option (Tcb N)))} (run : Run (Turn l) k events k') :
    ∃ k'', scheduler k' = .ok (l[(returned events).length % l.length]?, k'') := by
  have start : Turned l p 0 k := by
    refine ⟨ready, fun t mem => (equal t mem).1, fun i small => ?_⟩
    have fresh : age l.length 0 i = 0 := by
      rw [age, Nat.zero_mod, if_neg (by omega), if_pos (by omega)]
    rw [(equal _ (List.getElem_mem _)).2, fresh]
    simp
  have inv : Turned l p (returned events).length k' := by
    refine run_history (fun events k' => Turned l p (returned events).length k') ?_ run start
    intro before a e b _ inv turn
    have next := turned_step nonempty low high inv turn
    rw [returned, List.filterMap_append, List.length_append]
    exact next
  obtain ⟨k'', picks, -⟩ := turned_picks nonempty low high inv
  exact ⟨k'', picks⟩

theorem two_tasks_take_turns : ∃ k₁ k₂, scheduler (twoReady 0 0) = .ok (some .mainTask, k₁) ∧
    scheduler k₁ = .ok (some (.user 0), k₂) := by
  have ready := represents_listed (twoReady_represents 0 0) .readyTasks
  obtain ⟨k₁, first⟩ := equal_priorities_take_turns (p := 0) (by simp [twoLists]) (by decide)
    (by decide) ready (by decide) (.start _)
  have turn : Turn [.mainTask, .user 0] (twoReady 0 0) (some (some .mainTask)) k₁ := first
  obtain ⟨k₂, second⟩ := equal_priorities_take_turns (p := 0) (by simp [twoLists]) (by decide)
    (by decide) ready (by decide) (run_one turn)
  exact ⟨k₁, k₂, first, second⟩

end RoundRobin

end SchedulerDecisions
