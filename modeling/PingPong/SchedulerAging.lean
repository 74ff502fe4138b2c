import PingPong.KernelEffects
import PingPong.TransitionRuns

/-! The ageing scheduler over runs that mix scheduler calls with the traffic of the
   task queues: a ready task waits for a bounded number of calls. -/
namespace SchedulerAging
open MachineModel CircularList QueueModel KernelModel KernelEffects TransitionRuns

section Ranks
variable {T : Type}

/-- How many tasks around i, in the list pre ++ i :: post, the scheduler prefers to i. -/
def ahead (key : T → Int) (pre post : List T) (i : T) : Nat :=
  pre.countP (fun x => key x ≤ key i) + post.countP (fun x => key x < key i)

theorem ahead_le_length (key : T → Int) (pre post : List T) (i : T) :
    ahead key pre post i ≤ pre.length + post.length :=
  Nat.add_le_add List.countP_le_length List.countP_le_length

theorem ahead_sublist (key : T → Int) {pre pre' post post' : List T} (i : T)
    (before : pre'.Sublist pre) (after : post'.Sublist post) :
    ahead key pre' post' i ≤ ahead key pre post i :=
  Nat.add_le_add before.countP_le after.countP_le

theorem sublist_split {l pre post : List T} {i : T} (sub : (pre ++ i :: post).Sublist l) :
    ∃ pre' post', l = pre' ++ i :: post' ∧ pre.Sublist pre' ∧ post.Sublist post' := by
  obtain ⟨l₁, l₂, rfl, before, rest⟩ := List.append_sublist_iff.mp sub
  obtain ⟨r₁, r₂, rfl, mem, after⟩ := List.cons_sublist_iff.mp rest
  obtain ⟨s, t, rfl⟩ := List.append_of_mem mem
  refine ⟨l₁ ++ s, t ++ r₂, by simp, ?_, ?_⟩
  · exact before.trans (List.sublist_append_left l₁ s)
  · exact after.trans (List.sublist_append_right t r₂)

theorem countP_drop {p q : T → Bool} {l : List T} {c : T} (nodup : l.Nodup) (mem : c ∈ l)
    (old : p c = true) (new : q c = false) (same : ∀ x ∈ l, x ≠ c → q x = p x) :
    l.countP q + 1 = l.countP p := by
  obtain ⟨u, v, rfl⟩ := List.append_of_mem mem
  have fresh := List.nodup_middle.mp nodup
  have out := (List.nodup_cons.mp fresh).1
  have left : u.countP q = u.countP p := List.countP_congr fun x mx => by
    rw [same x (by simp [mx]) fun eq => out (by simp [← eq, mx])]
  have right : v.countP q = v.countP p := List.countP_congr fun x mx => by
    rw [same x (by simp [mx]) fun eq => out (by simp [← eq, mx])]
  simp only [List.countP_append, List.countP_cons, old, new, left, right, ↓reduceIte]
  simp only [Bool.false_eq_true, ↓reduceIte]
  omega

/-- When everyone but the chosen c gains the same amount, either c stays ahead of i or i has one
    task less ahead of it. -/
theorem ahead_chosen {key : T → Int} (key' : T → Int) {pre post : List T} {i c : T}
    (nodup : (pre ++ i :: post).Nodup) (least : FirstLeast key (pre ++ i :: post) c)
    (other : i ≠ c) (aged : ∀ x ∈ pre ++ i :: post, x ≠ c → key' x = key x - 1) :
    key' c ≤ key' i ∨ ahead key' pre post i + 1 = ahead key pre post i := by
  by_cases still : key' c ≤ key' i
  · exact Or.inl still
  right
  have keyI := aged i (by simp) other
  obtain ⟨u, v, split, before, after⟩ := least
  have nodup' := List.nodup_middle.mp nodup
  have fresh := (List.nodup_cons.mp nodup').1
  have parts := (List.nodup_cons.mp nodup').2
  rw [List.nodup_append] at parts
  have mem : c ∈ pre ++ i :: post := by simp [split]
  have sameLe : ∀ x ∈ pre, x ≠ c →
      decide (key' x ≤ key' i) = decide (key x ≤ key i) := fun x mx xc => by
    rw [aged x (by simp [mx]) xc, keyI]; simp
  have sameLt : ∀ x ∈ post, x ≠ c →
      decide (key' x < key' i) = decide (key x < key i) := fun x mx xc => by
    rw [aged x (by simp [mx]) xc, keyI]; simp
  rcases List.mem_append.mp mem with inPre | inRest
  · have least : key c ≤ key i := firstLeast_le ⟨u, v, split, before, after⟩ (by simp)
    have drop := countP_drop parts.1 inPre (p := fun x => decide (key x ≤ key i))
      (q := fun x => decide (key' x ≤ key' i)) (by simpa using least) (by simpa using still)
      sameLe
    have keep : post.countP (fun x => decide (key' x < key' i)) =
        post.countP (fun x => decide (key x < key i)) := List.countP_congr fun x mx => by
      rw [sameLt x mx fun eq => parts.2.2 c inPre x mx eq.symm]
    simp only [ahead]
    omega
  · have inPost : c ∈ post := (List.mem_cons.mp inRest).resolve_left (Ne.symm other)
    obtain ⟨s, t, rfl⟩ := List.append_of_mem inPost
    -- i stands before c, so its key was strictly greater
    have cutoff : pre ++ i :: s = u := by
      have whole : (pre ++ i :: s) ++ c :: t = u ++ c :: v := by rw [← split]; simp
      have nd := nodup
      rw [show pre ++ i :: (s ++ c :: t) = (pre ++ i :: s) ++ c :: t by simp] at nd
      have once := (List.nodup_cons.mp (List.nodup_middle.mp nd)).1
      rw [List.mem_append, not_or] at once
      exact ((List.append_cons_inj_of_notMem once.1 once.2).mp whole).1
    have strict : key c < key i := before i (by simp [← cutoff])
    have drop := countP_drop parts.2.1 inPost (p := fun x => decide (key x < key i))
      (q := fun x => decide (key' x < key' i)) (by simpa using strict) (by simp; omega)
      sameLt
    have keep : pre.countP (fun x => decide (key' x ≤ key' i)) =
        pre.countP (fun x => decide (key x ≤ key i)) := List.countP_congr fun x mx => by
      rw [sameLe x mx fun eq => parts.2.2 x mx c inPost eq]
    simp only [ahead]
    omega

end Ranks

variable {N : Type} [DecidableEq N] [Fintype N]

def readyTasks (k : Kernel N) : List (Tcb N) := elems k.queues .readyTasks

def dynamicPriority (k : Kernel N) (t : Tcb N) : Int := (k.task t).dynamicPriority

def staticPriority (k : Kernel N) (t : Tcb N) : Int := (k.task t).staticPriority

inductive Event (N : Type) where
  | schedule
  | append (q : TaskQueue) (t : Tcb N)
  | remove (q : TaskQueue) (t : Tcb N)

/-- The kernel after an event, and what a scheduler call returned. -/
def perform (k : Kernel N) : Event N → Except Halt (Kernel N × List (Option (Tcb N)))
  | .schedule => do
      let (next, k) ← scheduler k
      .ok (k, [next])
  | .append q t => do
      let (queues, _) ← queueAppend k.queues (some q) (some t)
      .ok ({ k with queues := queues }, [])
  | .remove q t => do
      let (queues, _) ← queueRemove k.queues (some q) (some t)
      .ok ({ k with queues := queues }, [])

theorem perform_schedule {k : Kernel N} (r : Represents k.queues (elems k.queues)) :
    (readyTasks k = [] ∧ perform k .schedule = .ok (k, [none])) ∨
    ∃ c, FirstLeast (dynamicPriority k) (readyTasks k) c ∧ perform k .schedule =
      .ok ({ k with task := agedTasks k (readyTasks k) c }, [some c]) := by
  by_cases empty : readyTasks k = []
  · exact Or.inl ⟨empty, by simp [perform, scheduler_empty r empty, bind, Except.bind]⟩
  · obtain ⟨c, least, run⟩ := scheduler_spec r empty
    refine Or.inr ⟨c, least, ?_⟩
    simp only [perform, run, bind, Except.bind]
    rfl

theorem perform_append {k : Kernel N} (r : Represents k.queues (elems k.queues))
    (q : TaskQueue) (t : Tcb N) :
    ∃ m, perform k (.append q t) = .ok ({ k with queues := m }, []) ∧
      Represents m (elems m) ∧
      (elems m = elems k.queues ∨
        (∀ p, t ∉ elems k.queues p) ∧ elems m = listAppend (elems k.queues) q t) := by
  by_cases fresh : ∀ p, t ∉ elems k.queues p
  · obtain ⟨m, run, r'⟩ := r.append_free fresh q
    have same := r'.elems_eq
    exact ⟨m, by simp [perform, run, bind, Except.bind], same ▸ r', Or.inr ⟨fresh, same⟩⟩
  · obtain ⟨p, mem⟩ : ∃ p, t ∈ elems k.queues p := by simpa using fresh
    exact ⟨k.queues, by simp [perform, r.append_busy mem q, bind, Except.bind], r, Or.inl rfl⟩

theorem perform_remove {k : Kernel N} (r : Represents k.queues (elems k.queues))
    (q : TaskQueue) (t : Tcb N) :
    ∃ m, perform k (.remove q t) = .ok ({ k with queues := m }, []) ∧
      Represents m (elems m) ∧
      (elems m = elems k.queues ∨ elems m = listRemove (elems k.queues) q t) := by
  by_cases mem : t ∈ elems k.queues q
  · obtain ⟨m, run, r', _⟩ := r.remove_mem mem
    have same := r'.elems_eq
    exact ⟨m, by simp [perform, run, bind, Except.bind], same ▸ r', Or.inr same⟩
  · obtain ⟨code, _, run⟩ := r.remove_absent mem
    exact ⟨k.queues, by simp [perform, run, bind, Except.bind], r, Or.inl rfl⟩

/-- A task that joins the ready queue has just been initialised or reset. -/
def Permitted (k : Kernel N) : Event N → Prop
  | .append .readyTasks t => dynamicPriority k t = staticPriority k t
  | _ => True

def Step (n : Nat) (k : Kernel N) (e : Event N × List (Option (Tcb N))) (k' : Kernel N) : Prop :=
  Permitted k e.1 ∧ perform k e.1 = .ok (k', e.2) ∧ (readyTasks k').length ≤ n

def picks (events : List (Event N × List (Option (Tcb N)))) : List (Option (Tcb N)) :=
  events.flatMap Prod.snd

structure Start (lo hi : Int) (n : Nat) (k : Kernel N) : Prop where
  wellFormed : Represents k.queues (elems k.queues)
  fits : (readyTasks k).length ≤ n
  static : ∀ t, lo ≤ staticPriority k t ∧ staticPriority k t ≤ hi
  reset : ∀ t ∈ readyTasks k, dynamicPriority k t = staticPriority k t

/-- The further a ready task has aged below lo, the fewer tasks are ahead of it. -/
structure Aged (lo hi : Int) (n : Nat) (k : Kernel N) : Prop where
  wellFormed : Represents k.queues (elems k.queues)
  static : ∀ t, lo ≤ staticPriority k t ∧ staticPriority k t ≤ hi
  upper : ∀ t ∈ readyTasks k, dynamicPriority k t ≤ staticPriority k t
  lower : ∀ pre i post, readyTasks k = pre ++ i :: post →
    lo - n + 1 + ahead (dynamicPriority k) pre post i ≤ dynamicPriority k i

theorem ahead_fits {T : Type} (key : T → Int) {l pre post : List T} {i : T} {n : Nat}
    (split : l = pre ++ i :: post) (fits : l.length ≤ n) : ahead key pre post i + 1 ≤ n := by
  have bound := ahead_le_length key pre post i
  rw [split] at fits
  simp only [List.length_append, List.length_cons] at fits
  omega

theorem start_aged {lo hi : Int} {n : Nat} {k : Kernel N} (s : Start lo hi n k) :
    Aged lo hi n k := by
  refine ⟨s.wellFormed, s.static, fun t mem => (s.reset t mem).le, ?_⟩
  intro pre i post split
  have room := ahead_fits (dynamicPriority k) split s.fits
  have low := (s.static i).1
  rw [s.reset i (by simp [split])]
  omega

theorem shrunk_aged {lo hi : Int} {n : Nat} {k : Kernel N} (a : Aged lo hi n k)
    {m : Queues TaskQueue (Tcb N)} (r : Represents m (elems m))
    (sub : (elems m .readyTasks).Sublist (readyTasks k)) :
    Aged lo hi n { k with queues := m } := by
  refine ⟨r, a.static, fun t mem => a.upper t (sub.subset mem), ?_⟩
  intro pre i post split
  change elems m .readyTasks = pre ++ i :: post at split
  rw [split] at sub
  obtain ⟨pre', post', whole, before, after⟩ := sublist_split sub
  have old := a.lower pre' i post' whole
  have fewer := ahead_sublist (dynamicPriority k) i before after
  change lo - n + 1 + ahead (dynamicPriority k) pre post i ≤ dynamicPriority k i
  omega

theorem joined_aged {lo hi : Int} {n : Nat} {k : Kernel N} (a : Aged lo hi n k)
    {m : Queues TaskQueue (Tcb N)} (r : Represents m (elems m)) {t : Tcb N}
    (joined : elems m .readyTasks = readyTasks k ++ [t])
    (reset : dynamicPriority k t = staticPriority k t)
    (fits : (elems m .readyTasks).length ≤ n) : Aged lo hi n { k with queues := m } := by
  have lowT := (a.static t).1
  refine ⟨r, a.static, ?_, ?_⟩
  · intro x mem
    change x ∈ elems m .readyTasks at mem
    rw [joined, List.mem_append, List.mem_singleton] at mem
    rcases mem with mem | rfl
    · exact a.upper x mem
    · exact reset.le
  · intro pre i post split
    change elems m .readyTasks = pre ++ i :: post at split
    have room := ahead_fits (dynamicPriority k) split fits
    change lo - n + 1 + ahead (dynamicPriority k) pre post i ≤ dynamicPriority k i
    rw [joined] at split
    rcases List.eq_nil_or_concat post with rfl | ⟨post', z, rfl⟩
    · obtain ⟨-, same⟩ := List.append_inj' split rfl
      rw [← List.head_eq_of_cons_eq same] at room ⊢
      omega
    · obtain ⟨whole, same⟩ := List.append_inj'
        (show readyTasks k ++ [t] = (pre ++ i :: post') ++ [z] by rw [split]; simp) rfl
      have old := a.lower pre i post' whole
      rw [← List.head_eq_of_cons_eq same] at room ⊢
      by_cases overtakes : dynamicPriority k t < dynamicPriority k i
      · omega
      · simp only [ahead, List.concat_eq_append, List.countP_append, List.countP_singleton,
          overtakes, decide_false, Bool.false_eq_true, ↓reduceIte] at old ⊢
        omega

theorem event_returns {lo hi : Int} {n : Nat} {k : Kernel N} (a : Aged lo hi n k) (e : Event N) :
    ∃ k' out, perform k e = .ok (k', out) := by
  cases e with
  | schedule =>
    rcases perform_schedule a.wellFormed with ⟨_, run⟩ | ⟨c, _, run⟩ <;> exact ⟨_, _, run⟩
  | append q t => obtain ⟨m, run, _⟩ := perform_append a.wellFormed q t; exact ⟨_, _, run⟩
  | remove q t => obtain ⟨m, run, _⟩ := perform_remove a.wellFormed q t; exact ⟨_, _, run⟩

/-- A task that is passed over has another one ahead of it, which leaves room for one more step. -/
theorem ahead_of_other {T : Type} {key : T → Int} {l pre post : List T} {i c : T}
    (least : FirstLeast key l c) (split : l = pre ++ i :: post) (other : i ≠ c) :
    1 ≤ ahead key pre post i := by
  by_contra none
  have alone : ahead key pre post i = 0 := by omega
  obtain ⟨before, after⟩ := Nat.add_eq_zero_iff.mp alone
  rw [List.countP_eq_zero] at before after
  have first : FirstLeast key l i :=
    ⟨pre, post, split, fun x mem => by simpa using before x mem, fun x mem => by
      simpa using after x mem⟩
  exact other (firstLeast_unique first least)

section Bounds
variable {lo hi : Int} {n : Nat} (high : hi ≤ shrtMax) (low : shrtMin ≤ lo - n + 1)
include high low

theorem passed_ages {k : Kernel N} (a : Aged lo hi n k) {t c : Tcb N}
    (least : FirstLeast (dynamicPriority k) (readyTasks k) c) (mem : t ∈ readyTasks k)
    (other : t ≠ c) : toShort (dynamicPriority k t + alpha) = dynamicPriority k t - 1 := by
  obtain ⟨pre, post, split⟩ := List.append_of_mem mem
  have bound := a.lower pre t post split
  have first := ahead_of_other least split other
  have most := a.upper t mem
  have static := (a.static t).2
  simp only [alpha]
  apply toShort_eq_self <;> omega

theorem schedule_aged {k : Kernel N} (a : Aged lo hi n k) (fits : (readyTasks k).length ≤ n)
    {c : Tcb N} (least : FirstLeast (dynamicPriority k) (readyTasks k) c) :
    Aged lo hi n { k with task := agedTasks k (readyTasks k) c } := by
  have nodup : (readyTasks k).Nodup := (a.wellFormed.ring .readyTasks).nodup
  have reset : (agedTasks k (readyTasks k) c c).dynamicPriority = staticPriority k c := by
    simp [agedTasks, staticPriority]
  have older : ∀ x ∈ readyTasks k, x ≠ c →
      (agedTasks k (readyTasks k) c x).dynamicPriority = dynamicPriority k x - 1 := by
    intro x mx xc
    simp only [agedTasks, xc, mx, ↓reduceIte]
    exact passed_ages high low a least mx xc
  have fixed : ∀ t, (agedTasks k (readyTasks k) c t).staticPriority = staticPriority k t := by
    intro t
    simp only [agedTasks, staticPriority]
    split
    · rfl
    · split <;> rfl
  generalize agedTasks k (readyTasks k) c = task at reset older fixed ⊢
  refine ⟨a.wellFormed, fun t => (by rw [staticPriority, fixed]; exact a.static t), ?_, ?_⟩
  · intro t mem
    have most := a.upper t mem
    rw [staticPriority, fixed, dynamicPriority]
    by_cases tc : t = c
    · rw [tc, reset]
    · rw [older t mem tc]; omega
  · intro pre i post split
    change readyTasks k = pre ++ i :: post at split
    have room := ahead_fits (fun t => (task t).dynamicPriority) split fits
    have lowC := (a.static c).1
    change lo - n + 1 + ahead (fun t => (task t).dynamicPriority) pre post i ≤
      (task i).dynamicPriority
    by_cases ic : i = c
    · rw [ic] at room ⊢
      rw [reset]; omega
    · have before := a.lower pre i post split
      rw [split] at nodup least older
      have keyI := older i (by simp) ic
      rcases ahead_chosen (fun t => (task t).dynamicPriority) nodup least ic older
        with still | gone
      · simp only [reset] at still; omega
      · omega

theorem step_aged {k k' : Kernel N} {e : Event N × List (Option (Tcb N))}
    (a : Aged lo hi n k) (step : Step n k e k') : Aged lo hi n k' := by
  obtain ⟨permitted, run, fits⟩ := step
  obtain ⟨event, out⟩ := e
  cases event with
  | schedule =>
    rcases perform_schedule a.wellFormed with ⟨_, same⟩ | ⟨c, least, picked⟩
    · rw [same, Except.ok.injEq, Prod.mk.injEq] at run
      exact run.1 ▸ a
    · rw [picked, Except.ok.injEq, Prod.mk.injEq] at run
      rw [← run.1] at fits ⊢
      exact schedule_aged high low a fits least
  | append q t =>
    obtain ⟨m, done, r, effect⟩ := perform_append a.wellFormed q t
    rw [done, Except.ok.injEq, Prod.mk.injEq] at run
    rw [← run.1] at fits ⊢
    rcases effect with same | ⟨_, added⟩
    · exact shrunk_aged a r (by rw [same]; exact List.Sublist.refl _)
    · by_cases ready : q = .readyTasks
      · subst ready
        exact joined_aged a r (by rw [added, listAppend_same]; rfl) permitted fits
      · refine shrunk_aged a r ?_
        rw [added, listAppend_other _ _ (Ne.symm ready)]
        exact List.Sublist.refl _
  | remove q t =>
    obtain ⟨m, done, r, effect⟩ := perform_remove a.wellFormed q t
    rw [done, Except.ok.injEq, Prod.mk.injEq] at run
    rw [← run.1]
    refine shrunk_aged a r ?_
    rcases effect with same | removed
    · rw [same]; exact List.Sublist.refl _
    · rw [removed]
      by_cases ready : q = .readyTasks
      · subst ready; rw [listRemove_same]; exact List.erase_sublist
      · rw [listRemove_other _ _ (Ne.symm ready)]; exact List.Sublist.refl _

/-- A scheduler call that passes over a ready task lowers its priority by one; nothing else moves
    it. -/
theorem passed_over {k k' : Kernel N} {e : Event N × List (Option (Tcb N))} {i : Tcb N}
    (a : Aged lo hi n k) (ready : i ∈ readyTasks k) (step : Step n k e k')
    (never : some i ∉ e.2) :
    dynamicPriority k' i = dynamicPriority k i - e.2.length := by
  obtain ⟨_, run, _⟩ := step
  obtain ⟨event, out⟩ := e
  cases event with
  | schedule =>
    rcases perform_schedule a.wellFormed with ⟨empty, _⟩ | ⟨c, least, picked⟩
    · rw [empty] at ready; cases ready
    · rw [picked, Except.ok.injEq, Prod.mk.injEq] at run
      have other : i ≠ c := fun same => never (by rw [← run.2, same]; simp)
      rw [← run.1, ← run.2]
      change (agedTasks k (readyTasks k) c i).dynamicPriority = _
      simp only [agedTasks, other, ready, ↓reduceIte]
      exact passed_ages high low a least ready other
  | append q t =>
    obtain ⟨m, done, _⟩ := perform_append a.wellFormed q t
    rw [done, Except.ok.injEq, Prod.mk.injEq] at run
    rw [← run.1, ← run.2]
    simp [dynamicPriority]
  | remove q t =>
    obtain ⟨m, done, _⟩ := perform_remove a.wellFormed q t
    rw [done, Except.ok.injEq, Prod.mk.injEq] at run
    rw [← run.1, ← run.2]
    simp [dynamicPriority]

theorem passed_over_run {k k' : Kernel N} {i : Tcb N} {window}
    (run : Run (fun k e k' => Step n k e k' ∧ i ∈ readyTasks k') k window k')
    (a : Aged lo hi n k) (ready : i ∈ readyTasks k) (never : some i ∉ picks window) :
    Aged lo hi n k' ∧ i ∈ readyTasks k' ∧
      dynamicPriority k' i = dynamicPriority k i - (picks window).length := by
  induction run with
  | start => exact ⟨a, ready, by simp [picks]⟩
  | @step mid final labels l _ last ih =>
    have split : picks (labels ++ [l]) = picks labels ++ l.2 := by simp [picks]
    rw [split, List.mem_append, not_or] at never
    obtain ⟨aged, there, sofar⟩ := ih never.1
    have drop := passed_over high low aged there last.1 never.2
    refine ⟨step_aged high low aged last.1, last.2, ?_⟩
    rw [split, List.length_append, drop, sofar]
    push_cast
    omega

end Bounds

theorem no_wrap {lo hi : Int} {n : Nat} (high : hi ≤ shrtMax) (low : shrtMin ≤ lo - n)
    {k : Kernel N} (a : Aged lo hi n k) {t : Tcb N} (mem : t ∈ readyTasks k) :
    toShort (dynamicPriority k t + alpha) = dynamicPriority k t + alpha := by
  obtain ⟨pre, post, split⟩ := List.append_of_mem mem
  have least := a.lower pre t post split
  have most := a.upper t mem
  have static := (a.static t).2
  simp only [alpha]
  apply toShort_eq_self <;> omega

/-- In every state of such a run each call returns and no ready task is aged past the lowest short,
    and a task that stays ready is picked within (hi - lo) + n calls. -/
theorem ready_task_is_picked {lo hi : Int} {n : Nat} (high : hi ≤ shrtMax)
    (low : shrtMin ≤ lo - n) {k₀ k : Kernel N} {past} (start : Start lo hi n k₀)
    (run : Run (Step n) k₀ past k) :
    (∀ e, ∃ k' out, perform k e = .ok (k', out)) ∧
    (∀ t ∈ readyTasks k,
      toShort (dynamicPriority k t + alpha) = dynamicPriority k t + alpha) ∧
    ∀ i ∈ readyTasks k, ∀ window k',
      Run (fun k e k' => Step n k e k' ∧ i ∈ readyTasks k') k window k' →
      ((picks window).length : Int) = hi - lo + n → some i ∈ picks window := by
  have room : shrtMin ≤ lo - n + 1 := by omega
  have aged : Aged lo hi n k :=
    run_invariant (Aged lo hi n) (fun _ _ _ a step => step_aged high room a step) run
      (start_aged start)
  refine ⟨event_returns aged, fun t mem => no_wrap high low aged mem, ?_⟩
  intro i ready window k' stays calls
  by_contra never
  obtain ⟨aged', there, drop⟩ := passed_over_run high room stays aged ready never
  obtain ⟨pre, post, split⟩ := List.append_of_mem there
  have least := aged'.lower pre i post split
  have most := aged.upper i ready
  have static := (aged.static i).2
  omega

section Executions

def joins : Event N → Option (Tcb N)
  | .append .readyTasks t => some t
  | _ => none

omit [DecidableEq N] [Fintype N] in
theorem permitted_iff (k : Kernel N) (e : Event N) :
    (∀ t ∈ joins e, dynamicPriority k t = staticPriority k t) ↔ Permitted k e := by
  cases e with
  | append q t => cases q <;> simp [joins, Permitted]
  | _ => simp [joins, Permitted]

instance (k : Kernel N) (e : Event N) : Decidable (Permitted k e) :=
  decidable_of_iff _ (permitted_iff k e)

/-- An event whose scheduler calls return what its label says. -/
def attempt (k : Kernel N) (e : Event N × List (Option (Tcb N))) : Option (Kernel N) :=
  (perform k e.1).toOption.bind fun r => if r.2 = e.2 then some r.1 else none

theorem attempt_eq {k k' : Kernel N} {e : Event N × List (Option (Tcb N))}
    (done : attempt k e = some k') : perform k e.1 = .ok (k', e.2) := by
  obtain ⟨⟨middle, out⟩, ran, same⟩ := Option.bind_eq_some_iff.mp done
  split at same
  · rename_i told
    cases same
    cases result : perform k e.1 with
    | error halt => rw [result] at ran; cases ran
    | ok r =>
      rw [result] at ran
      cases ran
      exact congrArg (fun out => Except.ok (middle, out)) told
  · cases same

def unequalKernel : Kernel (Fin 2) :=
  { bootKernel with task := fun t => match t with
      | .mainTask => { zeroedTask with dynamicPriority := 2, staticPriority := 2 }
      | .user n => { zeroedTask with dynamicPriority := n, staticPriority := n }
      | _ => zeroedTask }

/-- Both other tasks arrive, and one of them is picked. -/
def arrivals : List (Event (Fin 2) × List (Option (Tcb (Fin 2)))) :=
  [(.append .readyTasks (.user 0), []), (.append .readyTasks (.user 1), []),
    (.schedule, [some (.user 0)])]

/-- Five calls, between which the most favoured task leaves and goes to sleep. -/
def fiveCalls : List (Event (Fin 2) × List (Option (Tcb (Fin 2)))) :=
  [(.schedule, [some (.user 0)]), (.remove .readyTasks (.user 0), []),
    (.schedule, [some (.user 1)]), (.schedule, [some .mainTask]),
    (.append .sleepingTasks (.user 0), []), (.schedule, [some (.user 1)]),
    (.schedule, [some .mainTask])]

end Executions

theorem least_favoured_is_picked : ∃ k k' : Kernel (Fin 2),
    Run (Step 3) unequalKernel arrivals k ∧ readyTasks k = [.mainTask, .user 0, .user 1] ∧
    Run (fun k e k' => Step 3 k e k' ∧ .mainTask ∈ readyTasks k') k fiveCalls k' ∧
    some .mainTask ∈ picks fiveCalls := by
  obtain ⟨k, arrived, ready, ends⟩ := exec_reaches
    (guarded (fun k e k' => Permitted k e.1 ∧ (readyTasks k').length ≤ 3) attempt)
    unequalKernel arrivals (fun k => readyTasks k = [.mainTask, .user 0, .user 1] ∧
      (exec (guarded (fun k e k' => (Permitted k e.1 ∧ (readyTasks k').length ≤ 3) ∧
        .mainTask ∈ readyTasks k') attempt) k fiveCalls).isSome = true) (by decide +kernel)
  obtain ⟨k', called⟩ := Option.isSome_iff_exists.mp ends
  have past : Run (Step 3) unequalKernel arrivals k :=
    run_mono (fun _ _ _ next => ⟨next.2.1, attempt_eq next.1, next.2.2⟩) (guarded_run arrived)
  have window : Run (fun k e k' => Step 3 k e k' ∧ .mainTask ∈ readyTasks k') k fiveCalls k' :=
    run_mono (fun _ _ _ next => ⟨⟨next.2.1.1, attempt_eq next.1, next.2.1.2⟩, next.2.2⟩)
      (guarded_run called)
  have alone : readyTasks unequalKernel = [.mainTask] := by decide
  have same : elems unequalKernel.queues = bootLists := boot_represents.elems_eq
  have start : Start 0 2 3 unequalKernel := by
    refine ⟨same ▸ boot_represents, by rw [alone]; decide, fun t => ?_, fun t mem => ?_⟩
    · revert t
      decide
    · revert t
      decide
  have picked := (ready_task_is_picked (by decide) (by decide) start past).2.2 .mainTask
    (by rw [ready]; simp) fiveCalls k' window (by decide)
  exact ⟨k, k', past, ready, window, picked⟩

end SchedulerAging
