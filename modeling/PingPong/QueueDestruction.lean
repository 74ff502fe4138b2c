import PingPong.MessageQueues

/-!
Destroying a message queue while calls on it are in progress. mqueue_destroy first wakes the
blocked calls, one semaphore after the other, then empties the buffer, and only then clears
active, which is what the calls test after their two sem_down.
-/
namespace QueueDestruction
open MachineModel CircularList QueueModel KernelModel KernelEffects TaskPlacement SystemModel
open SystemFrames TransitionRuns FiniteTally SemaphoreBalance TaskConservation MessageQueues
variable {N : Type} [DecidableEq N] [Fintype N]

section Observing

/-- The system, with what has become of the queue: whether mqueue_destroy has been called and
    has returned, which calls a destroyed semaphore has let through, and the values that
    these calls have returned. -/
structure Observed (N : Type) where
  system : System N
  begun : Bool
  returned : Bool
  cut : Tcb N → Bool
  answered : List Int

def onQueue (q : Nat) : Ctl N → Bool
  | .send p _ _ | .recv p _ _ => p = q
  | _ => false

def downs : Ctl N → Option SemAddr
  | .send q _ .vaga => some (.sVaga q)
  | .send q _ .buffer | .recv q _ .buffer => some (.sBuffer q)
  | .recv q _ .item => some (.sItem q)
  | _ => none

def destroys : Ctl N → Option SemAddr
  | .destroy q .buffer => some (.sBuffer q)
  | .destroy q .item => some (.sItem q)
  | .destroy q .vaga => some (.sVaga q)
  | _ => none

/-- The call is blocked on the semaphore being destroyed, or finds its semaphore destroyed. -/
def cuts (q : Nat) (s : System N) (l : Label N) (t : Tcb N) : Bool :=
  match l with
  | .run _ _ =>
    (match destroys (s.ctl s.curr) with
      | some x => semClient x = .queue q && t ∈ waiting x s
      | none => false) ||
    (match downs (s.ctl s.curr) with
      | some x => semClient x = .queue q && t = s.curr && (s.kernel.sem x).active = 0
      | none => false)
  | _ => false

def beginsDestroy (q : Nat) : Label N → Bool
  | .call (.mqueueDestroy (some p)) => p = q
  | _ => false

def endsDestroy (q : Nat) (s : System N) : Label N → Bool
  | .run _ _ => match s.ctl s.curr with
      | .destroy p .close => p = q
      | _ => false
  | _ => false

def answers (s' : System N) (t : Tcb N) : List Int :=
  match s'.ctl t with
  | .body code => [code]
  | _ => []

def observe (q : Nat) (a : Observed N) (l : Label N) (s' : System N) : Observed N :=
  { system := s'
    begun := a.begun || beginsDestroy q l
    returned := a.returned || endsDestroy q a.system l
    cut := fun t => onQueue q (s'.ctl t) && (a.cut t || cuts q a.system l t)
    answered := a.answered ++
      if a.cut a.system.curr then answers s' a.system.curr else [] }

def DestroyedOnce (q : Nat) (a : Observed N) : Label N → Prop
  | .call (.mqueueInit (some p) _ _) => p ≠ q
  | .call (.mqueueDestroy (some p)) => p = q → a.begun = false
  | _ => True

def Observes (q : Nat) (a : Observed N) (l : Label N) (b : Observed N) : Prop :=
  Operates a.system l b.system ∧ b = observe q a l b.system ∧ DestroyedOnce q a l

/-- A queue just initialised, in storage whose locks are 0; nobody uses it yet. -/
structure JustInitialised (q : Nat) (max size : Int) (a : Observed N) : Prop where
  conserved : Conserved a.system
  mqueue : a.system.mqueue q = ⟨[], max, size, 1⟩
  sBuffer : a.system.kernel.sem (.sBuffer q) = ⟨1, 0, 1⟩
  sItem : a.system.kernel.sem (.sItem q) = ⟨0, 0, 1⟩
  sVaga : a.system.kernel.sem (.sVaga q) = ⟨max, 0, 1⟩
  noWaiters : ∀ x, semClient x = .queue q → waiting x a.system = []
  outside : ∀ t, ctlClient (a.system.ctl t) ≠ .queue q
  begun : a.begun = false
  returned : a.returned = false
  cut : ∀ t, a.cut t = false
  answered : a.answered = []

/-- No receiver copies from an empty buffer, every call that the destruction has let through
    waits no more and returns -1, and the buffer stays empty after mqueue_destroy has
    returned. -/
structure Safe (q : Nat) (a : Observed N) : Prop where
  neverEmpty : ∀ t m, a.system.ctl t = .recv q m .take → buffer q a.system ≠ []
  freed : ∀ t, a.cut t = true → (∀ x, semClient x = .queue q → t ∉ waiting x a.system) ∧
    ∀ x ∈ downs (a.system.ctl t), (a.system.kernel.sem x).active = 0
  refused : ∀ code ∈ a.answered, code = -1
  emptied : a.returned = true → buffer q a.system = []

end Observing

section Conditions

/-- Between its last test of active and its buffer operation, or about to make that test. -/
def atAccess (q : Nat) : Ctl N → Bool
  | .send p _ .check | .send p _ .store => p = q
  | .recv p _ .check | .recv p _ .take => p = q
  | _ => false

/-- A call that a destroyed semaphore has let through tests active only when it is 0. -/
def TestsLate (q : Nat) (a : Observed N) : Label N → Prop
  | .run _ _ => match a.system.ctl a.system.curr with
      | .send p _ .check | .recv p _ .check =>
        p = q → a.cut a.system.curr = true → (a.system.mqueue q).active = 0
      | _ => True
  | _ => True

/-- mqueue_destroy runs its loop only while no call that has taken s_buffer itself is on its
    way to its buffer operation. -/
def DrainsAlone (q : Nat) (a : Observed N) : Label N → Prop
  | .run _ _ => match a.system.ctl a.system.curr with
      | .destroy p .drain =>
        p = q → ∀ t, atAccess q (a.system.ctl t) = true → a.cut t = true
      | _ => True
  | _ => True

/-- While they are in use, the counters of s_item and s_buffer stay in the range of an int. -/
def CountersFit (q : Nat) (s : System N) : Label N → Prop
  | .run _ _ =>
    (∀ x ∈ downs (s.ctl s.curr), x = .sBuffer q ∨ x = .sItem q →
      (s.kernel.sem x).active ≠ 0 → intMin < count x s) ∧
    (match s.ctl s.curr with
      | .send p _ .upItem =>
        p = q → (s.kernel.sem (.sItem q)).active ≠ 0 → count (.sItem q) s < intMax
      | _ => True)
  | _ => True

end Conditions

section Standing

inductive Stage where
  | whole
  | buffer
  | item
  | vaga
  | empty
  | closed
  deriving DecidableEq

def Stage.opens : Stage → SemAddr → Bool
  | .whole, _ => true
  | .buffer, .sItem _ | .buffer, .sVaga _ => true
  | .item, .sVaga _ => true
  | _, _ => false

def stageAt : DestroyPoint → Stage
  | .buffer => .whole
  | .item => .buffer
  | .vaga => .item
  | .drain => .vaga
  | .close => .empty

def Stage.ends (st : Stage) : Prop := st = .empty ∨ st = .closed

def waitsAt (q : Nat) : SemAddr → Ctl N → Bool
  | .sItem _, .recv p _ .buffer => p = q
  | .sVaga _, .send p _ .buffer => p = q
  | .sBuffer _, .send p _ .check | .sBuffer _, .recv p _ .check => p = q
  | _, _ => false

def atCut (q : Nat) : Ctl N → Bool
  | .send p _ .buffer | .send p _ .check => p = q
  | .recv p _ .buffer | .recv p _ .check => p = q
  | _ => false

/-- A receiver that has taken both its semaphores and has not copied its message yet. -/
def atCopy (q : Nat) : Ctl N → Bool
  | .recv p _ .check | .recv p _ .take => p = q
  | _ => false

/-- Where a task may stand. A call that was let through is before its test; a receiver that
    was not finds a message, and nobody is on its way to the buffer once it has been emptied. -/
structure Allowed (q : Nat) (st : Stage) (empty : Prop) (c : Ctl N) (loose : Bool) :
    Prop where
  destroys : ∀ p, c = .destroy q p → st = stageAt p
  cut : loose = true → st ≠ .whole ∧ atCut q c = true
  stocked : loose = false → atCopy q c = true → st.opens (.sItem q) = false → ¬ empty
  emptied : loose = false → st.ends → atAccess q c = false

structure ItemsCounted (q : Nat) (s : System N) : Prop where
  balanced : Balanced s.kernel (.sItem q)
  low : intMin ≤ count (.sItem q) s
  high : count (.sItem q) s ≤ intMax
  item : count (.sItem q) s = (buffer q s).length - total (itemShare q) s

structure BufferHeld (q : Nat) (s : System N) : Prop where
  balanced : Balanced s.kernel (.sBuffer q)
  low : intMin ≤ count (.sBuffer q) s
  held : count (.sBuffer q) s ≤ 1 - total (bufferShare q) s

structure Standing (q : Nat) (st : Stage) (a : Observed N) : Prop where
  conserved : Conserved a.system
  sems : ∀ x, semClient x = .queue q →
    ((a.system.kernel.sem x).active ≠ 0 ↔ st.opens x = true)
  asleep : ∀ x, semClient x = .queue q → ∀ t ∈ waiting x a.system,
    st.opens x = true ∧ waitsAt q x (a.system.ctl t) = true ∧ a.cut t = false
  active : (a.system.mqueue q).active ≠ 0 ↔ st ≠ .closed
  emptied : st.ends → buffer q a.system = []
  begun : a.begun = false → st = .whole ∧ ∀ t p, a.system.ctl t ≠ .destroy q p
  single : ∀ t u p p', a.system.ctl t = .destroy q p → a.system.ctl u = .destroy q p' → t = u
  returned : a.returned = true → st = .closed
  answered : ∀ code ∈ a.answered, code = -1
  each : ∀ t, Allowed q st (buffer q a.system = []) (a.system.ctl t) (a.cut t)
  items : st.opens (.sItem q) = true → ItemsCounted q a.system
  held : st = .whole → BufferHeld q a.system
  lone : st ≠ .whole → ∀ t u, a.cut t = false → a.cut u = false →
    atAccess q (a.system.ctl t) = true → atAccess q (a.system.ctl u) = true → t = u

variable {q : Nat} {st : Stage} {a b : Observed N} {max size : Int}

omit [DecidableEq N] [Fintype N] in
theorem waits_cut {x : SemAddr} {c : Ctl N} (waits : waitsAt q x c = true) :
    atCut q c = true := by
  cases x <;> cases c <;> first
    | cases waits
    | (rename_i p _ point; cases point <;> first | exact waits | cases waits)

omit [DecidableEq N] [Fintype N] in
theorem atCopy_access {c : Ctl N} (copies : atCopy q c = true) : atAccess q c = true := by
  unfold atCopy at copies
  split at copies <;> simp_all [atAccess]

omit [DecidableEq N] [Fintype N] in
theorem atAccess_on {c : Ctl N} (inside : atAccess q c = true) : onQueue q c = true := by
  unfold atAccess at inside
  split at inside <;> simp_all [onQueue]

omit [DecidableEq N] [Fintype N] in
theorem allowed_off {empty : Prop} {c : Ctl N} (off : ctlClient c ≠ .queue q) :
    Allowed q st empty c false := by
  have notAccess : atAccess q c = false := by
    unfold atAccess
    split <;> simp_all [ctlClient]
  refine ⟨?_, by simp, fun _ copies => ?_, fun _ _ => notAccess⟩
  · rintro p rfl
    exact absurd rfl off
  · rw [atCopy_access copies] at notAccess
    cases notAccess

theorem just_standing (fresh : JustInitialised q max size a) : Standing q .whole a := by
  have none : ∀ {w : Ctl N → Int}, (∀ c, ctlClient c ≠ .queue q → w c = 0) →
      total w a.system = 0 := fun off => tally_zero fun t => off _ (fresh.outside t)
  have empty : buffer q a.system = [] := by rw [buffer, fresh.mqueue]
  have lists : ∀ x, semClient x = .queue q →
      (tasks a.system.kernel (.semQueue x)).length = 0 := fun x mine => by
    rw [show tasks a.system.kernel (.semQueue x) = [] from fresh.noWaiters x mine]
    rfl
  refine ⟨fresh.conserved, ?_, ?_, ?_, fun _ => empty, ?_, ?_, ?_, ?_, ?_, fun _ => ?_,
    fun _ => ?_, fun open' => absurd rfl open'⟩
  · intro x mine
    rcases queue_sems mine with rfl | rfl | rfl
    · rw [fresh.sBuffer]; simp [Stage.opens]
    · rw [fresh.sItem]; simp [Stage.opens]
    · rw [fresh.sVaga]; simp [Stage.opens]
  · intro x mine t mem
    rw [fresh.noWaiters x mine] at mem
    cases mem
  · rw [fresh.mqueue]
    simp
  · refine fun _ => ⟨rfl, fun t p here => ?_⟩
    exact fresh.outside t (by rw [here]; rfl)
  · intro t u p p' here
    exact absurd (by rw [here]; rfl) (fresh.outside t)
  · rw [fresh.returned]
    intro off
    cases off
  · rw [fresh.answered]
    intro code mem
    cases mem
  · intro t
    rw [fresh.cut]
    exact allowed_off (fresh.outside t)
  · refine ⟨⟨by rw [fresh.sItem]; simp, by rw [fresh.sItem], ?_⟩, ?_, ?_, ?_⟩
    · rw [lists _ rfl, fresh.sItem]
      rfl
    · rw [count, fresh.sItem]; decide
    · rw [count, fresh.sItem]; decide
    · rw [count, fresh.sItem, empty, none fun _ => itemShare_off]
      rfl
  · refine ⟨⟨by rw [fresh.sBuffer]; simp, by rw [fresh.sBuffer], ?_⟩, ?_, ?_⟩
    · rw [lists _ rfl, fresh.sBuffer]
      rfl
    · rw [count, fresh.sBuffer]; decide
    · rw [count, fresh.sBuffer, none fun _ => bufferShare_off]
      decide

omit [DecidableEq N] [Fintype N] in
theorem atCut_client {c : Ctl N} (here : atCut q c = true) :
    ctlClient c = .queue q ∧ onQueue q c = true := by
  unfold atCut at here
  split at here <;> simp_all [ctlClient, onQueue]

omit [DecidableEq N] [Fintype N] in
theorem atAccess_client {c : Ctl N} (here : atAccess q c = true) : ctlClient c = .queue q := by
  unfold atAccess at here
  split at here <;> simp_all [ctlClient]

omit [DecidableEq N] [Fintype N] in
theorem waitsAt_client {x : SemAddr} {c : Ctl N} (here : waitsAt q x c = true) :
    ctlClient c = .queue q := (atCut_client (waits_cut here)).1

omit [DecidableEq N] [Fintype N] in
theorem downs_client {c : Ctl N} {x : SemAddr} (here : downs c = some x) :
    semClient x = ctlClient c := by
  unfold downs at here
  split at here <;> cases here <;> rfl

omit [DecidableEq N] [Fintype N] in
theorem destroys_client {c : Ctl N} {x : SemAddr} (here : destroys c = some x) :
    semClient x = ctlClient c := by
  unfold destroys at here
  split at here <;> cases here <;> rfl

theorem cuts_off {s : System N} {l : Label N} (other : client s l ≠ .queue q) (t : Tcb N) :
    cuts q s l t = false := by
  cases l with
  | run m₁ m₂ =>
    have off : ∀ {x}, semClient x = ctlClient (s.ctl s.curr) → semClient x ≠ .queue q :=
      fun same mine => other (same.symm.trans mine)
    simp only [cuts, Bool.or_eq_false_iff]
    constructor
    · cases found : destroys (s.ctl s.curr) with
      | none => rfl
      | some x => simp [off (destroys_client found)]
    · cases found : downs (s.ctl s.curr) with
      | none => rfl
      | some x => simp [off (downs_client found)]
  | _ => rfl

section Framed
variable {s s' : System N}

theorem balanced_framed (framed : Framed (.queue q) s s') {x : SemAddr}
    (mine : semClient x = .queue q) (before : Balanced s.kernel x) : Balanced s'.kernel x := by
  have queue : tasks s'.kernel (.semQueue x) = tasks s.kernel (.semQueue x) :=
    framed.lists (.semQueue x) (by simp) mine
  exact ⟨by rw [framed.sem x mine]; exact before.active,
    by rw [framed.sem x mine]; exact before.free,
    by rw [framed.sem x mine, queue]; exact before.waiters⟩

theorem items_framed (framed : Framed (.queue q) s s') (before : ItemsCounted q s) :
    ItemsCounted q s' := by
  have data : QueueData q s s' := framed.data
  have same : buffer q s' = buffer q s := by rw [buffer, data.mqueue]; rfl
  have counts : count (.sItem q) s' = count (.sItem q) s := by rw [count, framed.sem _ rfl]; rfl
  refine ⟨balanced_framed framed rfl before.balanced, ?_, ?_, ?_⟩
  · rw [counts]; exact before.low
  · rw [counts]; exact before.high
  · rw [counts, same, total_framed (fun _ => itemShare_off) framed]
    exact before.item

theorem held_framed (framed : Framed (.queue q) s s') (before : BufferHeld q s) :
    BufferHeld q s' := by
  have counts : count (.sBuffer q) s' = count (.sBuffer q) s := by
    rw [count, framed.sem _ rfl]; rfl
  refine ⟨balanced_framed framed rfl before.balanced, ?_, ?_⟩
  · rw [counts]; exact before.low
  · rw [counts, total_framed (fun _ => bufferShare_off) framed]
    exact before.held

end Framed

theorem observe_framed (std : Standing q st a) {l : Label N} {s' : System N}
    (framed : Framed (.queue q) a.system s') (other : client a.system l ≠ .queue q) :
    (observe q a l s').cut = a.cut ∧ (observe q a l s').begun = a.begun ∧
      (observe q a l s').returned = a.returned ∧ (observe q a l s').answered = a.answered := by
  have stays : ∀ {t}, ctlClient (a.system.ctl t) = .queue q → s'.ctl t = a.system.ctl t := by
    intro t mine
    exact (framed.ctl t).resolve_right fun off => off.1 mine
  refine ⟨?_, ?_, ?_, ?_⟩
  · funext t
    simp only [observe, cuts_off other, Bool.or_false]
    cases through : a.cut t with
    | false => exact Bool.and_false _
    | true =>
      obtain ⟨mine, on⟩ := atCut_client ((std.each t).cut through).2
      rw [stays mine, on]
      rfl
  · have none : beginsDestroy q l = false := by
      cases l with
      | call c =>
        cases c with
        | mqueueDestroy p =>
          cases p with
          | none => rfl
          | some p => exact decide_eq_false fun same => other (by rw [same]; rfl)
        | _ => rfl
      | _ => rfl
    simp only [observe, none, Bool.or_false]
  · have none : endsDestroy q a.system l = false := by
      cases l with
      | run m₁ m₂ =>
        have off : ctlClient (a.system.ctl a.system.curr) ≠ .queue q := other
        simp only [endsDestroy]
        split
        · rename_i here
          exact decide_eq_false fun same => off (by rw [here, same]; rfl)
        · rfl
      | _ => rfl
    simp only [observe, none, Bool.or_false]
  · simp only [observe]
    split
    · rename_i through
      obtain ⟨mine, on⟩ := atCut_client ((std.each _).cut through).2
      rw [answers, stays mine]
      cases at' : a.system.ctl a.system.curr <;> rw [at'] at mine <;>
        first | exact List.append_nil _ | cases mine
    · exact List.append_nil _

theorem standing_framed (std : Standing q st a) {l : Label N} {s' : System N}
    (conserved : Conserved s') (framed : Framed (.queue q) a.system s')
    (other : client a.system l ≠ .queue q) : Standing q st (observe q a l s') := by
  obtain ⟨cut, begun, returned, answered⟩ := observe_framed std framed other
  have data : QueueData q a.system s' := framed.data
  have stays : ∀ {t}, ctlClient (a.system.ctl t) = .queue q → s'.ctl t = a.system.ctl t := by
    intro t mine
    exact (framed.ctl t).resolve_right fun off => off.1 mine
  have stayed : ∀ {t}, ctlClient (s'.ctl t) = .queue q → s'.ctl t = a.system.ctl t := by
    intro t mine
    exact (framed.ctl t).resolve_right fun off => off.2 mine
  have same : buffer q s' = buffer q a.system := by rw [buffer, data.mqueue]; rfl
  have lists : ∀ x, semClient x = .queue q → waiting x s' = waiting x a.system :=
    fun x mine => framed.lists (.semQueue x) (by simp) mine
  refine ⟨conserved, ?_, ?_, ?_, ?_, ?_, ?_, ?_, ?_, ?_,
    fun open' => items_framed framed (std.items open'),
    fun whole => held_framed framed (std.held whole), ?_⟩
  · intro x mine
    change (s'.kernel.sem x).active ≠ 0 ↔ _
    rw [framed.sem x mine]
    exact std.sems x mine
  · intro x mine t mem
    rw [cut]
    have mem' : t ∈ waiting x s' := mem
    rw [lists x mine] at mem'
    obtain ⟨open', waits, cut'⟩ := std.asleep x mine t mem'
    refine ⟨open', ?_, cut'⟩
    change waitsAt q x (s'.ctl t) = true
    rw [stays (waitsAt_client waits)]
    exact waits
  · change (s'.mqueue q).active ≠ 0 ↔ _
    rw [data.mqueue]
    exact std.active
  · intro ends
    exact same.trans (std.emptied ends)
  · rw [begun]
    intro no
    refine ⟨(std.begun no).1, fun t p here => (std.begun no).2 t p ?_⟩
    rw [← stayed (by rw [show s'.ctl t = _ from here]; rfl)]
    exact here
  · intro t u p p' first second
    refine std.single t u p p' ?_ ?_
    · rw [← stayed (by rw [show s'.ctl t = _ from first]; rfl)]
      exact first
    · rw [← stayed (by rw [show s'.ctl u = _ from second]; rfl)]
      exact second
  · rw [returned]
    exact std.returned
  · rw [answered]
    exact std.answered
  · intro t
    rw [cut, show buffer q (observe q a l s').system = _ from same]
    rcases framed.ctl t with stay | ⟨before, after⟩
    · rw [show (observe q a l s').system.ctl t = _ from stay]
      exact std.each t
    · have tight : a.cut t = false := by
        by_contra through
        exact before (atCut_client ((std.each t).cut (by simpa using through)).2).1
      rw [tight]
      exact allowed_off after
  · intro begins t u cutT cutU first second
    rw [cut] at cutT cutU
    have first' : atAccess q (s'.ctl t) = true := first
    have second' : atAccess q (s'.ctl u) = true := second
    rw [stayed (atAccess_client first')] at first'
    rw [stayed (atAccess_client second')] at second'
    exact std.lone begins t u cutT cutU first' second'

theorem observe_cut (std : Standing q st a) {l : Label N} {s' : System N} {new : Ctl N}
    (ctl : s'.ctl = Function.update a.system.ctl a.system.curr new)
    (quiet : ∀ t, t ≠ a.system.curr → cuts q a.system l t = false) :
    (observe q a l s').cut = Function.update a.cut a.system.curr
      (onQueue q new && (a.cut a.system.curr || cuts q a.system l a.system.curr)) := by
  funext t
  simp only [observe, ctl, Function.update_apply]
  split
  · rename_i own
    rw [own]
  · rename_i other
    rw [quiet t other, Bool.or_false]
    cases through : a.cut t with
    | false => exact Bool.and_false _
    | true =>
      rw [(atCut_client ((std.each t).cut through).2).2]
      rfl

theorem standing_entry (std : Standing q st a) {l : Label N} {s' : System N} {old new : Ctl N}
    {c : Bool} (conserved : Conserved s') (here : a.system.ctl a.system.curr = old)
    (ctl : s'.ctl = Function.update a.system.ctl a.system.curr new)
    (cut : (observe q a l s').cut = Function.update a.cut a.system.curr c)
    (sems : ∀ x, semClient x = .queue q →
      (s'.kernel.sem x).active = (a.system.kernel.sem x).active)
    (waits : ∀ x, semClient x = .queue q → ∀ t ∈ waiting x s', t ∈ waiting x a.system ∨
      t = a.system.curr ∧ st.opens x = true ∧ waitsAt q x new = true ∧ c = false)
    (active : (s'.mqueue q).active = (a.system.mqueue q).active)
    (emptied : st.ends → buffer q s' = [])
    (begun : (observe q a l s').begun = false → a.begun = false ∧ ∀ p, new ≠ .destroy q p)
    (single : ∀ p, new = .destroy q p → (∃ p', old = .destroy q p') ∨ a.begun = false)
    (returned : (observe q a l s').returned = a.returned)
    (answered : ∀ code ∈ (observe q a l s').answered, code = -1)
    (own : Allowed q st (buffer q s' = []) new c)
    (others : ∀ t, t ≠ a.system.curr → a.cut t = false → atCopy q (a.system.ctl t) = true →
      st.opens (.sItem q) = false → buffer q s' = [] → buffer q a.system = [])
    (items : st.opens (.sItem q) = true → ItemsCounted q s')
    (held : st = .whole → BufferHeld q s')
    (lone : st ≠ .whole → c = false → atAccess q new = true →
      a.cut a.system.curr = false ∧ atAccess q old = true) :
    Standing q st (observe q a l s') := by
  subst here
  have ctl' : (observe q a l s').system.ctl =
      Function.update a.system.ctl a.system.curr new := ctl
  -- nobody who waits is the running task
  have asleepOther : ∀ {x t}, t ∈ waiting x a.system → t ≠ a.system.curr := by
    rintro x t mem rfl
    exact current_nowhere_else std.conserved.placed (by simp) mem
  refine ⟨conserved, ?_, ?_, ?_, emptied, ?_, ?_, ?_, answered, ?_, items, held, ?_⟩
  · intro x mine
    rw [show ((observe q a l s').system.kernel.sem x).active = _ from sems x mine]
    exact std.sems x mine
  · intro x mine t mem
    rw [cut, ctl']
    rcases waits x mine t mem with old | ⟨rfl, open', at', tight⟩
    · rw [Function.update_of_ne (asleepOther old), Function.update_of_ne (asleepOther old)]
      exact std.asleep x mine t old
    · rw [Function.update_self, Function.update_self]
      exact ⟨open', at', tight⟩
  · rw [show ((observe q a l s').system.mqueue q).active = _ from active]
    exact std.active
  · intro no
    obtain ⟨before, notDestroy⟩ := begun no
    obtain ⟨whole, none⟩ := std.begun before
    refine ⟨whole, fun t p => ?_⟩
    rw [ctl', Function.update_apply]
    split
    · exact notDestroy p
    · exact none t p
  · intro t u p p' first second
    rw [ctl', Function.update_apply] at first second
    have alone : ∀ {p p' v}, new = .destroy q p → a.system.ctl v = .destroy q p' →
        a.system.curr = v := by
      intro p p' v own other
      rcases single p own with ⟨p'', was⟩ | before
      · exact std.single _ _ _ _ was other
      · exact absurd other ((std.begun before).2 v p')
    split at first
    · rename_i mine
      split at second
      · rename_i mine'
        rw [mine, mine']
      · rw [mine]
        exact alone first second
    · split at second
      · rename_i mine'
        rw [mine']
        exact (alone second first).symm
      · exact std.single t u p p' first second
  · rw [returned]
    exact std.returned
  · intro t
    rw [cut, ctl', Function.update_apply, Function.update_apply]
    split
    · exact own
    · rename_i other
      have before := std.each t
      refine ⟨before.destroys, before.cut, fun tight copies shut empty => ?_, before.emptied⟩
      exact before.stocked tight copies shut (others t other tight copies shut empty)
  · intro begins t u cutT cutU first second
    rw [cut, Function.update_apply] at cutT cutU
    rw [ctl', Function.update_apply] at first second
    split at cutT
    · rename_i mine
      rw [if_pos mine] at first
      obtain ⟨tight, access⟩ := lone begins cutT first
      split at cutU
      · rename_i mine'
        rw [mine, mine']
      · rename_i other
        rw [if_neg other] at second
        rw [mine]
        exact std.lone begins _ u tight cutU access second
    · rename_i other
      rw [if_neg other] at first
      split at cutU
      · rename_i mine'
        rw [if_pos mine'] at second
        obtain ⟨tight, access⟩ := lone begins cutU second
        rw [mine']
        exact std.lone begins t _ cutT tight first access
      · rename_i other'
        rw [if_neg other'] at second
        exact std.lone begins t u cutT cutU first second

end Standing

end QueueDestruction
