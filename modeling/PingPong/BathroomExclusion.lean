import PingPong.FiniteTally
import PingPong.TransitionRuns

/-! The bathroom of coordination/bathrooms.c, used by any number of threads running man and any
number running woman. A semaphore is a number of tokens that any waiting thread may take. -/
namespace BathroomExclusion
open TransitionRuns FiniteTally

inductive Sem where
  | bathS
  | ocppS
  | menS
  | womanS
  | countS
  deriving DecidableEq

structure Bathroom where
  sem : Sem → Nat
  ocpp : Char
  count : Int

def bathMax : Nat := 3

def mainInit : Bathroom where
  sem s := match s with
    | .bathS => bathMax
    | _ => 1
  ocpp := 'v'
  count := 0

def semWait (b : Bathroom) (s : Sem) : Option Bathroom :=
  if 0 < b.sem s then some { b with sem := Function.update b.sem s (b.sem s - 1) } else none

def semPost (b : Bathroom) (s : Sem) : Bathroom :=
  { b with sem := Function.update b.sem s (b.sem s + 1) }

/-- Where a thread stands in use_bath_m or use_bath_w: before the operation of that name. -/
inductive Point where
  | outside
  | lockOcpp
  | testFree
  | claim
  | waitOther
  | unlockOcpp
  | gate
  | waitOwn
  | enter
  | lockCount
  | increment
  | unlockCount
  | lockCountAgain
  | decrement
  | unlockCountAgain
  | leave
  | testCount
  | lockReset
  | reset
  | unlockReset
  | postOther
  deriving DecidableEq

/-- The text shared by use_bath_m and use_bath_w: the letter that claims the bathroom, the letter
    that makes the thread wait on its own semaphore, and the semaphore of the others. -/
def useBath (mark tested : Char) (own other : Sem) (b : Bathroom) :
    Point → Option (Bathroom × Point)
  | .outside => some (b, .lockOcpp)
  | .lockOcpp => (semWait b .ocppS).map (·, .testFree)
  | .testFree => some (b, if b.ocpp = 'v' then .claim else .unlockOcpp)
  | .claim => some ({ b with ocpp := mark }, .waitOther)
  | .waitOther => (semWait b other).map (·, .unlockOcpp)
  | .unlockOcpp => some (semPost b .ocppS, .gate)
  | .gate => some (b, if b.ocpp = tested then .waitOwn else .enter)
  | .waitOwn => (semWait b own).map (·, .enter)
  | .enter => (semWait b .bathS).map (·, .lockCount)
  | .lockCount => (semWait b .countS).map (·, .increment)
  | .increment => some ({ b with count := b.count + 1 }, .unlockCount)
  | .unlockCount => some (semPost b .countS, .lockCountAgain)
  | .lockCountAgain => (semWait b .countS).map (·, .decrement)
  | .decrement => some ({ b with count := b.count - 1 }, .unlockCountAgain)
  | .unlockCountAgain => some (semPost b .countS, .leave)
  | .leave => some (semPost b .bathS, .testCount)
  | .testCount => some (b, if b.count = 0 then .lockReset else .outside)
  | .lockReset => (semWait b .ocppS).map (·, .reset)
  | .reset => some ({ b with ocpp := 'v' }, .unlockReset)
  | .unlockReset => some (semPost b .ocppS, .postOther)
  | .postOther => some (semPost b other, .outside)

def useBathM : Bathroom → Point → Option (Bathroom × Point) := useBath 'm' 'w' .menS .womanS

/-- The woman's test is against 'h', a letter that ocpp never holds. -/
def useBathW : Bathroom → Point → Option (Bathroom × Point) := useBath 'w' 'h' .womanS .menS

inductive Gender where
  | man
  | woman
  deriving DecidableEq

def Gender.mark : Gender → Char
  | .man => 'm'
  | .woman => 'w'

def Gender.tested : Gender → Char
  | .man => 'w'
  | .woman => 'h'

def Gender.own : Gender → Sem
  | .man => .menS
  | .woman => .womanS

def Gender.other : Gender → Sem
  | .man => .womanS
  | .woman => .menS

/-- A thread, and whether its last call made it wait on its own semaphore; no step reads that. -/
structure Thread where
  point : Point
  waited : Bool

structure State (T : Type) where
  bathroom : Bathroom
  thread : T → Thread

variable {T : Type} [DecidableEq T]

def useBathOf : Gender → Bathroom → Point → Option (Bathroom × Point)
  | .man => useBathM
  | .woman => useBathW

def step (gender : T → Gender) (s : State T) (t : T) : Option (State T) :=
  (useBathOf (gender t) s.bathroom (s.thread t).point).map fun (b, point) =>
    ⟨b, Function.update s.thread t ⟨point,
      if (s.thread t).point = .gate then decide (point = .waitOwn) else (s.thread t).waited⟩⟩

def startState (T : Type) : State T := ⟨mainInit, fun _ => ⟨.outside, false⟩⟩

/-- Between sem_wait(&bath_s) and the matching sem_post(&bath_s). -/
def Inside : Point → Prop
  | .lockCount | .increment | .unlockCount | .lockCountAgain | .decrement | .unlockCountAgain
  | .leave => True
  | _ => False

instance (p : Point) : Decidable (Inside p) := by
  unfold Inside
  split <;> infer_instance

section Turns
variable {b b' : Bathroom} {p p' : Point} {mark tested : Char} {own other : Sem}

def waits (own other : Sem) : Point → Option Sem
  | .lockOcpp | .lockReset => some .ocppS
  | .waitOther => some other
  | .waitOwn => some own
  | .enter => some .bathS
  | .lockCount | .lockCountAgain => some .countS
  | _ => none

def posts (other : Sem) : Point → Option Sem
  | .unlockOcpp | .unlockReset => some .ocppS
  | .unlockCount | .unlockCountAgain => some .countS
  | .leave => some .bathS
  | .postOther => some other
  | _ => none

def letterAfter (mark ocpp : Char) : Point → Char
  | .claim => mark
  | .reset => 'v'
  | _ => ocpp

def follows (tested : Char) (b : Bathroom) : Point → Point
  | .outside => .lockOcpp
  | .lockOcpp => .testFree
  | .testFree => if b.ocpp = 'v' then .claim else .unlockOcpp
  | .claim => .waitOther
  | .waitOther => .unlockOcpp
  | .unlockOcpp => .gate
  | .gate => if b.ocpp = tested then .waitOwn else .enter
  | .waitOwn => .enter
  | .enter => .lockCount
  | .lockCount => .increment
  | .increment => .unlockCount
  | .unlockCount => .lockCountAgain
  | .lockCountAgain => .decrement
  | .decrement => .unlockCountAgain
  | .unlockCountAgain => .leave
  | .leave => .testCount
  | .testCount => if b.count = 0 then .lockReset else .outside
  | .lockReset => .reset
  | .reset => .unlockReset
  | .unlockReset => .postOther
  | .postOther => .outside

structure Turn (mark tested : Char) (own other : Sem) (b : Bathroom) (p : Point) (b' : Bathroom)
    (p' : Point) : Prop where
  point : p' = follows tested b p
  ocpp : b'.ocpp = letterAfter mark b.ocpp p
  sem : ∀ s, b'.sem s + (if waits own other p = some s then 1 else 0) =
    b.sem s + if posts other p = some s then 1 else 0

theorem semWait_some {s : Sem} (go : semWait b s = some b') :
    b'.sem s + 1 = b.sem s ∧ (∀ a, a ≠ s → b'.sem a = b.sem a) ∧ b'.ocpp = b.ocpp := by
  unfold semWait at go
  split at go
  · cases go
    refine ⟨?_, fun a ne => Function.update_of_ne ne _ _, rfl⟩
    dsimp only
    rw [Function.update_self]
    omega
  · cases go

theorem turn_wait {s : Sem} {q : Point} (go : (semWait b s).map (·, q) = some (b', p'))
    (next : q = follows tested b p) (wait : waits own other p = some s)
    (post : posts other p = none) (letter : letterAfter mark b.ocpp p = b.ocpp) :
    Turn mark tested own other b p b' p' := by
  obtain ⟨c, taken, same⟩ := Option.map_eq_some_iff.mp go
  cases same
  obtain ⟨one, others, ocpp⟩ := semWait_some taken
  refine ⟨next, ocpp.trans letter.symm, fun a => ?_⟩
  rw [wait, post]
  by_cases same : a = s
  · subst same
    simpa using one
  · simpa [Ne.symm same] using others a same

theorem turn_post {s : Sem} (wait : waits own other p = none) (post : posts other p = some s)
    (letter : letterAfter mark b.ocpp p = b.ocpp) :
    Turn mark tested own other b p (semPost b s) (follows tested b p) := by
  refine ⟨rfl, letter.symm, fun a => ?_⟩
  rw [wait, post]
  by_cases same : a = s
  · subst same
    simp [semPost]
  · simp [semPost, same, Ne.symm same]

theorem turn_plain {ocpp : Char} {count : Int} (wait : waits own other p = none)
    (post : posts other p = none) (letter : ocpp = letterAfter mark b.ocpp p) :
    Turn mark tested own other b p { b with ocpp := ocpp, count := count }
      (follows tested b p) :=
  ⟨rfl, letter, fun _ => by rw [wait, post]⟩

theorem useBath_turn (go : useBath mark tested own other b p = some (b', p')) :
    Turn mark tested own other b p b' p' := by
  cases p with
  | outside => cases go; exact turn_plain rfl rfl rfl
  | lockOcpp => exact turn_wait go rfl rfl rfl rfl
  | testFree => cases go; exact turn_plain rfl rfl rfl
  | claim => cases go; exact turn_plain rfl rfl rfl
  | waitOther => exact turn_wait go rfl rfl rfl rfl
  | unlockOcpp => cases go; exact turn_post rfl rfl rfl
  | gate => cases go; exact turn_plain rfl rfl rfl
  | waitOwn => exact turn_wait go rfl rfl rfl rfl
  | enter => exact turn_wait go rfl rfl rfl rfl
  | lockCount => exact turn_wait go rfl rfl rfl rfl
  | increment => cases go; exact turn_plain rfl rfl rfl
  | unlockCount => cases go; exact turn_post rfl rfl rfl
  | lockCountAgain => exact turn_wait go rfl rfl rfl rfl
  | decrement => cases go; exact turn_plain rfl rfl rfl
  | unlockCountAgain => cases go; exact turn_post rfl rfl rfl
  | leave => cases go; exact turn_post rfl rfl rfl
  | testCount => cases go; exact turn_plain rfl rfl rfl
  | lockReset => exact turn_wait go rfl rfl rfl rfl
  | reset => cases go; exact turn_plain rfl rfl rfl
  | unlockReset => cases go; exact turn_post rfl rfl rfl
  | postOther => cases go; exact turn_post rfl rfl rfl

abbrev TurnOf (g : Gender) := Turn g.mark g.tested g.own g.other

theorem useBathOf_turn {g : Gender} (go : useBathOf g b p = some (b', p')) :
    TurnOf g b p b' p' := by
  cases g with
  | man => exact useBath_turn go
  | woman => exact useBath_turn go

theorem turn_tokens {g : Gender} {s : Sem} {w : Point → Int} (turn : TurnOf g b p b' p')
    (law : w (follows g.tested b p) - w p =
      (if waits g.own g.other p = some s then 1 else 0) -
        if posts g.other p = some s then 1 else 0) :
    b'.sem s + w p' = b.sem s + w p := by
  have sem := turn.sem s
  rw [turn.point]
  split at law <;> split at law <;> simp_all <;> omega

def indoors (p : Point) : Int := if Inside p then 1 else 0

theorem indoors_turn {g : Gender} (turn : TurnOf g b p b' p') :
    b'.sem .bathS + indoors p' = b.sem .bathS + indoors p := by
  refine turn_tokens turn ?_
  cases p <;> cases g <;> simp only [follows, apply_ite indoors]
  all_goals simp [waits, posts, Gender.own, Gender.other, indoors, Inside]

def holds (p : Point) : Int :=
  match p with
  | .testFree | .claim | .waitOther | .unlockOcpp | .reset | .unlockReset => 1
  | _ => 0

theorem holds_turn {g : Gender} (turn : TurnOf g b p b' p') :
    b'.sem .ocppS + holds p' = b.sem .ocppS + holds p := by
  refine turn_tokens turn ?_
  cases p <;> cases g <;> simp only [follows, apply_ite holds]
  all_goals simp [waits, posts, Gender.own, Gender.other, holds]

end Turns

section Steps
variable {gender : T → Gender} {s s' : State T} {t : T}

structure Stepped (gender : T → Gender) (s : State T) (t : T) (b : Bathroom) (x : Thread) :
    Prop where
  turn : TurnOf (gender t) s.bathroom (s.thread t).point b x.point
  waited : x.waited =
    if (s.thread t).point = .gate then decide (x.point = .waitOwn) else (s.thread t).waited

theorem step_turn (go : step gender s t = some s') :
    ∃ b x, s' = ⟨b, Function.update s.thread t x⟩ ∧ Stepped gender s t b x := by
  obtain ⟨⟨b, p⟩, run, rfl⟩ := Option.map_eq_some_iff.mp go
  exact ⟨b, _, rfl, useBathOf_turn run, rfl⟩

variable [Fintype T]

def Bounded (s : State T) : Prop :=
  s.bathroom.sem .bathS + tally (fun _ x => indoors x.point) s.thread = bathMax

omit [DecidableEq T] in
theorem start_bounded : Bounded (startState T) := by
  have none : tally (fun _ x => indoors x.point) (startState T).thread = 0 :=
    tally_zero fun _ => rfl
  rw [Bounded, none]
  rfl

theorem bounded_step (inv : Bounded s) (go : step gender s t = some s') : Bounded s' := by
  obtain ⟨b, x, rfl, stepped⟩ := step_turn go
  have account := indoors_turn stepped.turn
  unfold Bounded at inv ⊢
  dsimp only
  rw [tally_update]
  omega

end Steps

section Exclusion

/-- From the wait on bath_s to the reset of ocpp. -/
def busy : Point → Bool
  | .enter | .lockCount | .increment | .unlockCount | .lockCountAgain | .decrement
  | .unlockCountAgain | .leave | .testCount | .lockReset | .reset => true
  | _ => false

/-- A thread that has seen ocpp taken for its kind and is not done yet; a man who waited for
    men_s does not count. -/
def Settled (x : Thread) : Prop := x.point = .gate ∨ (busy x.point = true ∧ x.waited = false)

instance (x : Thread) : Decidable (Settled x) := inferInstanceAs (Decidable (_ ∨ _))

/-- No woman passes her second test of ocpp, the one against 'h', while the men have it. -/
def Heeds (gender : T → Gender) (s : State T) (t : T) : Prop :=
  gender t = .woman → (s.thread t).point = .gate → s.bathroom.ocpp ≠ 'm'

/-- Nobody sets ocpp free while another thread counts on it. -/
def FreesAlone (s : State T) (t : T) : Prop :=
  (s.thread t).point = .reset → ∀ u, u ≠ t → ¬ Settled (s.thread u)

def ThreadOk (ocpp : Char) (g : Gender) (x : Thread) : Prop :=
  match x.point with
  | .claim => ocpp = 'v'
  | .waitOther => ocpp = g.mark
  | .unlockOcpp | .gate => ocpp ≠ 'v'
  | .waitOwn => g = .man ∧ x.waited = true
  | p => busy p = true → (g = .man ∧ x.waited = true) ∨ (ocpp = g.mark ∧ x.waited = false)

/-- The one token of men_s is there, or with the women who have ocpp, or with a woman who has
    just left, or with a man who has waited for it. -/
def share (g : Gender) (x : Thread) : Int :=
  match x.point with
  | .waitOther => if g = .woman then -1 else 0
  | .unlockReset | .postOther => if g = .woman then 1 else 0
  | p => if busy p = true ∧ x.waited = true then 1 else 0

def taken (ocpp : Char) : Int := if ocpp = 'w' then 1 else 0

variable [Fintype T] {gender : T → Gender} {s s' : State T} {t u : T}

structure Exclusive (gender : T → Gender) (s : State T) : Prop where
  lock : s.bathroom.sem .ocppS + tally (fun _ x => holds x.point) s.thread = 1
  letters : s.bathroom.ocpp = 'v' ∨ s.bathroom.ocpp = 'm' ∨ s.bathroom.ocpp = 'w'
  threads : ∀ t, ThreadOk s.bathroom.ocpp (gender t) (s.thread t)
  claimed : ∀ t, (s.thread t).point = .waitOther → ∀ u, ¬ Settled (s.thread u)
  tokens : s.bathroom.sem .menS + taken s.bathroom.ocpp +
    tally (fun t x => share (gender t) x) s.thread ≤ 1

omit [DecidableEq T] in
theorem start_exclusive : Exclusive gender (startState T) := by
  have noHolder : tally (fun _ x => holds x.point) (startState T).thread = 0 :=
    tally_zero fun _ => rfl
  have noShare : tally (fun t x => share (gender t) x) (startState T).thread = 0 :=
    tally_zero fun _ => rfl
  refine ⟨?_, Or.inl rfl, ?_, ?_, ?_⟩
  · rw [noHolder]
    rfl
  · intro t inside
    cases inside
  · intro t impossible
    cases impossible
  · rw [noShare]
    change (1 : Int) + 0 + 0 ≤ 1
    decide

theorem holds_nonneg (p : Point) : 0 ≤ holds p := by
  unfold holds
  split <;> decide

theorem one_holder (lock : s.bathroom.sem .ocppS + tally (fun _ x => holds x.point) s.thread = 1)
    (here : holds (s.thread t).point = 1) (other : u ≠ t) : holds (s.thread u).point = 0 := by
  have both := two_le_tally (w := fun _ (x : Thread) => holds x.point) (c := s.thread)
    (fun a => holds_nonneg _) other
  have least := holds_nonneg (s.thread u).point
  omega

/-- While nobody has ocpp, only men who waited for men_s are on their way. -/
theorem free_unsettled {g : Gender} {x : Thread} (ok : ThreadOk 'v' g x) : ¬ Settled x := by
  rintro (gate | ⟨inside, asked⟩)
  · simp [ThreadOk, gate] at ok
  · unfold ThreadOk at ok
    split at ok
    · rename_i point
      rw [point] at inside
      cases inside
    · cases g <;> cases ok
    · exact ok rfl
    · exact ok rfl
    · rw [ok.2] at asked
      cases asked
    · rcases ok inside with ⟨_, waited⟩ | ⟨letter, _⟩
      · rw [waited] at asked
        cases asked
      · cases g <;> cases letter

theorem ok_of_unsettled {ocpp ocpp' : Char} {g : Gender} {x : Thread} (ok : ThreadOk ocpp g x)
    (off : holds x.point = 0) (unsettled : ¬ Settled x) : ThreadOk ocpp' g x := by
  obtain ⟨p, waited⟩ := x
  cases p with
  | claim => cases off
  | waitOther => cases off
  | unlockOcpp => cases off
  | gate => exact absurd (Or.inl rfl) unsettled
  | waitOwn => exact ok
  | _ =>
    intro inside
    rcases ok inside with waited | asked
    · exact Or.inl waited
    · exact absurd (Or.inr ⟨inside, asked.2⟩) unsettled

omit [DecidableEq T] [Fintype T] in
theorem own_ok {b : Bathroom} {x : Thread} (ok : ThreadOk s.bathroom.ocpp (gender t) (s.thread t))
    (letters : s.bathroom.ocpp = 'v' ∨ s.bathroom.ocpp = 'm' ∨ s.bathroom.ocpp = 'w')
    (heeds : Heeds gender s t) (stepped : Stepped gender s t b x)
    (claim : (s.thread t).point ≠ .claim) : ThreadOk s.bathroom.ocpp (gender t) x := by
  obtain ⟨q, w⟩ := x
  obtain ⟨⟨rfl, _, _⟩, waited⟩ := stepped
  dsimp only at waited
  cases point : (s.thread t).point with
  | claim => exact absurd point claim
  | testFree =>
    simp only [follows]
    split
    · rename_i free
      exact free
    · rename_i held
      exact held
  | waitOther =>
    simp only [ThreadOk, point] at ok
    simp only [ThreadOk, follows, ok]
    cases gender t <;> decide
  | unlockOcpp =>
    simp only [ThreadOk, point] at ok
    exact ok
  | gate =>
    simp only [ThreadOk, point] at ok
    simp only [point, ↓reduceIte] at waited
    subst waited
    cases kind : gender t with
    | man =>
      by_cases women : s.bathroom.ocpp = 'w'
      · have next : follows Gender.man.tested s.bathroom .gate = .waitOwn := if_pos women
        rw [next]
        exact ⟨rfl, by simp⟩
      · have next : follows Gender.man.tested s.bathroom .gate = .enter := if_neg women
        rw [next]
        intro _
        refine Or.inr ⟨?_, by simp⟩
        exact (letters.resolve_left ok).resolve_right women
    | woman =>
      have women : s.bathroom.ocpp = 'w' :=
        (letters.resolve_left ok).resolve_left (heeds kind point)
      have next : follows Gender.woman.tested s.bathroom .gate = .enter :=
        if_neg (by rw [women]; decide)
      rw [next]
      intro _
      exact Or.inr ⟨women, by simp⟩
  | waitOwn =>
    simp only [ThreadOk, point] at ok
    simp only [point, reduceCtorEq, ↓reduceIte] at waited
    intro _
    exact Or.inl ⟨ok.1, waited.trans ok.2⟩
  | testCount =>
    simp only [ThreadOk, point] at ok
    simp only [point, reduceCtorEq, ↓reduceIte] at waited
    simp only [follows]
    split
    · intro _
      rw [waited]
      exact ok rfl
    · intro inside
      cases inside
  | outside =>
    intro inside
    cases inside
  | lockOcpp =>
    intro inside
    cases inside
  | reset =>
    intro inside
    cases inside
  | unlockReset =>
    intro inside
    cases inside
  | postOther =>
    intro inside
    cases inside
  | _ =>
    simp only [ThreadOk, point] at ok
    simp only [point, reduceCtorEq, ↓reduceIte] at waited
    intro _
    rw [waited]
    exact ok rfl

omit [DecidableEq T] [Fintype T] in
theorem own_share {b : Bathroom} {x : Thread}
    (ok : ThreadOk s.bathroom.ocpp (gender t) (s.thread t)) (stepped : Stepped gender s t b x)
    (claim : (s.thread t).point ≠ .claim) (reset : (s.thread t).point ≠ .reset) :
    b.sem .menS + share (gender t) x ≤
      s.bathroom.sem .menS + share (gender t) (s.thread t) := by
  obtain ⟨q, w⟩ := x
  obtain ⟨⟨rfl, _, sem⟩, waited⟩ := stepped
  have men := sem .menS
  dsimp only at waited
  cases point : (s.thread t).point with
  | claim => exact absurd point claim
  | reset => exact absurd point reset
  | testFree =>
    simp only [point, waits, posts, reduceCtorEq, ↓reduceIte, Nat.add_zero] at men
    simp only [follows]
    split <;> simp [share, point, busy, men]
  | waitOther =>
    cases kind : gender t with
    | man =>
      simp [point, kind, waits, posts, Gender.other] at men
      simp [share, point, follows, busy, men]
    | woman =>
      simp [point, kind, waits, posts, Gender.other] at men
      simp [share, point, follows, busy]
      omega
  | gate =>
    simp only [point, waits, posts, reduceCtorEq, ↓reduceIte, Nat.add_zero] at men waited
    subst waited
    by_cases asked : s.bathroom.ocpp = (gender t).tested
    · have next : follows (gender t).tested s.bathroom .gate = .waitOwn := if_pos asked
      rw [next]
      simp [share, point, busy, men]
    · have next : follows (gender t).tested s.bathroom .gate = .enter := if_neg asked
      rw [next]
      simp [share, point, busy, men]
  | waitOwn =>
    simp only [ThreadOk, point] at ok
    simp [point, ok.1, waits, posts, Gender.own] at men
    simp only [share, point, follows, busy]
    split <;> simp <;> omega
  | testCount =>
    simp only [point, waits, posts, reduceCtorEq, ↓reduceIte, Nat.add_zero] at men waited
    subst waited
    simp only [follows]
    split
    · simp [share, point, busy, men]
    · cases kept : (s.thread t).waited <;> simp [share, point, busy, men, kept]
  | postOther =>
    cases kind : gender t with
    | man =>
      simp [point, kind, waits, posts, Gender.other] at men
      simp [share, point, follows, busy, men]
    | woman =>
      simp [point, kind, waits, posts, Gender.other] at men
      simp [share, point, follows, busy, men]
  | _ =>
    simp [point, waits, posts] at men waited
    simp [share, point, follows, busy, men, waited]

omit [DecidableEq T] [Fintype T] in
theorem own_settled {b : Bathroom} {x : Thread}
    (ok : ThreadOk s.bathroom.ocpp (gender t) (s.thread t)) (stepped : Stepped gender s t b x)
    (settled : Settled x) : Settled (s.thread t) ∨ holds (s.thread t).point = 1 := by
  obtain ⟨q, w⟩ := x
  obtain ⟨⟨rfl, _, _⟩, waited⟩ := stepped
  dsimp only at waited
  cases point : (s.thread t).point with
  | gate => exact Or.inl (Or.inl point)
  | waitOwn =>
    simp only [ThreadOk, point] at ok
    simp only [point, reduceCtorEq, ↓reduceIte, ok.2] at waited
    rcases settled with gate | ⟨_, asked⟩
    · rw [point] at gate
      cases gate
    · rw [show w = false from asked] at waited
      cases waited
  | testFree | claim | waitOther | unlockOcpp | reset | unlockReset => exact Or.inr rfl
  | outside | lockOcpp | postOther =>
    rw [point] at settled
    rcases settled with gate | ⟨inside, _⟩
    · cases gate
    · cases inside
  | testCount =>
    simp only [point, reduceCtorEq, ↓reduceIte] at waited
    rw [point, waited] at settled
    refine Or.inl (Or.inr ⟨by rw [point]; rfl, ?_⟩)
    rcases settled with gate | ⟨_, asked⟩
    · simp only [follows] at gate
      split at gate <;> cases gate
    · exact asked
  | _ =>
    simp only [point, reduceCtorEq, ↓reduceIte] at waited
    rw [point, waited] at settled
    refine Or.inl (Or.inr ⟨by rw [point]; rfl, ?_⟩)
    rcases settled with gate | ⟨_, asked⟩
    · cases gate
    · exact asked

theorem step_lock {b : Bathroom} {x : Thread} (inv : Exclusive gender s)
    (stepped : Stepped gender s t b x) :
    b.sem .ocppS + tally (fun _ x => holds x.point) (Function.update s.thread t x) = 1 := by
  have account := holds_turn stepped.turn
  have lock := inv.lock
  rw [tally_update]
  omega

theorem exclusive_claim {b : Bathroom} {x : Thread} (inv : Exclusive gender s)
    (stepped : Stepped gender s t b x) (here : (s.thread t).point = .claim) :
    Exclusive gender ⟨b, Function.update s.thread t x⟩ := by
  have lock := step_lock inv stepped
  obtain ⟨q, w⟩ := x
  obtain ⟨⟨rfl, ocpp, sem⟩, waited⟩ := stepped
  have free := inv.threads t
  simp only [ThreadOk, here] at free
  have off : ∀ u, u ≠ t → holds (s.thread u).point = 0 := fun u other =>
    one_holder inv.lock (t := t) (by rw [here]; rfl) other
  have unsettled : ∀ u, ¬ Settled (s.thread u) := fun u =>
    free_unsettled (by rw [← free]; exact inv.threads u)
  rw [here] at ocpp
  refine ⟨lock, ?_, fun u => ?_, fun v point u => ?_, ?_⟩
  · dsimp only
    rw [ocpp]
    cases gender t <;> simp [letterAfter, Gender.mark]
  · dsimp only
    by_cases same : u = t
    · subst same
      rw [Function.update_self, here]
      exact ocpp
    · rw [Function.update_of_ne same]
      exact ok_of_unsettled (inv.threads u) (off u same) (unsettled u)
  · dsimp only
    by_cases same : u = t
    · subst same
      rw [Function.update_self, here]
      simp [Settled, follows, busy]
    · rw [Function.update_of_ne same]
      exact unsettled u
  · have tokens := inv.tokens
    have men := sem .menS
    rw [here] at men
    simp only [waits, posts, reduceCtorEq, ↓reduceIte, Nat.add_zero] at men
    dsimp only
    rw [tally_update, ocpp, men]
    rw [free] at tokens
    cases gender t with
    | man =>
      simp [share, here, follows, busy, taken, letterAfter, Gender.mark] at tokens ⊢
      exact tokens
    | woman =>
      simp [share, here, follows, busy, taken, letterAfter, Gender.mark] at tokens ⊢
      omega

theorem exclusive_reset {b : Bathroom} {x : Thread} (inv : Exclusive gender s)
    (stepped : Stepped gender s t b x) (here : (s.thread t).point = .reset)
    (alone : FreesAlone s t) : Exclusive gender ⟨b, Function.update s.thread t x⟩ := by
  have lock := step_lock inv stepped
  obtain ⟨q, w⟩ := x
  obtain ⟨⟨rfl, ocpp, sem⟩, waited⟩ := stepped
  have own := inv.threads t
  simp only [ThreadOk, here] at own
  have off : ∀ u, u ≠ t → holds (s.thread u).point = 0 := fun u other =>
    one_holder inv.lock (t := t) (by rw [here]; rfl) other
  rw [here] at ocpp
  refine ⟨lock, Or.inl ocpp, fun u => ?_, fun v point u => ?_, ?_⟩
  · dsimp only
    by_cases same : u = t
    · subst same
      rw [Function.update_self, here]
      intro inside
      cases inside
    · rw [Function.update_of_ne same]
      exact ok_of_unsettled (inv.threads u) (off u same) (alone here u same)
  · dsimp only at point
    by_cases same : v = t
    · subst same
      rw [Function.update_self, here] at point
      cases point
    · rw [Function.update_of_ne same] at point
      have none := off v same
      rw [point] at none
      cases none
  · have tokens := inv.tokens
    have men := sem .menS
    rw [here] at men
    simp only [waits, posts, reduceCtorEq, ↓reduceIte, Nat.add_zero] at men
    dsimp only
    rw [tally_update, ocpp, men]
    cases kind : gender t with
    | man =>
      have less : 0 ≤ taken s.bathroom.ocpp := by
        unfold taken
        split <;> decide
      cases kept : (s.thread t).waited <;>
        simp [share, here, follows, busy, taken, letterAfter, kept] at tokens less ⊢ <;> omega
    | woman =>
      rw [kind] at own
      have held : s.bathroom.ocpp = 'w' ∧ (s.thread t).waited = false := by
        rcases own rfl with man | own
        · cases man.1
        · exact own
      rw [held.1] at tokens
      simp [share, here, follows, busy, taken, letterAfter, held.2] at tokens ⊢
      omega

theorem exclusive_other {b : Bathroom} {x : Thread} (inv : Exclusive gender s)
    (stepped : Stepped gender s t b x) (heeds : Heeds gender s t)
    (claim : (s.thread t).point ≠ .claim) (reset : (s.thread t).point ≠ .reset) :
    Exclusive gender ⟨b, Function.update s.thread t x⟩ := by
  have same : b.ocpp = s.bathroom.ocpp := by
    rw [stepped.turn.ocpp]
    cases point : (s.thread t).point <;>
      first | rfl | exact absurd point claim | exact absurd point reset
  have ok := inv.threads t
  refine ⟨step_lock inv stepped, ?_, fun u => ?_, fun v point u => ?_, ?_⟩
  · dsimp only
    rw [same]
    exact inv.letters
  · dsimp only
    rw [same, Function.update_apply]
    split
    · rename_i own
      rw [own]
      exact own_ok ok inv.letters heeds stepped claim
    · exact inv.threads u
  · dsimp only at point ⊢
    have other : v ≠ t := by
      rintro rfl
      rw [Function.update_self, stepped.turn.point] at point
      cases old : (s.thread v).point <;> simp [old, follows] at point claim
      all_goals split at point <;> cases point
    rw [Function.update_of_ne other] at point
    have unsettled := inv.claimed v point
    by_cases own : u = t
    · subst own
      rw [Function.update_self]
      intro settled
      rcases own_settled ok stepped settled with old | holder
      · exact unsettled u old
      · have none := one_holder inv.lock holder other
        rw [point] at none
        cases none
    · rw [Function.update_of_ne own]
      exact unsettled u
  · have tokens := inv.tokens
    have moves := own_share ok stepped claim reset
    dsimp only
    rw [tally_update, same]
    omega

theorem exclusive_step (inv : Exclusive gender s) (go : step gender s t = some s')
    (heeds : Heeds gender s t) (alone : FreesAlone s t) : Exclusive gender s' := by
  obtain ⟨b, x, rfl, stepped⟩ := step_turn go
  by_cases claim : (s.thread t).point = .claim
  · exact exclusive_claim inv stepped claim
  · by_cases reset : (s.thread t).point = .reset
    · exact exclusive_reset inv stepped reset alone
    · exact exclusive_other inv stepped heeds claim reset

omit [DecidableEq T] [Fintype T] in
theorem inside_busy {p : Point} (inside : Inside p) : busy p = true := by
  cases p <;> first | rfl | cases inside

omit [DecidableEq T] [Fintype T] in
theorem share_one (g : Gender) {x : Thread} (inside : busy x.point = true)
    (waited : x.waited = true) : share g x = 1 := by
  obtain ⟨p, w⟩ := x
  cases waited
  cases p <;> first | rfl | cases inside

omit [DecidableEq T] in
/-- With a woman inside the token of men_s is taken, and no man can have waited for it. -/
theorem exclusive_apart (inv : Exclusive gender s) (man : gender t = .man)
    (woman : gender u = .woman) (first : Inside (s.thread t).point)
    (second : Inside (s.thread u).point) : False := by
  have known : ∀ v, Inside (s.thread v).point →
      (gender v = .man ∧ (s.thread v).waited = true) ∨
      (s.bathroom.ocpp = (gender v).mark ∧ (s.thread v).waited = false) := by
    intro v inside
    have ok := inv.threads v
    unfold ThreadOk at ok
    split at ok
    all_goals first | exact ok (inside_busy inside) | skip
    all_goals
      rename_i point
      rw [point] at inside
      cases inside
  have women : s.bathroom.ocpp = 'w' ∧ (s.thread u).waited = false := by
    rcases known u second with man | held
    · rw [woman] at man
      cases man.1
    · rw [woman] at held
      exact held
  have settled : Settled (s.thread u) := Or.inr ⟨inside_busy second, women.2⟩
  have waited : (s.thread t).waited = true := by
    rcases known t first with waited | held
    · exact waited.2
    · rw [man, women.1] at held
      cases held.1
  have nonneg : ∀ v, 0 ≤ share (gender v) (s.thread v) := by
    intro v
    unfold share
    split
    · rename_i point
      exact absurd settled (inv.claimed v point u)
    · split <;> decide
    · split <;> decide
    · split <;> decide
  have one := share_one (gender t) (inside_busy first) waited
  have least := le_tally (w := fun t x => share (gender t) x) (c := s.thread) nonneg t
  have tokens := inv.tokens
  rw [women.1] at tokens
  simp only [taken, ↓reduceIte] at tokens
  omega

end Exclusion

def occupancy [Fintype T] (s : State T) : Nat :=
  (Finset.univ.filter fun t => Inside (s.thread t).point).card

theorem bathroom_is_exclusive {T : Type} [DecidableEq T] [Fintype T] {gender : T → Gender}
    {threads : List T} {s : State T} :
    (Run (fun a t b => step gender a t = some b) (startState T) threads s →
      occupancy s ≤ bathMax) ∧
    (Run (fun a t b => step gender a t = some b ∧ Heeds gender a t ∧ FreesAlone a t)
        (startState T) threads s →
      ∀ t u, gender t = .man → gender u = .woman →
        ¬ (Inside (s.thread t).point ∧ Inside (s.thread u).point)) := by
  constructor
  · intro run
    have inv : Bounded s := run_invariant Bounded (fun _ _ _ => bounded_step) run start_bounded
    have card := card_eq_tally (fun _ (x : Thread) => Inside x.point) s.thread
    unfold Bounded at inv
    unfold occupancy
    unfold indoors at inv
    omega
  · intro run t u man woman both
    have inv : Exclusive gender s := run_invariant (Exclusive gender)
      (fun _ _ _ inv go => exclusive_step inv go.1 go.2.1 go.2.2) run start_exclusive
    exact exclusive_apart inv man woman both.1 both.2

section Executions
variable {gender : T → Gender}

instance (s : State T) (t : T) : Decidable (Heeds gender s t) :=
  inferInstanceAs (Decidable (_ → _ → _))

instance [Fintype T] (s : State T) (t : T) : Decidable (FreesAlone s t) :=
  inferInstanceAs (Decidable (_ → ∀ _, _ → _))

/-- Two women are inside together; the one who leaves last sets ocpp free, and a man enters. -/
def womenThenMan (first last man : T) : List T :=
  List.replicate 8 first ++ List.replicate 9 last ++ List.replicate 8 first ++
  List.replicate 9 last ++ List.replicate 8 man

def family (t : Fin 3) : Gender := if t.val = 0 then .man else .woman

end Executions

theorem women_leave_for_man : ∃ s : State (Fin 3),
    Run (fun a t b => step family a t = some b ∧ Heeds family a t ∧ FreesAlone a t)
      (startState (Fin 3)) (womenThenMan 1 2 0) s ∧
    s.bathroom.ocpp = 'm' ∧ Inside (s.thread 0).point ∧ occupancy s ≤ bathMax ∧
    ¬ (Inside (s.thread 0).point ∧ Inside (s.thread 2).point) := by
  obtain ⟨s, found, letter, inside⟩ := exec_reaches
    (guarded (fun a t _ => Heeds family a t ∧ FreesAlone a t) (step family)) (startState (Fin 3))
    (womenThenMan 1 2 0) (fun s => s.bathroom.ocpp = 'm' ∧ Inside (s.thread 0).point)
    (by decide +kernel)
  have run := guarded_run found
  have any := run_mono (fun _ _ _ go => go.1) run
  exact ⟨s, run, letter, inside, bathroom_is_exclusive.1 any,
    bathroom_is_exclusive.2 run 0 2 rfl rfl⟩

def couple (t : Fin 2) : Gender := if t = 0 then .man else .woman

def manEnters : List (Fin 2) := List.replicate 8 0

/-- The woman finds ocpp at 'm', compares it with 'h' and goes in as well. -/
def womanFollows : List (Fin 2) := manEnters ++ List.replicate 6 1

theorem woman_joins_man :
    ¬ ∀ (threads : List (Fin 2)) (s : State (Fin 2)),
      Run (fun a t b => step couple a t = some b) (startState (Fin 2)) threads s →
      ∀ t u, couple t = .man → couple u = .woman →
        ¬ (Inside (s.thread t).point ∧ Inside (s.thread u).point) := by
  intro claim
  obtain ⟨s, found, both⟩ := exec_reaches (step couple) (startState (Fin 2)) womanFollows
    (fun s => Inside (s.thread 0).point ∧ Inside (s.thread 1).point) (by decide +kernel)
  exact claim _ s (exec_run found) 0 1 rfl rfl both

end BathroomExclusion
