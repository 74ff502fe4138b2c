import PingPong.BathroomExclusion

/-! The tokens of men_s and woman_s in coordination/bathrooms.c. Whoever finds ocpp free takes a
token of the others, and the last one out has to give it back, once. -/
namespace BathroomTokens
open BathroomExclusion TransitionRuns FiniteTally

/-- The threads, with how often each gender took a free ocpp and how often it released the
    semaphore of the other gender. -/
structure Account (T : Type) where
  state : State T
  taken : Gender → Nat
  released : Gender → Nat

variable {T : Type} [DecidableEq T]

def audit (gender : T → Gender) (a : Account T) (t : T) : Option (Account T) :=
  (step gender a.state t).map fun s =>
    { state := s
      taken := fun g => a.taken g +
        if a.state.bathroom.ocpp = 'v' ∧ s.bathroom.ocpp = g.mark then 1 else 0
      released := fun g => a.released g +
        if s.bathroom.sem g.other = a.state.bathroom.sem g.other + 1 then 1 else 0 }

def opening (T : Type) : Account T := ⟨startState T, fun _ => 0, fun _ => 0⟩

/-- Between setting ocpp free and releasing the semaphore of the others. -/
def Releasing (p : Point) : Prop := p = .unlockReset ∨ p = .postOther

instance (p : Point) : Decidable (Releasing p) := inferInstanceAs (Decidable (_ ∨ _))

def releasing [Fintype T] (gender : T → Gender) (s : State T) (g : Gender) : Nat :=
  (Finset.univ.filter fun t => gender t = g ∧ Releasing (s.thread t).point).card

/-- No semaphore of a gender holds two tokens, and each time ocpp was taken it still is, or its
    release is on the way, or has been made. -/
structure Balanced [Fintype T] (gender : T → Gender) (a : Account T) : Prop where
  binary : a.state.bathroom.sem .menS ≤ 1 ∧ a.state.bathroom.sem .womanS ≤ 1
  matched : ∀ g, a.taken g = a.released g + releasing gender a.state g +
    if a.state.bathroom.ocpp = g.mark then 1 else 0

/-- Nobody is inside when a thread sets ocpp free. -/
def LeavesLast (s : State T) (t : T) : Prop :=
  (s.thread t).point = .reset → ∀ u, ¬ Inside (s.thread u).point

/-- A thread sets ocpp free only where ocpp still has its own letter and nobody is inside. -/
def FreesOwn (gender : T → Gender) (s : State T) (t : T) : Prop :=
  (s.thread t).point = .reset →
    s.bathroom.ocpp = (gender t).mark ∧ ∀ u, ¬ Inside (s.thread u).point

section Turns
variable {b b' : Bathroom} {p p' : Point} {g h : Gender}

def stands (q : Point) (g h : Gender) (p : Point) : Int := if h = g ∧ p = q then 1 else 0

def inForce (g : Gender) (b : Bathroom) : Int := if b.ocpp = g.mark then 1 else 0

theorem turn_taken (turn : TurnOf h b p b' p') (free : p = .claim → b.ocpp = 'v') :
    (if b.ocpp = 'v' ∧ b'.ocpp = g.mark then 1 else 0) = stands .claim g h p := by
  have letter := turn.ocpp
  cases p with
  | claim =>
    rw [free rfl, letter]
    cases g <;> cases h <;> rfl
  | reset =>
    rw [letter]
    cases g <;> simp [stands, letterAfter, Gender.mark]
  | _ =>
    rw [letter]
    have apart : ¬ (b.ocpp = 'v' ∧ b.ocpp = g.mark) := by
      intro both
      rw [both.1] at both
      cases g <;> cases both.2
    simp only [letterAfter, stands, reduceCtorEq, and_false, ↓reduceIte]
    exact if_neg apart

theorem turn_released (turn : TurnOf h b p b' p') :
    (if b'.sem g.other = b.sem g.other + 1 then 1 else 0) = stands .postOther g h p := by
  have sem := turn.sem g.other
  cases p <;> cases g <;> cases h
  all_goals simp [waits, posts, Gender.own, Gender.other] at sem
  all_goals simp [stands, Gender.other]
  all_goals omega

/-- A token of the other gender is taken by those who claimed ocpp, or by those who wait for
    their own one. -/
theorem turn_supply (turn : TurnOf h b p b' p') :
    b'.sem g.other + stands .waitOther g h p ≤ b.sem g.other + stands .postOther g h p := by
  have sem := turn.sem g.other
  cases p <;> cases g <;> cases h
  all_goals simp [waits, posts, Gender.own, Gender.other] at sem
  all_goals simp [stands, Gender.other]
  all_goals omega

theorem turn_waiting (turn : TurnOf h b p b' p') :
    stands .waitOther g h p' = stands .claim g h p := by
  rw [turn.point]
  cases p <;> simp [stands, follows]
  all_goals split <;> simp

theorem turn_unlocking (turn : TurnOf h b p b' p') :
    stands .unlockReset g h p' = stands .reset g h p := by
  rw [turn.point]
  cases p <;> simp [stands, follows]
  all_goals split <;> simp

theorem turn_posting (turn : TurnOf h b p b' p') :
    stands .postOther g h p' = stands .unlockReset g h p := by
  rw [turn.point]
  cases p <;> simp [stands, follows]
  all_goals split <;> simp

theorem turn_force (turn : TurnOf h b p b' p') (free : p = .claim → b.ocpp = 'v')
    (own : p = .reset → b.ocpp = h.mark) :
    inForce g b' = inForce g b + stands .claim g h p - stands .reset g h p := by
  unfold inForce
  rw [turn.ocpp]
  cases p with
  | claim =>
    rw [free rfl]
    cases g <;> cases h <;> rfl
  | reset =>
    rw [own rfl]
    cases g <;> cases h <;> rfl
  | _ =>
    simp only [stands, reduceCtorEq, and_false, ↓reduceIte, add_zero, sub_zero]
    rfl

end Turns

section Accounts
variable [Fintype T] {gender : T → Gender} {a a' : Account T} {t : T}

def standing (gender : T → Gender) (s : State T) (q : Point) (g : Gender) : Int :=
  tally (fun t x => stands q g (gender t) x.point) s.thread

def KnowsOcpp (ocpp : Char) (g : Gender) (x : Thread) : Prop :=
  (x.point = .claim → ocpp = 'v') ∧ (x.point = .waitOther → ocpp = g.mark)

structure Locked (gender : T → Gender) (s : State T) : Prop where
  lock : s.bathroom.sem .ocppS + tally (fun _ x => holds x.point) s.thread = 1
  knows : ∀ t, KnowsOcpp s.bathroom.ocpp (gender t) (s.thread t)

/-- The tokens: what was taken and not released yet is missing from the semaphore, except for
    the threads that have not waited for it yet. -/
structure Audited (gender : T → Gender) (a : Account T) : Prop where
  locked : Locked gender a.state
  tokens : ∀ g, a.state.bathroom.sem g.other + a.taken g ≤
    1 + a.released g + standing gender a.state .waitOther g

/-- What was taken and not released yet is in force or on its way to be released. -/
def Settles (gender : T → Gender) (a : Account T) : Prop :=
  ∀ g, a.taken g = a.released g + releasing gender a.state g + inForce g a.state.bathroom

omit [DecidableEq T] in
theorem opening_standing (q : Point) (g : Gender) (away : q ≠ .outside) :
    standing gender (startState T) q g = 0 :=
  tally_zero fun _ => if_neg fun both => away both.2.symm

omit [DecidableEq T] in
theorem opening_audited : Audited gender (opening T) := by
  have noHolder : tally (fun _ x => holds x.point) (startState T).thread = 0 :=
    tally_zero fun _ => rfl
  refine ⟨⟨?_, fun t => ?_⟩, fun g => ?_⟩
  · dsimp only [opening]
    rw [noHolder]
    rfl
  · constructor <;> intro impossible <;> cases impossible
  · dsimp only [opening]
    rw [opening_standing .waitOther g (by decide)]
    cases g <;> simp [startState, mainInit, Gender.other]

omit [DecidableEq T] in
theorem releasing_tally (s : State T) (g : Gender) : (releasing gender s g : Int) =
    tally (fun t x => stands .unlockReset g (gender t) x.point +
      stands .postOther g (gender t) x.point) s.thread := by
  unfold releasing
  rw [card_eq_tally (fun t (x : Thread) => gender t = g ∧ Releasing x.point) s.thread]
  congr
  funext t x
  cases x.point <;> simp [stands, Releasing]

omit [DecidableEq T] in
theorem opening_settles : Settles gender (opening T) := by
  intro g
  have nobody : releasing gender (startState T) g = 0 :=
    Finset.card_eq_zero.mpr (Finset.filter_eq_empty_iff.mpr fun t _ both => by
      rcases both.2 with point | point <;> cases point)
  dsimp only [opening]
  rw [nobody]
  cases g <;> rfl

structure Audit (gender : T → Gender) (a : Account T) (t : T) (b : Bathroom) (x : Thread)
    (a' : Account T) : Prop where
  stepped : Stepped gender a.state t b x
  state : a'.state = ⟨b, Function.update a.state.thread t x⟩
  taken : ∀ g, a'.taken g = a.taken g +
    if a.state.bathroom.ocpp = 'v' ∧ b.ocpp = g.mark then 1 else 0
  released : ∀ g, a'.released g = a.released g +
    if b.sem g.other = a.state.bathroom.sem g.other + 1 then 1 else 0

omit [Fintype T] in
theorem audit_turn (go : audit gender a t = some a') : ∃ b x, Audit gender a t b x a' := by
  obtain ⟨s, run, rfl⟩ := Option.map_eq_some_iff.mp go
  obtain ⟨b, x, rfl, stepped⟩ := step_turn run
  exact ⟨b, x, stepped, rfl, fun _ => rfl, fun _ => rfl⟩

theorem locked_step {s : State T} {b : Bathroom} {x : Thread} (inv : Locked gender s)
    (stepped : Stepped gender s t b x) : Locked gender ⟨b, Function.update s.thread t x⟩ := by
  have lock := inv.lock
  have account := holds_turn stepped.turn
  refine ⟨?_, fun u => ?_⟩
  · dsimp only
    rw [tally_update]
    omega
  · have letter := stepped.turn.ocpp
    have next := stepped.turn.point
    dsimp only
    by_cases same : u = t
    · subst same
      rw [Function.update_self]
      have old := inv.knows u
      constructor
      · intro here
        rw [here] at next
        cases point : (s.thread u).point <;> simp [point, follows] at next letter
        all_goals try (split at next <;> cases next)
        rw [letter]
        assumption
      · intro here
        rw [here] at next
        cases point : (s.thread u).point <;> simp [point, follows] at next letter
        all_goals try (split at next <;> cases next)
        exact letter
    · rw [Function.update_of_ne same]
      have old := inv.knows u
      by_cases here : holds (s.thread t).point = 1
      · have off := one_holder inv.lock here same
        constructor <;> intro point <;> rw [point] at off <;> cases off
      · have kept : b.ocpp = s.bathroom.ocpp := by
          rw [letter]
          cases point : (s.thread t).point <;> first | rfl | (rw [point] at here; cases here rfl)
        rw [kept]
        exact old

theorem standing_step (q : Point) (g : Gender) {b : Bathroom} {x : Thread}
    (account : Audit gender a t b x a') :
    standing gender a'.state q g = standing gender a.state q g -
      stands q g (gender t) (a.state.thread t).point + stands q g (gender t) x.point := by
  rw [account.state]
  exact tally_update _ _ _ _

theorem releasing_step (g : Gender) {b : Bathroom} {x : Thread}
    (account : Audit gender a t b x a') :
    (releasing gender a'.state g : Int) = releasing gender a.state g +
      stands .reset g (gender t) (a.state.thread t).point -
      stands .postOther g (gender t) (a.state.thread t).point := by
  have unlocking := turn_unlocking (g := g) account.stepped.turn
  have posting := turn_posting (g := g) account.stepped.turn
  rw [releasing_tally, releasing_tally, account.state, tally_update]
  omega

theorem audited_step (inv : Audited gender a) (go : audit gender a t = some a') :
    Audited gender a' := by
  obtain ⟨b, x, account⟩ := audit_turn go
  have turn := account.stepped.turn
  refine ⟨by rw [account.state]; exact locked_step inv.locked account.stepped, fun g => ?_⟩
  have old := inv.tokens g
  have taken := turn_taken (g := g) turn (inv.locked.knows t).1
  have released := turn_released (g := g) turn
  have supply := turn_supply (g := g) turn
  have waiting := turn_waiting (g := g) turn
  have moved := standing_step .waitOther g account
  rw [moved, account.taken, account.released, account.state]
  push_cast
  omega

theorem settles_step (inv : Audited gender a) (settles : Settles gender a)
    (go : audit gender a t = some a')
    (own : (a.state.thread t).point = .reset → a.state.bathroom.ocpp = (gender t).mark) :
    Settles gender a' := by
  obtain ⟨b, x, account⟩ := audit_turn go
  have turn := account.stepped.turn
  intro g
  have old := settles g
  have taken := turn_taken (g := g) turn (inv.locked.knows t).1
  have released := turn_released (g := g) turn
  have force := turn_force (g := g) turn (inv.locked.knows t).1 own
  rw [releasing_step g account, account.taken, account.released, account.state]
  push_cast
  omega

omit [DecidableEq T] in
/-- Whoever waits for a token of the others has claimed ocpp, and is alone with that. -/
theorem waiting_in_force {s : State T} (inv : Locked gender s) (g : Gender) :
    standing gender s .waitOther g ≤ inForce g s.bathroom := by
  classical
  by_cases some : 0 < standing gender s .waitOther g
  · obtain ⟨t, here⟩ := tally_pos some
    have both : gender t = g ∧ (s.thread t).point = .waitOther := by
      by_contra other
      simp only [stands, if_neg other] at here
      omega
    have alone : ∀ u, u ≠ t → stands .waitOther g (gender u) (s.thread u).point = 0 := by
      intro u other
      have off := one_holder inv.lock (t := t) (by rw [both.2]; rfl) other
      refine if_neg fun waits => ?_
      rw [waits.2] at off
      cases off
    have one := tally_but_one (w := fun t (x : Thread) => stands .waitOther g (gender t) x.point)
      (c := s.thread) alone
    have letter : s.bathroom.ocpp = g.mark := by
      rw [(inv.knows t).2 both.2, both.1]
    rw [standing, one, inForce, if_pos letter, stands, if_pos both]
    omega
  · have least : 0 ≤ inForce g s.bathroom := by
      unfold inForce
      split <;> decide
    omega

omit [DecidableEq T] in
theorem balanced (inv : Audited gender a) (settles : Settles gender a) : Balanced gender a := by
  have one : ∀ g : Gender, a.state.bathroom.sem g.other ≤ 1 := by
    intro g
    have tokens := inv.tokens g
    have settled := settles g
    have waiting := waiting_in_force inv.locked g
    omega
  refine ⟨⟨one .woman, one .man⟩, fun g => ?_⟩
  have settled := settles g
  unfold inForce at settled
  split <;> rename_i letter <;> simp only [letter, ↓reduceIte] at settled <;> omega

theorem reset_owns (old : Balanced gender a) (new : Balanced gender a')
    (go : audit gender a t = some a') (here : (a.state.thread t).point = .reset) :
    a.state.bathroom.ocpp = (gender t).mark := by
  obtain ⟨b, x, account⟩ := audit_turn go
  have turn := account.stepped.turn
  have before := old.matched (gender t)
  have after := new.matched (gender t)
  have letter := turn.ocpp
  have released := turn_released (g := gender t) turn
  have moved := releasing_step (gender t) account
  have counted := account.released (gender t)
  have claimed := account.taken (gender t)
  rw [here] at letter released moved
  have free : b.ocpp ≠ (gender t).mark := by
    rw [letter]
    change 'v' ≠ (gender t).mark
    cases gender t <;> decide
  simp only [free, and_false, ↓reduceIte, add_zero] at claimed
  rw [account.state] at after
  simp only [free, ↓reduceIte, add_zero] at after
  simp only [stands, reduceCtorEq, and_false, ↓reduceIte, and_self, sub_zero] at moved released
  by_contra other
  rw [if_neg other] at before
  rw [account.state] at moved
  omega

end Accounts

/-- What the steps of an orderly run do: the account stays balanced, and ocpp is set free by the
    last one out. -/
def Orderly [Fintype T] (gender : T → Gender) (a : Account T) (t : T) (a' : Account T) : Prop :=
  audit gender a t = some a' ∧ LeavesLast a.state t ∧ Balanced gender a'

/-- A run in which every reset finds ocpp with the letter of its own gender. -/
abbrev OwnedRun [Fintype T] (gender : T → Gender) :=
  Run (fun a t b => audit gender a t = some b ∧ FreesOwn gender a.state t) (opening T)

theorem owned_run [Fintype T] {gender : T → Gender} {threads : List T} {a : Account T}
    (run : OwnedRun gender threads a) :
    Run (Orderly gender) (opening T) threads a ∧ Audited gender a ∧ Settles gender a := by
  induction run with
  | start => exact ⟨.start _, opening_audited, opening_settles⟩
  | step _ last ih =>
    obtain ⟨run, inv, settles⟩ := ih
    have audited := audited_step inv last.1
    have settled := settles_step inv settles last.1 fun here => (last.2 here).1
    exact ⟨.step run ⟨last.1, fun here => (last.2 here).2, balanced audited settled⟩, audited,
      settled⟩

theorem orderly_run [Fintype T] {gender : T → Gender} {threads : List T} {a : Account T}
    (run : Run (Orderly gender) (opening T) threads a) :
    OwnedRun gender threads a ∧ Balanced gender a := by
  induction run with
  | start => exact ⟨.start _, balanced opening_audited opening_settles⟩
  | step _ last ih =>
    obtain ⟨go, leaves, new⟩ := last
    exact ⟨.step ih.1 ⟨go, fun here => ⟨reset_owns ih.2 new go here, leaves here⟩⟩, new⟩

theorem tokens_stay_binary {T : Type} [DecidableEq T] [Fintype T] {gender : T → Gender}
    {threads : List T} {a : Account T} :
    (Run (fun a t b => audit gender a t = some b ∧ FreesOwn gender a.state t) (opening T)
        threads a → Balanced gender a) ∧
    (Run (Orderly gender) (opening T) threads a ↔
      Run (fun a t b => audit gender a t = some b ∧ FreesOwn gender a.state t) (opening T)
        threads a) := by
  constructor
  · intro run
    obtain ⟨_, inv, settles⟩ := owned_run run
    exact balanced inv settles
  · constructor
    · intro run
      exact (orderly_run run).1
    · intro run
      exact (owned_run run).1

instance [Fintype T] (s : State T) (t : T) (gender : T → Gender) :
    Decidable (FreesOwn gender s t) :=
  inferInstanceAs (Decidable (_ → _ ∧ ∀ _, _))

theorem tokens_change_hands : ∃ a : Account (Fin 3),
    Run (fun a t b => audit family a t = some b ∧ FreesOwn family a.state t) (opening (Fin 3))
      (womenThenMan 1 2 0) a ∧
    a.taken .woman = 1 ∧ a.released .woman = 1 ∧ a.taken .man = 1 ∧ a.released .man = 0 ∧
    Balanced family a := by
  obtain ⟨a, found, women, back, man, held⟩ := exec_reaches
    (guarded (fun a t _ => FreesOwn family a.state t) (audit family)) (opening (Fin 3))
    (womenThenMan 1 2 0) (fun a => a.taken .woman = 1 ∧ a.released .woman = 1 ∧
      a.taken .man = 1 ∧ a.released .man = 0) (by decide +kernel)
  have run := guarded_run found
  exact ⟨a, run, women, back, man, held, tokens_stay_binary.1 run⟩

/-- The woman is in when the man comes. He waits for men_s and takes the token she gives back;
    last one out himself, he then releases woman_s, which nobody had taken. -/
def handover : List (Fin 2) :=
  List.replicate 8 1 ++ List.replicate 5 0 ++ List.replicate 12 1 ++ List.replicate 14 0

theorem handover_adds_token :
    ¬ ∀ (threads : List (Fin 2)) (a : Account (Fin 2)),
      Run (fun a t b => audit couple a t = some b) (opening (Fin 2)) threads a →
      Balanced couple a := by
  intro claim
  obtain ⟨a, found, two⟩ := exec_reaches (audit couple) (opening (Fin 2)) handover
    (fun a => a.state.bathroom.sem .womanS = 2) (by decide +kernel)
  have binary := (claim _ a (exec_run found)).binary.2
  omega

end BathroomTokens
