import PingPong.MachineModel
import Mathlib.Data.List.Cycle
import Mathlib.Data.Fintype.Card

/-! Circular doubly linked lists in a store of cells, over any type of addresses.
   A ring is a duplicate-free cycle whose neighbours point at each other. -/
namespace CircularList
open MachineModel
variable {A : Type}

structure Links (A : Type) where
  prev : Option A
  next : Option A
  deriving DecidableEq, Repr

/-- The two links of a cell that is in no list. -/
def Links.free : Links A := ⟨none, none⟩

def Linked (link : A → Links A) (a b : A) : Prop :=
  (link a).next = some b ∧ (link b).prev = some a

structure Ring (link : A → Links A) (l : List A) : Prop where
  nodup : l.Nodup
  chain : Cycle.Chain (Linked link) (l : Cycle A)

theorem ring_nil (link : A → Links A) : Ring link [] := ⟨List.nodup_nil, Cycle.Chain.nil _⟩

theorem ring_rotated {link : A → Links A} {l m : List A} (r : Ring link l) (rot : l ~r m) :
    Ring link m := by
  have same : (l : Cycle A) = (m : Cycle A) := Cycle.coe_eq_coe.mpr rot
  exact ⟨rot.nodup_iff.mp r.nodup, same ▸ r.chain⟩

theorem ring_turned {link : A → Links A} {pre post : List A} {a : A}
    (r : Ring link (pre ++ a :: post)) : Ring link (a :: (post ++ pre)) :=
  ring_rotated r List.isRotated_append

theorem ring_path {link : A → Links A} {a : A} {l : List A} (r : Ring link (a :: l)) :
    List.IsChain (Linked link) (a :: (l ++ [a])) := r.chain

theorem ring_singleton {link : A → Links A} {a : A}
    (prev : (link a).prev = some a) (next : (link a).next = some a) : Ring link [a] :=
  ⟨List.nodup_singleton a, (Cycle.chain_singleton _ _).mpr ⟨next, prev⟩⟩

theorem ring_head_prev {link : A → Links A} {a : A} {l : List A} (r : Ring link (a :: l)) :
    (link a).prev = some ((a :: l).getLast (by simp)) := by
  have loop := (Cycle.chain_ne_nil _ (List.cons_ne_nil a l)).mp r.chain
  exact (List.isChain_cons_cons.mp loop).1.2

theorem ring_next {link : A → Links A} {a b : A} {pre post : List A}
    (r : Ring link (pre ++ a :: b :: post)) : (link a).next = some b := by
  have turned := ring_path (ring_rotated r (List.isRotated_append (l := pre)))
  exact (List.isChain_cons_cons.mp turned).1.1

theorem ring_linked {link : A → Links A} {l : List A} (r : Ring link l) {a : A} (mem : a ∈ l) :
    (link a).next ≠ none ∧ (link a).prev ≠ none := by
  obtain ⟨pre, post, rfl⟩ := List.append_of_mem mem
  have turned : Ring link (a :: (post ++ pre)) :=
    ring_turned r
  have back := ring_head_prev turned
  refine ⟨?_, by simp [back]⟩
  rcases rest : post ++ pre with _ | ⟨b, m⟩
  · rw [rest] at turned
    simp [((Cycle.chain_singleton _ _).mp turned.chain).1]
  · rw [rest] at turned
    simp [(List.isChain_cons_cons.mp (ring_path turned)).1.1]

/-- The links of a cell are determined by the ring it is in. -/
theorem ring_determines {link link' : A → Links A} {l : List A} (r : Ring link l)
    (r' : Ring link' l) {a : A} (mem : a ∈ l) : link' a = link a := by
  obtain ⟨pre, post, rfl⟩ := List.append_of_mem mem
  have turned := ring_turned r
  have turned' := ring_turned r'
  have back := (ring_head_prev turned').trans (ring_head_prev turned).symm
  have forward : (link' a).next = (link a).next := by
    rcases rest : post ++ pre with _ | ⟨b, m⟩
    · rw [rest] at turned turned'
      exact ((Cycle.chain_singleton _ _).mp turned'.chain).1.trans
        ((Cycle.chain_singleton _ _).mp turned.chain).1.symm
    · rw [rest] at turned turned'
      exact (List.isChain_cons_cons.mp (ring_path turned')).1.1.trans
        (List.isChain_cons_cons.mp (ring_path turned)).1.1.symm
  calc link' a = ⟨(link' a).prev, (link' a).next⟩ := rfl
    _ = ⟨(link a).prev, (link a).next⟩ := by rw [back, forward]
    _ = link a := rfl

/-- A ring only depends on the links of its own cells. -/
theorem ring_congr {link link' : A → Links A} {l : List A} (r : Ring link l)
    (same : ∀ a ∈ l, link' a = link a) : Ring link' l := by
  cases l with
  | nil => exact ring_nil link'
  | cons a l =>
    refine ⟨r.nodup, ?_⟩
    have path := ring_path r
    apply List.IsChain.imp_of_mem_imp _ path
    intro x y mx my linked
    have ex := same x (by simpa [or_comm] using mx)
    have ey := same y (by simpa [or_comm] using my)
    simpa only [Linked, ex, ey] using linked

/-- Two neighbours inside a duplicate-free list: the first is not the last cell and the second is
    not the first one. -/
theorem neighbours_interior {a x y : A} {l l₁ l₂ : List A} (nodup : (a :: l).Nodup)
    (split : a :: l = l₁ ++ x :: y :: l₂) :
    x ≠ (a :: l).getLast (by simp) ∧ y ≠ a := by
  constructor
  · intro last
    have nd : (l₁ ++ x :: y :: l₂).Nodup := split ▸ nodup
    have there : (a :: l).getLast (by simp) ∈ y :: l₂ := by
      simp only [split]
      rw [List.getLast_append_of_right_ne_nil _ _ (by simp)]
      exact List.getLast_cons (a := x) (List.cons_ne_nil y l₂) ▸ List.getLast_mem _
    rw [← last] at there
    exact (List.nodup_cons.mp (List.nodup_append.mp nd).2.1).1 there
  · intro first
    have nd : (l₁ ++ x :: y :: l₂).Nodup := split ▸ nodup
    cases l₁ with
    | nil =>
      simp only [List.nil_append, List.cons.injEq] at split
      have here : x = y := split.1.symm.trans first.symm
      simp [here] at nd
    | cons b l₁ =>
      simp only [List.cons_append, List.cons.injEq] at split
      rw [first, split.1] at nd
      simp at nd

/-- Changing the incoming link of the first cell and the outgoing link of the last one keeps every
    link inside the list. -/
theorem path_interior {link link' : A → Links A} {a z : A} {l : List A}
    (nodup : (a :: l).Nodup) (last : (a :: l).getLast (by simp) = z)
    (path : List.IsChain (Linked link) (a :: l))
    (next : ∀ x ∈ a :: l, x ≠ z → (link' x).next = (link x).next)
    (prev : ∀ y ∈ a :: l, y ≠ a → (link' y).prev = (link y).prev) :
    List.IsChain (Linked link') (a :: l) := by
  rw [List.isChain_iff_forall_rel_of_append_cons_cons] at path ⊢
  intro x y l₁ l₂ split
  obtain ⟨notLast, notFirst⟩ := neighbours_interior nodup split
  have mx : x ∈ a :: l := by rw [split]; simp
  have my : y ∈ a :: l := by rw [split]; simp
  obtain ⟨forward, back⟩ := path split
  exact ⟨(next x mx (last ▸ notLast)).trans forward, (prev y my notFirst).trans back⟩

section Writes
variable [DecidableEq A]

def setPrev (link : A → Links A) (a : A) (p : Option A) : A → Links A :=
  Function.update link a { link a with prev := p }

def setNext (link : A → Links A) (a : A) (n : Option A) : A → Links A :=
  Function.update link a { link a with next := n }

@[simp] theorem setPrev_prev (link : A → Links A) (a b : A) (p : Option A) :
    (setPrev link a p b).prev = if b = a then p else (link b).prev := by
  by_cases same : b = a
  · subst same; simp [setPrev]
  · simp [setPrev, same]

@[simp] theorem setPrev_next (link : A → Links A) (a b : A) (p : Option A) :
    (setPrev link a p b).next = (link b).next := by
  by_cases same : b = a
  · subst same; simp [setPrev]
  · simp [setPrev, same]

@[simp] theorem setNext_next (link : A → Links A) (a b : A) (n : Option A) :
    (setNext link a n b).next = if b = a then n else (link b).next := by
  by_cases same : b = a
  · subst same; simp [setNext]
  · simp [setNext, same]

@[simp] theorem setNext_prev (link : A → Links A) (a b : A) (n : Option A) :
    (setNext link a n b).prev = (link b).prev := by
  by_cases same : b = a
  · subst same; simp [setNext]
  · simp [setNext, same]

theorem setPrev_other (link : A → Links A) {a b : A} (p : Option A) (ne : b ≠ a) :
    setPrev link a p b = link b := by simp [setPrev, ne]

theorem setNext_other (link : A → Links A) {a b : A} (n : Option A) (ne : b ≠ a) :
    setNext link a n b = link b := by simp [setNext, ne]

/-- Linking e between the last cell z and the first cell a. -/
def linkBetween (link : A → Links A) (z e a : A) : A → Links A :=
  setPrev (setPrev (setNext (setNext link z (some e)) e (some a)) a (some e)) e (some z)

/-- Taking e out from between its neighbours p and n. -/
def unlinkBetween (link : A → Links A) (p e n : A) : A → Links A :=
  setPrev (setNext (setPrev (setNext link p (some n)) n (some p)) e none) e none

theorem ring_insert {link : A → Links A} {a e : A} {l : List A} (r : Ring link (a :: l))
    (fresh : e ∉ a :: l) :
    Ring (linkBetween link ((a :: l).getLast (by simp)) e a) (a :: l ++ [e]) := by
  generalize last : (a :: l).getLast (by simp) = z
  have zmem : z ∈ a :: l := last ▸ List.getLast_mem _
  have ze : z ≠ e := fun eq => fresh (eq ▸ zmem)
  have ae : a ≠ e := fun eq => fresh (by simp [eq])
  have inside : List.IsChain (Linked (linkBetween link z e a)) (a :: l) := by
    have path : List.IsChain (Linked link) (a :: l) :=
      (List.isChain_append.mp (ring_path r : List.IsChain _ ((a :: l) ++ [a]))).1
    apply path_interior r.nodup last path
    · intro x mx ne
      have xe : x ≠ e := fun eq => fresh (eq ▸ mx)
      simp [linkBetween, xe, ne]
    · intro y my ne
      have ye : y ≠ e := fun eq => fresh (eq ▸ my)
      simp [linkBetween, ye, ne]
  have enter : Linked (linkBetween link z e a) e a := by
    simp [Linked, linkBetween, ae]
  have leave : Linked (linkBetween link z e a) z e := by
    simp [Linked, linkBetween, ze]
  have turned : Ring (linkBetween link z e a) (e :: a :: l) := by
    refine ⟨List.nodup_cons.mpr ⟨fresh, r.nodup⟩, ?_⟩
    refine (Cycle.chain_coe_cons _ _ _).mpr (List.isChain_cons_cons.mpr ⟨enter, ?_⟩)
    refine List.isChain_append.mpr ⟨inside, List.isChain_singleton e, ?_⟩
    intro x hx y hy
    rw [List.getLast?_eq_getLast_of_ne_nil (List.cons_ne_nil a l), last] at hx
    simp only [Option.mem_def, Option.some.injEq, List.head?_cons] at hx hy
    exact hx ▸ hy ▸ leave
  exact ring_rotated turned (List.isRotated_concat e (a :: l)).symm

theorem ring_delete {link : A → Links A} {a e : A} {l : List A} (r : Ring link (e :: a :: l)) :
    Ring (unlinkBetween link ((a :: l).getLast (by simp)) e a) (a :: l) := by
  generalize last : (a :: l).getLast (by simp) = z
  have nodup := List.nodup_cons.mp r.nodup
  have zmem : z ∈ a :: l := last ▸ List.getLast_mem _
  have ze : z ≠ e := fun eq => nodup.1 (eq ▸ zmem)
  have ae : a ≠ e := fun eq => nodup.1 (by simp [eq])
  have inside : List.IsChain (Linked (unlinkBetween link z e a)) (a :: l) := by
    have tail := (List.isChain_cons_cons.mp (ring_path r)).2
    have path : List.IsChain (Linked link) (a :: l) :=
      (List.isChain_append.mp (tail : List.IsChain _ ((a :: l) ++ [e]))).1
    apply path_interior nodup.2 last path
    · intro x mx ne
      have xe : x ≠ e := fun eq => nodup.1 (eq ▸ mx)
      simp [unlinkBetween, xe, ne]
    · intro y my ne
      have ye : y ≠ e := fun eq => nodup.1 (eq ▸ my)
      simp [unlinkBetween, ye, ne]
  have close : Linked (unlinkBetween link z e a) z a := by
    simp [Linked, unlinkBetween, ze, ae]
  refine ⟨nodup.2, (Cycle.chain_ne_nil _ (List.cons_ne_nil a l)).mpr ?_⟩
  simp only [last]
  exact List.isChain_cons_cons.mpr ⟨close, inside⟩

end Writes

section Walks

/-- Follow next links from a until stop holds. Fuel bounds the number of links. -/
def walk (link : A → Links A) (stop : A → Bool) : Nat → Option A → Except Halt A
  | _, none => .error .fault
  | 0, some a => if stop a then .ok a else .error .hang
  | fuel + 1, some a => if stop a then .ok a else walk link stop fuel (link a).next

theorem walk_path {link : A → Links A} {stop : A → Bool} (fuel : Nat) {l : List A} {b : A}
    (path : List.IsChain (Linked link) (l ++ [b])) (run : ∀ x ∈ l, stop x = false)
    (halt : stop b = true) (budget : l.length ≤ fuel) :
    walk link stop fuel (l ++ [b]).head? = .ok b := by
  induction l generalizing fuel with
  | nil => cases fuel <;> simp [walk, halt]
  | cons a l ih =>
    cases fuel with
    | zero => simp at budget
    | succ fuel =>
      have go : stop a = false := run a (by simp)
      have rest : walk link stop fuel (l ++ [b]).head? = .ok b :=
        ih fuel (List.IsChain.tail path) (fun x mx => run x (by simp [mx])) (by simpa using budget)
      have step : (link a).next = (l ++ [b]).head? := by
        cases l with
        | nil => exact (List.isChain_cons_cons.mp path).1.1
        | cons c l => exact (List.isChain_cons_cons.mp path).1.1
      simp only [List.cons_append, List.head?_cons, walk, go, Bool.false_eq_true, ↓reduceIte]
      rw [step]
      exact rest

/-- Count the links followed before the next link of a cell is the target. -/
def countTo (link : A → Links A) [DecidableEq A] (target : A) : Nat → A → Nat → Except Halt Nat
  | 0, a, size => if (link a).next = some target then .ok size else .error .hang
  | fuel + 1, a, size =>
      if (link a).next = some target then .ok size
      else match (link a).next with
        | none => .error .fault
        | some b => countTo link target fuel b (size + 1)

theorem countTo_path [DecidableEq A] {link : A → Links A} {target a : A} (fuel size : Nat)
    {l : List A} (path : List.IsChain (Linked link) (a :: (l ++ [target])))
    (fresh : target ∉ l) (budget : l.length ≤ fuel) :
    countTo link target fuel a size = .ok (size + l.length) := by
  induction l generalizing fuel a size with
  | nil =>
    have step : (link a).next = some target := (List.isChain_cons_cons.mp path).1.1
    cases fuel <;> simp [countTo, step]
  | cons b l ih =>
    have step : (link a).next = some b := (List.isChain_cons_cons.mp path).1.1
    have other : b ≠ target := fun eq => fresh (by simp [eq])
    cases fuel with
    | zero => simp at budget
    | succ fuel =>
      have rest := ih fuel (size + 1) (List.isChain_cons_cons.mp path).2
        (fun mem => fresh (by simp [mem])) (by simpa using budget)
      simp only [countTo, step, Option.some.injEq, other, ↓reduceIte, rest, List.length_cons]
      congr 1
      omega

/-- The cells from the next of a up to the target. -/
def collect [DecidableEq A] (link : A → Links A) (target : A) : Nat → A → List A
  | 0, _ => []
  | fuel + 1, a =>
      match (link a).next with
      | none => []
      | some b => if b = target then [] else b :: collect link target fuel b

theorem collect_path [DecidableEq A] {link : A → Links A} {target a : A} (fuel : Nat)
    {l : List A} (path : List.IsChain (Linked link) (a :: (l ++ [target])))
    (fresh : target ∉ l) (budget : l.length ≤ fuel) : collect link target fuel a = l := by
  induction l generalizing fuel a with
  | nil =>
    have step : (link a).next = some target := (List.isChain_cons_cons.mp path).1.1
    cases fuel <;> simp [collect, step]
  | cons b l ih =>
    have step : (link a).next = some b := (List.isChain_cons_cons.mp path).1.1
    have other : b ≠ target := fun eq => fresh (by simp [eq])
    cases fuel with
    | zero => simp at budget
    | succ fuel =>
      have rest := ih fuel (List.isChain_cons_cons.mp path).2
        (fun mem => fresh (by simp [mem])) (by simpa using budget)
      simp only [collect, step, other, ↓reduceIte, rest]

end Walks

end CircularList
