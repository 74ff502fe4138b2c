import Mathlib.Data.List.Induction
import Mathlib.Tactic.Common

/-! First-come-first-served counting semaphores, apart from any program: free units and
waiting clients, with the signed counter that stands for both. -/
namespace CountingSemaphores
variable {T : Type}

/-- Nobody waits while a unit is free. -/
structure Counting (T : Type) where
  units : Nat
  waiting : List T
  exclusive : units = 0 ∨ waiting = []

inductive Access (T : Type) where
  | down (client : T)
  | up
  | close
  deriving DecidableEq

namespace Counting

def full (n : Nat) : Counting T := ⟨n, [], Or.inr rfl⟩

def value (c : Counting T) : Int := c.units - c.waiting.length

def down (c : Counting T) (client : T) : Counting T :=
  if empty : c.units = 0 then ⟨0, c.waiting ++ [client], Or.inl rfl⟩
  else ⟨c.units - 1, c.waiting, Or.inr (c.exclusive.resolve_left empty)⟩

def up (c : Counting T) : Counting T :=
  if c.waiting = [] then ⟨c.units + 1, [], Or.inr rfl⟩
  else ⟨0, c.waiting.tail, Or.inl rfl⟩

variable {c : Counting T}

theorem waiting_length (c : Counting T) : (c.waiting.length : Int) = max 0 (-c.value) := by
  unfold value
  rcases c.exclusive with empty | idle
  · rw [empty]
    omega
  · rw [idle, List.length_nil]
    omega

theorem units_eq (c : Counting T) : (c.units : Int) = max 0 c.value := by
  unfold value
  rcases c.exclusive with empty | idle
  · rw [empty]
    omega
  · rw [idle, List.length_nil]
    omega

theorem empty_iff (c : Counting T) : c.units = 0 ↔ c.value - 1 < 0 := by
  have units := c.units_eq
  omega

theorem waiting_iff (c : Counting T) : c.waiting ≠ [] ↔ c.value + 1 ≤ 0 := by
  have length := c.waiting_length
  rw [← List.length_pos_iff]
  omega

theorem down_blocks (empty : c.units = 0) (client : T) :
    (c.down client).waiting = c.waiting ++ [client] := by
  simp [down, empty]

theorem down_passes (some : c.units ≠ 0) (client : T) : (c.down client).waiting = c.waiting := by
  simp [down, some]

theorem up_wakes {client : T} {rest : List T} (waiting : c.waiting = client :: rest) :
    c.up.waiting = rest := by
  simp [up, waiting]

theorem up_idles (idle : c.waiting = []) : c.up.waiting = [] := by
  simp [up, idle]

@[simp] theorem full_value (n : Nat) : (full n : Counting T).value = n := by
  simp [full, value]

@[simp] theorem down_value (c : Counting T) (client : T) : (c.down client).value = c.value - 1 := by
  unfold down value
  split
  · rename_i empty
    rw [empty, List.length_append, List.length_singleton]
    push_cast
    omega
  · rename_i some
    dsimp only
    omega

@[simp] theorem up_value (c : Counting T) : c.up.value = c.value + 1 := by
  unfold up value
  split
  · rename_i idle
    rw [idle, List.length_nil]
    push_cast
    omega
  · rename_i busy
    dsimp only
    rw [c.exclusive.resolve_right busy, List.length_tail]
    have length := List.length_pos_iff.mpr busy
    omega

end Counting

/-- None once the semaphore is closed. -/
def access : Option (Counting T) → Access T → Option (Counting T)
  | none, _ => none
  | some c, .down client => some (c.down client)
  | some c, .up => some c.up
  | some _, .close => none

def after (n : Nat) (history : List (Access T)) : Option (Counting T) :=
  history.foldl access (some (.full n))

def ups (history : List (Access T)) : Nat := history.countP fun | .up => true | _ => false

def downs (history : List (Access T)) : Nat := history.countP fun | .down _ => true | _ => false

@[simp] theorem after_nil (n : Nat) : after n ([] : List (Access T)) = some (.full n) := rfl

theorem after_snoc (n : Nat) (history : List (Access T)) (a : Access T) :
    after n (history ++ [a]) = access (after n history) a := by
  rw [after, List.foldl_append]
  rfl

/-- The counter is the initial value with every up added and every down taken away. -/
theorem value_after {n : Nat} {history : List (Access T)} {c : Counting T}
    (opened : after n history = some c) : c.value = n + ups history - downs history := by
  induction history using List.reverseRecOn generalizing c with
  | nil =>
    rw [after_nil, Option.some.injEq] at opened
    rw [← opened]
    simp [ups, downs]
  | append_singleton earlier a ih =>
    rw [after_snoc] at opened
    cases before : after n earlier with
    | none =>
      rw [before] at opened
      cases opened
    | some b =>
      have value := ih before
      rw [before] at opened
      cases a with
      | down client =>
        cases opened
        rw [Counting.down_value, value]
        simp [ups, downs]
        omega
      | up =>
        cases opened
        rw [Counting.up_value, value]
        simp [ups, downs]
        omega
      | close => cases opened

/-- It is closed once somebody has closed it, and stays closed. -/
theorem closed_iff (n : Nat) (history : List (Access T)) :
    after n history = none ↔ .close ∈ history := by
  induction history using List.reverseRecOn with
  | nil => simp
  | append_singleton earlier a ih =>
    rw [after_snoc, List.mem_append, List.mem_singleton, ← ih]
    cases before : after n earlier with
    | none => simp [access]
    | some b => cases a <;> simp [access]

end CountingSemaphores
