import Mathlib.Data.Int.Basic
import Mathlib.Tactic.Common

/-! Outcomes of C code and conversions to the fixed-width signed types of the
   compiler (two's complement, conversions modulo the width). Nothing here
   depends on a particular program. -/
namespace MachineModel

/-- How a call can fail to return: exit(code), a dereference of NULL, or a loop that has run longer
    than any terminating run can. -/
inductive Halt where
  | exit (code : Int)
  | fault
  | hang
  deriving DecidableEq, Repr

/-- A sequence that returns: its first part returned, and then the rest did. -/
theorem bind_ok {α β : Type} {x : Except Halt α} {f : α → Except Halt β} {b : β}
    (run : (x >>= f) = .ok b) : ∃ a, x = .ok a ∧ f a = .ok b := by
  cases x with
  | error halt => cases run
  | ok a => exact ⟨a, rfl, run⟩

theorem map_ok {α β : Type} {f : α → β} {x : Except Halt α} {b : β} (run : x.map f = .ok b) :
    ∃ a, x = .ok a ∧ f a = b := by
  cases x with
  | error e => cases run
  | ok a => exact ⟨a, rfl, Except.ok.inj run⟩

def intMax : Int := 2147483647
def intMin : Int := -2147483648
def shrtMax : Int := 32767
def shrtMin : Int := -32768

def toInt (x : Int) : Int := x.bmod 4294967296
def toShort (x : Int) : Int := x.bmod 65536

theorem toInt_eq_self {x : Int} (low : intMin ≤ x) (high : x ≤ intMax) : toInt x = x := by
  simp only [intMin, intMax] at low high
  exact Int.bmod_eq_of_le (by omega) (by omega)

theorem toShort_eq_self {x : Int} (low : shrtMin ≤ x) (high : x ≤ shrtMax) :
    toShort x = x := by
  simp only [shrtMin, shrtMax] at low high
  exact Int.bmod_eq_of_le (by omega) (by omega)

theorem toInt_range (x : Int) : intMin ≤ toInt x ∧ toInt x ≤ intMax := by
  have low := Int.le_bmod (x := x) (m := 4294967296) (by omega)
  have high := Int.bmod_le (x := x) (m := 4294967296) (by omega)
  simp only [intMin, intMax, toInt]
  omega

end MachineModel
