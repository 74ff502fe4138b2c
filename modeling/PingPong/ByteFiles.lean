import Mathlib.Data.List.Basic
import Mathlib.Algebra.Order.Ring.Int

/-!
Files with a position, as lseek, read and write see them, and the blocks of one size they are cut
into. A write that begins beyond the end fills the gap with zeros.
-/
namespace ByteFiles
variable {α : Type}

structure File (α : Type) where
  bytes : List α
  offset : Nat

namespace File

/-- Refused where the position would be negative. -/
def seekSet (f : File α) (position : Int) : File α :=
  if position < 0 then f else { f with offset := position.toNat }

/-- What is there, at most size of it. -/
def read (f : File α) (size : Nat) : List α × File α :=
  let data := (f.bytes.drop f.offset).take size
  (data, { f with offset := f.offset + data.length })

def write [Zero α] (f : File α) (data : List α) : File α :=
  if data = [] then f
  else
    { bytes := f.bytes.take f.offset ++ List.replicate (f.offset - f.bytes.length) 0 ++ data ++
        f.bytes.drop (f.offset + data.length)
      offset := f.offset + data.length }

end File

def block (size : Nat) (bytes : List α) (i : Nat) : List α := (bytes.drop (size * i)).take size

theorem block_get (size : Nat) (bytes : List α) (i k : Nat) :
    (block size bytes i)[k]? = if k < size then bytes[size * i + k]? else none := by
  simp only [block, List.getElem?_take, List.getElem?_drop]

theorem block_fits {size count i : Nat} (inside : i < count / size) : size * i + size ≤ count := by
  have whole : size * (i + 1) ≤ size * (count / size) := Nat.mul_le_mul_left size inside
  have part := Nat.mul_div_le count size
  rw [Nat.mul_succ] at whole
  omega

theorem block_length {size : Nat} {bytes : List α} {i : Nat} (inside : i < bytes.length / size) :
    (block size bytes i).length = size := by
  have fits := block_fits inside
  simp only [block, List.length_take, List.length_drop]
  omega

theorem seek_offset (f : File α) (position : Nat) :
    f.seekSet position = { f with offset := position } := by
  simp [File.seekSet]

theorem read_block (f : File α) (size i : Nat) :
    ((f.seekSet ((size * i : Nat) : Int)).read size).1 = block size f.bytes i := by
  rw [seek_offset]
  rfl

section Writing
variable [Zero α] {f : File α} {data : List α}

theorem write_get (fits : f.offset + data.length ≤ f.bytes.length) (k : Nat) :
    (f.write data).bytes[k]? =
      if f.offset ≤ k ∧ k < f.offset + data.length then data[k - f.offset]? else f.bytes[k]? := by
  unfold File.write
  by_cases none : data = []
  · have nowhere : ¬ (f.offset ≤ k ∧ k < f.offset + data.length) := by
      rw [none, List.length_nil]
      omega
    rw [if_pos none, if_neg nowhere]
  · have gap : f.offset - f.bytes.length = 0 := by omega
    rw [if_neg none]
    simp only [gap, List.replicate_zero, List.append_nil]
    have front : (f.bytes.take f.offset).length = f.offset := by
      rw [List.length_take]
      omega
    by_cases before : k < f.offset
    · rw [if_neg (by omega), List.getElem?_append_left (by simp only [List.length_append]; omega),
        List.getElem?_append_left (by omega), List.getElem?_take, if_pos before]
    · by_cases inside : k < f.offset + data.length
      · rw [if_pos (by omega), List.getElem?_append_left (by simp only [List.length_append]; omega),
          List.getElem?_append_right (by omega), front]
      · have past : (f.bytes.take f.offset ++ data).length ≤ k := by
          simp only [List.length_append]
          omega
        rw [if_neg (by omega), List.getElem?_append_right past, List.getElem?_drop]
        congr 1
        simp only [List.length_append, front]
        omega

theorem write_length (fits : f.offset + data.length ≤ f.bytes.length) :
    (f.write data).bytes.length = f.bytes.length := by
  unfold File.write
  split
  · rfl
  · simp only [List.length_append, List.length_take, List.length_replicate, List.length_drop]
    omega

theorem blocks_apart {size i j k : Nat} (other : j ≠ i) (inside : k < size) :
    ¬ (size * i ≤ size * j + k ∧ size * j + k < size * i + size) := by
  rintro ⟨low, high⟩
  rcases Nat.lt_or_gt_of_ne other with less | more
  · have gap : size * (j + 1) ≤ size * i := Nat.mul_le_mul_left size less
    rw [Nat.mul_succ] at gap
    omega
  · have gap : size * (i + 1) ≤ size * j := Nat.mul_le_mul_left size more
    rw [Nat.mul_succ] at gap
    omega

/-- The block written holds the data, and every other block, the part that ends the file included,
    is as it was. -/
theorem write_block {size i : Nat} (inside : i < f.bytes.length / size)
    (whole : data.length = size) (j : Nat) :
    block size ((f.seekSet ((size * i : Nat) : Int)).write data).bytes j =
      if j = i then data else block size f.bytes j := by
  rw [seek_offset]
  have fits := block_fits inside
  apply List.ext_getElem?
  intro k
  rw [block_get, write_get (by simp only [whole]; exact fits)]
  simp only [whole]
  by_cases same : j = i
  · subst same
    rw [if_pos rfl]
    by_cases short : k < size
    · rw [if_pos short, if_pos (by omega), Nat.add_sub_cancel_left]
    · rw [if_neg short, List.getElem?_eq_none (by omega)]
  · rw [if_neg same, block_get]
    by_cases short : k < size
    · rw [if_pos short, if_pos short, if_neg (blocks_apart same short)]
    · rw [if_neg short, if_neg short]

theorem write_block_length {size i : Nat} (inside : i < f.bytes.length / size)
    (whole : data.length = size) :
    ((f.seekSet ((size * i : Nat) : Int)).write data).bytes.length = f.bytes.length := by
  rw [seek_offset]
  exact write_length (by simp only [whole]; exact block_fits inside)

end Writing

end ByteFiles
