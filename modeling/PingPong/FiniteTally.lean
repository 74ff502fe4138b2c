import Mathlib.Algebra.BigOperators.Group.Finset.Piecewise
import Mathlib.Algebra.BigOperators.Ring.Finset
import Mathlib.Algebra.Order.BigOperators.Group.Finset

/-! Counting over finitely many parties of which one changes its state at a time. -/
namespace FiniteTally
variable {α β : Type} [Fintype α]

def tally (w : α → β → Int) (c : α → β) : Int := ∑ a, w a (c a)

theorem tally_congr {w : α → β → Int} {c c' : α → β} (same : ∀ a, w a (c' a) = w a (c a)) :
    tally w c' = tally w c := Finset.sum_congr rfl fun a _ => same a

theorem tally_nonneg {w : α → β → Int} {c : α → β} (nonneg : ∀ a, 0 ≤ w a (c a)) :
    0 ≤ tally w c := Finset.sum_nonneg fun a _ => nonneg a

theorem tally_zero {w : α → β → Int} {c : α → β} (zero : ∀ a, w a (c a) = 0) :
    tally w c = 0 := Finset.sum_eq_zero fun a _ => zero a

theorem le_tally {w : α → β → Int} {c : α → β} (nonneg : ∀ a, 0 ≤ w a (c a)) (t : α) :
    w t (c t) ≤ tally w c :=
  Finset.single_le_sum (f := fun a => w a (c a)) (fun a _ => nonneg a) (Finset.mem_univ t)

/-- A positive count has a party that counts. -/
theorem tally_pos {w : α → β → Int} {c : α → β} (pos : 0 < tally w c) : ∃ a, 0 < w a (c a) := by
  by_contra none
  have least : tally w c ≤ 0 := Finset.sum_nonpos fun a _ => not_lt.mp fun more => none ⟨a, more⟩
  omega

/-- If nobody counts for more than one and the count is full, everybody counts for one. -/
theorem tally_full {w : α → β → Int} {c : α → β} (atMost : ∀ a, w a (c a) ≤ 1)
    (full : tally w c = Fintype.card α) (t : α) : w t (c t) = 1 := by
  have rest : ∑ a, (1 - w a (c a)) = 0 := by
    rw [Finset.sum_sub_distrib, Finset.sum_const, Finset.card_univ, nsmul_one]
    change _ - tally w c = 0
    omega
  have zero := (Finset.sum_eq_zero_iff_of_nonneg fun a _ => by have := atMost a; omega).mp rest t
    (Finset.mem_univ t)
  omega

theorem card_eq_tally (p : α → β → Prop) [∀ a b, Decidable (p a b)] (c : α → β) :
    ((Finset.univ.filter fun a => p a (c a)).card : Int) =
      tally (fun a b => if p a b then 1 else 0) c := by
  rw [Finset.card_filter, Nat.cast_sum, tally]
  exact Finset.sum_congr rfl fun a _ => by split <;> rfl

variable [DecidableEq α]

theorem tally_update (w : α → β → Int) (c : α → β) (t : α) (b : β) :
    tally w (Function.update c t b) = tally w c - w t (c t) + w t b := by
  have changed : (fun a => w a (Function.update c t b a)) =
      Function.update (fun a => w a (c a)) t (w t b) :=
    funext fun a => (Function.apply_update (fun a => w a) c t b a)
  have rest := Finset.sum_update_of_mem (Finset.mem_univ t) (fun a => w a (c a)) (w t b)
  have whole := Finset.sum_sdiff (f := fun a => w a (c a)) (Finset.subset_univ {t})
  rw [Finset.sum_singleton] at whole
  rw [tally, changed, rest, tally]
  omega

theorem tally_but_one {w : α → β → Int} {c : α → β} {t : α} {k : Int}
    (same : ∀ u, u ≠ t → w u (c u) = k) :
    tally w c = (Fintype.card α - 1) * k + w t (c t) := by
  have rest : ∑ a ∈ Finset.univ.erase t, w a (c a) = (Fintype.card α - 1) * k := by
    rw [Finset.sum_congr rfl fun a mem => same a (Finset.ne_of_mem_erase mem), Finset.sum_const,
      Finset.card_erase_of_mem (Finset.mem_univ t), Finset.card_univ, nsmul_eq_mul,
      Nat.cast_pred (Fintype.card_pos_iff.mpr ⟨t⟩)]
  rw [tally, ← Finset.sum_erase_add _ _ (Finset.mem_univ t), rest]

/-- Two parties that both count make at least the sum of their shares. -/
theorem two_le_tally {w : α → β → Int} {c : α → β} (nonneg : ∀ a, 0 ≤ w a (c a)) {t u : α}
    (ne : t ≠ u) : w t (c t) + w u (c u) ≤ tally w c := by
  have pair := Finset.sum_le_sum_of_subset_of_nonneg (f := fun a => w a (c a))
    (Finset.subset_univ {t, u}) fun a _ _ => nonneg a
  rwa [Finset.sum_pair ne] at pair

theorem length_le_tally {w : α → β → Int} {c : α → β} {l : List α} (nodup : l.Nodup)
    (nonneg : ∀ a, 0 ≤ w a (c a)) (one : ∀ a ∈ l, 1 ≤ w a (c a)) : l.length ≤ tally w c := by
  have some : ∑ _a ∈ l.toFinset, (1 : Int) ≤ ∑ a ∈ l.toFinset, w a (c a) :=
    Finset.sum_le_sum fun a mem => one a (List.mem_toFinset.mp mem)
  have all : ∑ a ∈ l.toFinset, w a (c a) ≤ tally w c :=
    Finset.sum_le_sum_of_subset_of_nonneg (Finset.subset_univ _) fun a _ _ => nonneg a
  rw [Finset.sum_const, List.toFinset_card_of_nodup nodup, nsmul_one] at some
  omega

theorem tally_eq_length {w : α → β → Int} {c : α → β} {l : List α} (nodup : l.Nodup)
    (one : ∀ a ∈ l, w a (c a) = 1) (zero : ∀ a, a ∉ l → w a (c a) = 0) :
    tally w c = l.length := by
  have part : ∑ a ∈ l.toFinset, w a (c a) = tally w c :=
    Finset.sum_subset (Finset.subset_univ _) fun a _ out =>
      zero a fun mem => out (List.mem_toFinset.mpr mem)
  rw [← part, Finset.sum_congr rfl fun a mem => one a (List.mem_toFinset.mp mem),
    Finset.sum_const, List.toFinset_card_of_nodup nodup, nsmul_one]

end FiniteTally
