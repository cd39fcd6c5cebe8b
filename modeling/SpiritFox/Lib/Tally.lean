import Mathlib.Algebra.BigOperators.Group.Finset.Piecewise
import Mathlib.Data.Fintype.Card

/-!
# Counting the entries of a table

`tally p` is the number of indices with `p`. A counter that is kept equal to a tally is moved by one where the predicate
changes at one index (`tally_change`).
-/

namespace Tally

variable {ι : Type} [Fintype ι]

/-- The number of indices with `p`. -/
def tally (p : ι → Prop) [DecidablePred p] : Nat := (Finset.univ.filter p).card

variable {p q : ι → Prop} [DecidablePred p] [DecidablePred q]

theorem tally_congr (h : ∀ i, p i ↔ q i) : tally p = tally q := by
  unfold tally
  exact congrArg Finset.card (Finset.filter_congr fun i _ => h i)

theorem tally_eq_zero : tally p = 0 ↔ ∀ i, ¬ p i := by
  simp [tally, Finset.filter_eq_empty_iff]

theorem tally_pos {i : ι} (h : p i) : 0 < tally p := by
  apply Nat.pos_of_ne_zero
  intro h0
  exact tally_eq_zero.1 h0 i h

/-- Predicates that agree away from `i` have tallies that differ by what they say at `i`. -/
theorem tally_change [DecidableEq ι] (i : ι) (h : ∀ j, j ≠ i → (p j ↔ q j)) :
    tally q + (if p i then 1 else 0) = tally p + if q i then 1 else 0 := by
  unfold tally
  rw [Finset.card_filter, Finset.card_filter, ← Finset.add_sum_erase _ _ (Finset.mem_univ i),
    ← Finset.add_sum_erase _ (fun j => if p j then 1 else 0) (Finset.mem_univ i)]
  have hrest : (∑ j ∈ Finset.univ.erase i, if q j then 1 else 0) = ∑ j ∈ Finset.univ.erase i, if p j then 1 else 0 := by
    apply Finset.sum_congr rfl
    intro j hj
    simp [h j (Finset.ne_of_mem_erase hj)]
  omega

end Tally
