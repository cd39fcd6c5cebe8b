import SpiritFox.Lib.Tally
import Mathlib.Logic.Function.Basic

/-!
# Reference counts

Slots point at objects, and each object counts the slots that point at it. `Counted` is kept by a slot that starts
to point at an object (`Counted.attach`) and by one that ceases to (`Counted.detach`), where the count moves by one.
-/

namespace Refs

open Tally

variable {κ δ : Type} [Fintype κ] [DecidableEq δ]

/-- Every count is the number of slots that point at the object. -/
def Counted (points : κ → Option δ) (refs : δ → Nat) : Prop := ∀ d, refs d = tally fun k => points k = some d

variable {points : κ → Option δ} {refs refs' : δ → Nat} {k k' : κ} {d : δ}

theorem Counted.pos (h : Counted points refs) (hk : points k = some d) : refs d ≠ 0 := by
  rw [h d]
  exact Nat.ne_of_gt (tally_pos (p := fun k => points k = some d) hk)

theorem Counted.le_card (h : Counted points refs) (d : δ) : refs d ≤ Fintype.card κ := by
  rw [h d]
  exact Finset.card_le_univ _

/-- An object without references has no slot. -/
theorem Counted.points_ne (h : Counted points refs) (hd : refs d = 0) (k : κ) : points k ≠ some d := fun hk => h.pos hk hd

/-- The last reference is in one slot only. -/
theorem Counted.unique (h : Counted points refs) (hd : refs d = 1) (hk : points k = some d) (hk' : points k' = some d) :
    k = k' := by
  have hone : (Finset.univ.filter fun j => points j = some d).card = 1 := (h d).symm.trans hd
  exact Finset.card_le_one.1 hone.le k (by simpa using hk) k' (by simpa using hk')

variable [DecidableEq κ]

theorem Counted.attach (h : Counted points refs) (hk : points k = none) (hself : refs' d = refs d + 1)
    (hother : ∀ c, c ≠ d → refs' c = refs c) : Counted (Function.update points k (some d)) refs' := by
  intro c
  have hchange := tally_change (p := fun j => points j = some c)
    (q := fun j => Function.update points k (some d) j = some c) k
    (by intro j hj; rw [Function.update_of_ne hj])
  simp only [Function.update_self, hk, reduceCtorEq, if_false, Nat.add_zero, Option.some.injEq] at hchange
  by_cases hc : c = d
  · subst hc
    rw [hself, h c, hchange, if_pos rfl]
  · rw [hother c hc, h c, hchange, if_neg (Ne.symm hc), Nat.add_zero]

theorem Counted.detach (h : Counted points refs) (hk : points k = some d) (hself : refs' d + 1 = refs d)
    (hother : ∀ c, c ≠ d → refs' c = refs c) : Counted (Function.update points k none) refs' := by
  intro c
  have hchange := tally_change (p := fun j => points j = some c) (q := fun j => Function.update points k none j = some c) k
    (by intro j hj; rw [Function.update_of_ne hj])
  simp only [Function.update_self, hk, reduceCtorEq, if_false, Nat.add_zero, Option.some.injEq] at hchange
  by_cases hc : c = d
  · subst hc
    rw [if_pos rfl, ← h c] at hchange
    omega
  · rw [if_neg (Ne.symm hc), Nat.add_zero] at hchange
    rw [hother c hc, h c, hchange]

end Refs
