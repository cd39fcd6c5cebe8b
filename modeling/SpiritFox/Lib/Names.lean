import Mathlib.Tactic.Basic

/-!
# Tables of names

A table with a name in some of its slots, where every name but the root has a parent. `Rooted` says that the table is a tree:
no name is in two slots, the root is there, and the parent of every other name is there as a directory. A new name keeps this
below a directory (`Rooted.add`), and so does the end of a set of slots that has all children of its members (`Rooted.drop`).
-/

namespace Names

variable {ι κ : Type}

structure Rooted (name : ι → Option κ) (dir : ι → Prop) (parent : κ → κ) (root : κ) : Prop where
  distinct : ∀ {i j : ι} {k : κ}, name i = some k → name j = some k → i = j
  top : ∃ i, name i = some root ∧ dir i
  above : ∀ {i : ι} {k : κ}, name i = some k → k ≠ root → ∃ j, name j = some (parent k) ∧ dir j

variable {name name' : ι → Option κ} {dir dir' : ι → Prop} {parent : κ → κ} {root : κ}

section

variable (h : Rooted name dir parent root)

include h

/-- Only directories have children. -/
theorem Rooted.parent_ne {i j : ι} {k l : κ} (hi : name i = some k) (hd : ¬ dir i)
    (hj : name j = some l) (hl : l ≠ root) : parent l ≠ k := by
  rintro rfl
  obtain ⟨i', hi', hd'⟩ := h.above hj hl
  rw [h.distinct hi hi'] at hd
  exact hd hd'

/-- A name that is not in the table has no children there. -/
theorem Rooted.parent_ne_of_absent {j : ι} {k l : κ} (hk : ∀ i, name i ≠ some k)
    (hj : name j = some l) (hl : l ≠ root) : parent l ≠ k := by
  rintro rfl
  obtain ⟨i, hi, -⟩ := h.above hj hl
  exact hk i hi

theorem Rooted.add {i : ι} {k : κ} (hi : name i = none) (hk : ∀ j, name j ≠ some k)
    (hp : ∃ j, name j = some (parent k) ∧ dir j) (hself : name' i = some k) (hother : ∀ j, j ≠ i → name' j = name j)
    (hdir : ∀ j, j ≠ i → dir j → dir' j) : Rooted name' dir' parent root := by
  -- what was there has another slot than `i`
  have hne : ∀ {j l}, name j = some l → j ≠ i := by
    rintro j l hj rfl
    rw [hi] at hj
    cases hj
  have hkeep : ∀ {l}, (∃ j, name j = some l ∧ dir j) → ∃ j, name' j = some l ∧ dir' j := by
    rintro l ⟨j, hj, hd⟩
    exact ⟨j, (hother j (hne hj)).trans hj, hdir j (hne hj) hd⟩
  refine ⟨?_, hkeep h.top, ?_⟩
  · intro a b l ha hb
    by_cases hai : a = i
    · by_cases hbi : b = i
      · rw [hai, hbi]
      · rw [hai, hself] at ha
        rw [hother b hbi, ← ha] at hb
        exact absurd hb (hk b)
    · rw [hother a hai] at ha
      by_cases hbi : b = i
      · rw [hbi, hself] at hb
        rw [← hb] at ha
        exact absurd ha (hk a)
      · rw [hother b hbi] at hb
        exact h.distinct ha hb
  · intro a l ha hl
    by_cases hai : a = i
    · rw [hai, hself] at ha
      cases ha
      exact hkeep hp
    · rw [hother a hai] at ha
      exact hkeep (h.above ha hl)

theorem Rooted.drop (S : ι → Prop) (hroot : ∀ i, S i → name i ≠ some root)
    (hclosed : ∀ i j k, S i → name j = some k → k ≠ root → name i = some (parent k) → S j)
    (hgone : ∀ i, S i → name' i = none) (hkept : ∀ i, ¬ S i → name' i = name i) (hdir : ∀ i, ¬ S i → dir i → dir' i) :
    Rooted name' dir' parent root := by
  have hin : ∀ {i k}, name' i = some k → ¬ S i ∧ name i = some k := by
    intro i k hi
    have hS : ¬ S i := by
      intro hS
      rw [hgone i hS] at hi
      cases hi
    exact ⟨hS, hkept i hS ▸ hi⟩
  refine ⟨?_, ?_, ?_⟩
  · intro i j k hi hj
    exact h.distinct (hin hi).2 (hin hj).2
  · obtain ⟨i, hi, hd⟩ := h.top
    have hS : ¬ S i := fun hS => hroot i hS hi
    exact ⟨i, (hkept i hS).trans hi, hdir i hS hd⟩
  · intro i k hi hk
    obtain ⟨hS, hn⟩ := hin hi
    obtain ⟨j, hj, hd⟩ := h.above hn hk
    have hSj : ¬ S j := fun hSj => hS (hclosed j i k hSj hn hk hj)
    exact ⟨j, (hkept j hSj).trans hj, hdir j hSj hd⟩

end

end Names
