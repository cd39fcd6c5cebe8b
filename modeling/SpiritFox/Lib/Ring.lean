import Mathlib.Data.Int.ModEq
import Mathlib.Data.List.Basic
import Mathlib.Logic.Function.Basic

/-!
# Ring buffers

A ring of `n` cells holds `count` elements from cell `head` on, round the end. `contents` is the list it stands for;
appending, taking the first element, and removing elements in place are the list operations (`contents_push`,
`contents_pop`, `contents_compact`).
-/

namespace Ring

variable {α : Type} {n : Nat} [NeZero n]

/-- The cell of logical index `i`. -/
def cell (i : Nat) : Fin n := ⟨i % n, Nat.mod_lt _ (Nat.pos_of_ne_zero (NeZero.ne n))⟩

/-- The elements in order. -/
def contents (q : Fin n → α) (head count : Nat) : List α := (List.range count).map fun i => q (cell (head + i))

variable {q q' : Fin n → α} {head count : Nat}

theorem cell_ne {i j : Nat} (hij : i < j) (hj : j < n) : (cell (head + j) : Fin n) ≠ cell (head + i) := by
  intro h
  have hmod : (head + j) % n = (head + i) % n := congrArg Fin.val h
  have hdvd : n ∣ j - i := by
    have := (Nat.modEq_iff_dvd' (by omega)).1 hmod.symm
    rwa [Nat.add_sub_add_left] at this
  exact absurd (Nat.le_of_dvd (by omega) hdvd) (by omega)

theorem contents_congr (h : ∀ i < count, q' (cell (head + i)) = q (cell (head + i))) :
    contents q' head count = contents q head count :=
  List.map_congr_left fun i hi => h i (List.mem_range.1 hi)

theorem contents_succ : contents q head (count + 1) = contents q head count ++ [q (cell (head + count))] := by
  simp [contents, List.range_succ]

/-- A cell behind the elements does not matter. -/
theorem contents_update {i : Nat} {x : α} (hi : count ≤ i) (hn : i < n) :
    contents (Function.update q (cell (head + i)) x) head count = contents q head count :=
  contents_congr fun _ hj => Function.update_of_ne (cell_ne (by omega) hn).symm _ _

theorem contents_push {x : α} (h : count < n) :
    contents (Function.update q (cell (head + count)) x) head (count + 1) = contents q head count ++ [x] := by
  rw [contents_succ, contents_update (Nat.le_refl _) h, Function.update_self]

theorem contents_pop : contents q head (count + 1) = q (cell head) :: contents q ((head + 1) % n) count := by
  unfold contents
  rw [List.range_succ_eq_map, List.map_cons, List.map_map]
  congr 1
  apply List.map_congr_left
  intro i _
  have hcell : (cell (head + (i + 1)) : Fin n) = cell ((head + 1) % n + i) := by
    apply Fin.ext
    simp only [cell, Nat.mod_add_mod]
    congr 1
    omega
  simp only [Function.comp_apply, hcell]

/-- Taking `a` elements at once. -/
theorem contents_split (a b : Nat) : contents q head (a + b) = contents q head a ++ contents q ((head + a) % n) b := by
  unfold contents
  rw [List.range_add, List.map_append, List.map_map]
  congr 1
  apply List.map_congr_left
  intro i _
  have hcell : (cell (head + (a + i)) : Fin n) = cell ((head + a) % n + i) := by
    apply Fin.ext
    simp only [cell, Nat.mod_add_mod, Nat.add_assoc]
  simp only [Function.comp_apply, hcell]

/-! ## Removal in place -/

/-- One round of a removal: the element of logical index `i` moves to index `kept`, or is passed over. -/
def compactRound (keep : α → Bool) (head : Nat) (acc : (Fin n → α) × Nat) (i : Nat) : (Fin n → α) × Nat :=
  if keep (acc.1 (cell (head + i))) then
    (if acc.2 ≠ i then Function.update acc.1 (cell (head + acc.2)) (acc.1 (cell (head + i))) else acc.1, acc.2 + 1)
  else acc

/-- After `i` rounds: the elements kept so far are in front, and those to come are untouched. -/
structure Compacted (keep : α → Bool) (q : Fin n → α) (head i : Nat) (acc : (Fin n → α) × Nat) : Prop where
  le : acc.2 ≤ i
  front : contents acc.1 head acc.2 = (contents q head i).filter keep
  rest : ∀ j, i ≤ j → j < n → acc.1 (cell (head + j)) = q (cell (head + j))

theorem Compacted.round {keep : α → Bool} {i : Nat} {acc : (Fin n → α) × Nat} (h : Compacted keep q head i acc)
    (hi : i < n) :
    Compacted keep q head (i + 1) (compactRound keep head acc i) := by
  obtain ⟨hle, hfront, hrest⟩ := h
  have hx := hrest i (Nat.le_refl i) hi
  unfold compactRound
  split
  · rename_i hk
    have hstep : (contents q head (i + 1)).filter keep = contents acc.1 head acc.2 ++ [acc.1 (cell (head + i))] := by
      rw [contents_succ, List.filter_append, hfront, hx]
      rw [hx] at hk
      simp [hk]
    by_cases hne : acc.2 = i
    · refine ⟨by dsimp only; omega, ?_, fun j hj hn => ?_⟩
      · rw [if_neg (by simpa using hne), hstep, contents_succ, hne]
      · rw [if_neg (by simpa using hne)]
        exact hrest j (by omega) hn
    · refine ⟨by dsimp only; omega, ?_, fun j hj hn => ?_⟩
      · rw [if_pos hne, hstep, contents_push (by omega)]
      · dsimp only
        rw [if_pos hne, Function.update_of_ne (cell_ne (by omega) hn)]
        exact hrest j (by omega) hn
  · rename_i hk
    refine ⟨by omega, ?_, fun j hj hn => hrest j (by omega) hn⟩
    rw [hx] at hk
    rw [contents_succ, List.filter_append, hfront]
    simp [hk]

/-- **Removal in place is `filter`.** -/
theorem contents_compact (keep : α → Bool) (q : Fin n → α) (head : Nat) (hc : count ≤ n) :
    Compacted keep q head count ((List.range count).foldl (compactRound keep head) (q, 0)) := by
  induction count with
  | zero => exact ⟨Nat.le_refl 0, rfl, fun _ _ _ => rfl⟩
  | succ count ih =>
    rw [List.range_succ, List.foldl_append]
    exact (ih (by omega)).round (by omega)

/-- Overwriting the cells behind the elements changes nothing. -/
theorem contents_clear {kept : Nat} {x : α} (l : List Nat) (h : ∀ i ∈ l, kept ≤ i ∧ i < n) :
    contents (l.foldl (fun q i => Function.update q (cell (head + i)) x) q) head kept = contents q head kept := by
  induction l generalizing q with
  | nil => rfl
  | cons i l ih =>
    obtain ⟨hi, hn⟩ := h i List.mem_cons_self
    rw [List.foldl_cons, ih fun j hj => h j (List.mem_cons_of_mem i hj), contents_update hi hn]

end Ring
