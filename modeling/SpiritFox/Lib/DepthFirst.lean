import Mathlib.Data.List.Chain
import Mathlib.Data.List.Nodup
import Mathlib.Logic.Function.Basic
import Mathlib.Logic.Relation

/-!
# Depth-first search in three colours

A vertex is white before the search comes to it, grey while its successors are searched and black afterwards. `Inv` is
what holds between any two moves of such a search along `E`: the grey vertices are the path the search has taken, and
what is black stays among black vertices and is on no cycle. `Inv.enter` and `Inv.leave` are the two moves; a grey
successor of the newest vertex closes a cycle (`Inv.isChain_cons`).
-/

namespace DepthFirst

open Relation

inductive Colour where
  | white
  | grey
  | black
  deriving DecidableEq, Repr

section Search

variable {V : Type} (E : V → V → Prop)

/-- The search stands at the head of `path`, which lists the grey vertices from the newest to the oldest. -/
structure Inv (colour : V → Colour) (path : List V) : Prop where
  grey : ∀ v, colour v = .grey ↔ v ∈ path
  nodup : path.Nodup
  chain : path.IsChain fun v u => E u v
  closed : ∀ v w, colour v = .black → E v w → colour w = .black
  acyclic : ∀ v, colour v = .black → ¬ TransGen E v v

variable {E} {colour : V → Colour} {path : List V} {v w : V}

theorem Inv.start (h : ∀ v, colour v = .white) : Inv E colour [] where
  grey v := by simp [h v]
  nodup := List.nodup_nil
  chain := List.isChain_nil
  closed v _ hv := by simp [h v] at hv
  acyclic v hv := by simp [h v] at hv

/-- Everything that a black vertex reaches is black. -/
theorem Inv.black_of_reach (h : Inv E colour path) (hv : colour v = .black) (hr : ReflTransGen E v w) :
    colour w = .black := by
  induction hr with
  | refl => exact hv
  | tail _ he ih => exact h.closed _ _ ih he

/-- Nothing that a black vertex reaches is on a cycle. -/
theorem Inv.not_cyclic (h : Inv E colour path) (hv : colour v = .black) (hr : ReflTransGen E v w) : ¬ TransGen E w w :=
  h.acyclic w (h.black_of_reach hv hr)

/-- The path goes on with a successor of its newest vertex. -/
theorem Inv.isChain_cons (h : Inv E colour path) (he : ∀ u ∈ path.head?, E u v) :
    (v :: path).IsChain fun v u => E u v := List.isChain_cons.2 ⟨he, h.chain⟩

variable [DecidableEq V]

/-- The search comes to a white vertex. -/
theorem Inv.enter (h : Inv E colour path) (hv : colour v = .white) (he : ∀ u ∈ path.head?, E u v) :
    Inv E (Function.update colour v .grey) (v :: path) where
  grey w := by
    by_cases hw : w = v
    · simp [hw]
    · simp [hw, h.grey w]
  nodup := List.nodup_cons.2 ⟨fun hm => by simp [(h.grey v).2 hm] at hv, h.nodup⟩
  chain := h.isChain_cons he
  closed u w hu hE := by
    have hne : u ≠ v := by
      rintro rfl
      simp at hu
    rw [Function.update_of_ne hne] at hu
    have hw := h.closed u w hu hE
    rw [Function.update_of_ne (by rintro rfl; simp [hv] at hw), hw]
  acyclic u hu := by
    have hne : u ≠ v := by
      rintro rfl
      simp at hu
    rw [Function.update_of_ne hne] at hu
    exact h.acyclic u hu

/-- The search leaves its newest vertex, all of whose successors are black: a cycle through it would pass a black vertex
and so stay among the vertices that were black before. -/
theorem Inv.leave (h : Inv E colour (v :: path)) (hs : ∀ w, E v w → colour w = .black) :
    Inv E (Function.update colour v .black) path := by
  obtain ⟨hnot, hnodup⟩ := List.nodup_cons.1 h.nodup
  have hgrey : colour v = .grey := (h.grey v).2 List.mem_cons_self
  have hblack : ∀ u, Function.update colour v .black u = .black → u = v ∨ colour u = .black := fun u hu => by
    by_cases hne : u = v
    · exact Or.inl hne
    · rw [Function.update_of_ne hne] at hu
      exact Or.inr hu
  have hkeep : ∀ u, colour u = .black → Function.update colour v .black u = .black := fun u hu => by
    rw [Function.update_apply]
    split
    · rfl
    · exact hu
  refine ⟨fun w => ?_, hnodup, h.chain.tail, fun u w hu hE => ?_, fun u hu hcycle => ?_⟩
  · by_cases hw : w = v
    · simp [hw, hnot]
    · rw [Function.update_of_ne hw, h.grey w, List.mem_cons]
      simp [hw]
  · rcases hblack u hu with rfl | hu
    · exact hkeep w (hs w hE)
    · exact hkeep w (h.closed u w hu hE)
  · rcases hblack u hu with rfl | hu
    · obtain ⟨w, hw, hr⟩ := TransGen.head'_iff.1 hcycle
      have := h.black_of_reach (hs w hw) hr
      rw [hgrey] at this
      cases this
    · exact h.acyclic u hu hcycle

end Search

end DepthFirst
