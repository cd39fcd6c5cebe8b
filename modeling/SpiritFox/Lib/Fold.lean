import Mathlib.Data.List.Basic
import Mathlib.Data.List.Induction
import Mathlib.Logic.Function.Basic

/-!
# Loops over a list

Two rules for `foldl`: what every round keeps holds at the end, and what a round establishes for its own element, and later
rounds keep, holds for every element at the end. `foldl_update` is a pass over the entries of a table, `firstMax` the search
for the first of the greatest elements.
-/

namespace Fold

variable {σ α : Type} {f : σ → α → σ}

theorem keeps {I : σ → Prop} (l : List α) (h : ∀ s, ∀ x ∈ l, I s → I (f s x)) {s : σ} (hs : I s) : I (l.foldl f s) := by
  induction l generalizing s with
  | nil => exact hs
  | cons x l ih =>
    exact ih (fun s y hy => h s y (List.mem_cons_of_mem x hy)) (h s x List.mem_cons_self hs)

theorem establishes {I : σ → Prop} {P : α → σ → Prop} (l : List α) (hI : ∀ s x, I s → I (f s x))
    (hset : ∀ s x, I s → P x (f s x)) (hkeep : ∀ s x y, I s → P y s → P y (f s x)) {s : σ} (hs : I s) :
    ∀ x ∈ l, P x (l.foldl f s) := by
  induction l generalizing s with
  | nil => exact nofun
  | cons x l ih =>
    intro y hy
    rcases List.mem_cons.1 hy with rfl | hy
    · have hboth : I (f s y) ∧ P y (f s y) := ⟨hI s y hs, hset s y hs⟩
      exact (keeps (I := fun s => I s ∧ P y s) l (fun s x _ h => ⟨hI s x h.1, hkeep s x y h.1 h.2⟩) hboth).2
    · exact ih (hI s x hs) y hy

/-- A pass that changes the entries with `p`, each on its own. -/
theorem foldl_update {β : Type} [DecidableEq α] (p : α → Prop) [DecidablePred p] (f : β → β) {l : List α}
    (hl : l.Nodup) (g : α → β) :
    l.foldl (fun g x => if p x then Function.update g x (f (g x)) else g) g = fun x =>
      if x ∈ l ∧ p x then f (g x) else g x := by
  induction l generalizing g with
  | nil => simp
  | cons x l ih =>
    obtain ⟨hx, hl⟩ := List.nodup_cons.1 hl
    rw [List.foldl_cons, ih hl]
    funext y
    by_cases hy : y = x
    · subst hy
      by_cases hp : p y <;> simp [hx, hp]
    · by_cases hp : p x <;> simp [hy, hp]

/-! ## The first maximum -/

section FirstMax

variable (p : α → Prop) [DecidablePred p] (f : α → Nat)

/-- One round of the search among the elements with `p`: a greater value replaces the best so far. -/
def better (best : Option (α × Nat)) (x : α) : Option (α × Nat) :=
  if p x then match best with
    | none => some (x, f x)
    | some (_, s) => if s < f x then some (x, f x) else best
  else best

/-- `best` is the first of the greatest elements of `l` with `p`, and its value. -/
def FirstMax (l : List α) : Option (α × Nat) → Prop
  | none => ∀ x ∈ l, ¬ p x
  | some (a, s) => p a ∧ s = f a ∧ ∃ before after, l = before ++ a :: after ∧ (∀ x ∈ before, p x → f x < f a) ∧
    ∀ x ∈ after, p x → f x ≤ f a

variable {p f}

theorem FirstMax.round {l : List α} {best : Option (α × Nat)} (h : FirstMax p f l best) (x : α) :
    FirstMax p f (l ++ [x]) (better p f best x) := by
  unfold better
  split
  · rename_i hx
    rcases best with _ | ⟨a, s⟩
    · refine ⟨hx, rfl, l, [], rfl, fun y hy hp => absurd hp (h y hy), nofun⟩
    obtain ⟨ha, rfl, before, after, rfl, hbefore, hafter⟩ := h
    dsimp only
    split
    · rename_i hlt
      refine ⟨hx, rfl, before ++ a :: after, [], rfl, fun y hy hp => ?_, nofun⟩
      rcases List.mem_append.1 hy with hy | hy
      · exact Nat.lt_trans (hbefore y hy hp) hlt
      rcases List.mem_cons.1 hy with rfl | hy
      · exact hlt
      · exact Nat.lt_of_le_of_lt (hafter y hy hp) hlt
    · rename_i hge
      refine ⟨ha, rfl, before, after ++ [x], by simp, hbefore, fun y hy hp => ?_⟩
      rcases List.mem_append.1 hy with hy | hy
      · exact hafter y hy hp
      · rw [List.mem_singleton.1 hy]
        exact Nat.le_of_not_lt hge
  · rename_i hx
    rcases best with _ | ⟨a, s⟩
    · intro y hy
      rcases List.mem_append.1 hy with hy | hy
      · exact h y hy
      · rwa [List.mem_singleton.1 hy]
    · obtain ⟨ha, hs, before, after, rfl, hbefore, hafter⟩ := h
      refine ⟨ha, hs, before, after ++ [x], by simp, hbefore, fun y hy hp => ?_⟩
      rcases List.mem_append.1 hy with hy | hy
      · exact hafter y hy hp
      · rw [List.mem_singleton.1 hy] at hp
        exact absurd hp hx

theorem firstMax (l : List α) : FirstMax p f l (l.foldl (better p f) none) := by
  induction l using List.reverseRecOn with
  | nil => exact nofun
  | append_singleton l x ih =>
    rw [List.foldl_append]
    exact ih.round x

end FirstMax

end Fold
