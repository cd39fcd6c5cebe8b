import Mathlib.Data.List.Basic

/-!
# Ledgers

A ledger accounts for the items that went through a queue: each one, in the order it came in, with what became of
it. Items are handed out from the front of those still queued, so a ledger in which no item behind a queued one has
been handed out (`Ordered`) hands them out in the order they came in.
-/

namespace Ledger

inductive Fate where
  | queued | delivered | cancelled | discarded
  deriving DecidableEq

structure Entry (α : Type) where
  item : α
  fate : Fate

variable {α : Type}

def items (b : List (Entry α)) : List α := b.map Entry.item

/-- The items with this fate, in order. -/
def select (f : Fate) (b : List (Entry α)) : List α := items (b.filter fun x => x.fate = f)

def Ordered (b : List (Entry α)) : Prop := b.Pairwise fun x y => x.fate = .queued → y.fate ≠ .delivered

/-- The first queued item is handed out. -/
def hand : List (Entry α) → List (Entry α)
  | [] => []
  | x :: b => if x.fate = .queued then ⟨x.item, .delivered⟩ :: b else x :: hand b

/-- The queued items with `p` meet this fate. -/
def settle (p : α → Bool) (f : Fate) (b : List (Entry α)) : List (Entry α) :=
  b.map fun x => if x.fate = .queued ∧ p x.item then ⟨x.item, f⟩ else x

variable {b : List (Entry α)} {x : α} {f g : Fate} {p : α → Bool}

/-! ## A new item -/

@[simp] theorem items_append (b b' : List (Entry α)) : items (b ++ b') = items b ++ items b' := List.map_append

theorem select_append (f : Fate) (b b' : List (Entry α)) : select f (b ++ b') = select f b ++ select f b' := by
  simp [select]

theorem select_cons (f : Fate) (y : Entry α) (b : List (Entry α)) : select f (y :: b) = select f [y] ++ select f b :=
  select_append f [y] b

theorem select_singleton (y : Entry α) : select f [y] = if y.fate = f then [y.item] else [] := by
  by_cases h : y.fate = f
  · simp [select, items, h]
  · simp [select, items, h]

theorem ordered_append (h : Ordered b) (y : Entry α) (hy : y.fate = .delivered → select .queued b = []) :
    Ordered (b ++ [y]) := by
  refine List.pairwise_append.2 ⟨h, List.pairwise_singleton _ _, fun z hz w hw hq hd => ?_⟩
  rw [List.mem_singleton.1 hw] at hd
  have hmem : z.item ∈ select .queued b := List.mem_map.2 ⟨z, List.mem_filter.2 ⟨hz, by simpa using hq⟩, rfl⟩
  rw [hy hd] at hmem
  cases hmem

/-! ## The first queued item -/

theorem items_hand : ∀ b : List (Entry α), items (hand b) = items b
  | [] => rfl
  | y :: b => by
    unfold hand
    split
    · rfl
    · exact congrArg (y.item :: ·) (items_hand b)

/-- Handing out takes the front of the queue, and in an ordered ledger puts it behind all that were handed out before. -/
theorem select_hand (h : Ordered b) {rest : List α} (hq : select .queued b = x :: rest) :
    select .queued (hand b) = rest ∧ select .delivered (hand b) = select .delivered b ++ [x] ∧ Ordered (hand b) := by
  induction b with
  | nil => cases hq
  | cons y b ih =>
    obtain ⟨hy, hb⟩ := List.pairwise_cons.1 h
    by_cases hyq : y.fate = .queued
    · have hsel : y.item :: select .queued b = x :: rest := by simpa [select, items, hyq] using hq
      obtain ⟨rfl, rfl⟩ := List.cons.inj hsel
      have hnone : b.filter (fun z => z.fate = .delivered) = [] :=
        List.filter_eq_nil_iff.2 fun z hz => by simpa using hy z hz hyq
      have hhand : hand (y :: b) = ⟨y.item, .delivered⟩ :: b := if_pos hyq
      rw [hhand]
      refine ⟨by simp [select, items], by simp [select, items, hyq, hnone], List.pairwise_cons.2 ⟨fun z _ hf => ?_, hb⟩⟩
      cases hf
    · have hhand : hand (y :: b) = y :: hand b := if_neg hyq
      have hsel : ∀ c : List (Entry α), select .queued (y :: c) = select .queued c := fun c => by simp [select, items, hyq]
      rw [hsel] at hq
      obtain ⟨h₁, h₂, h₃⟩ := ih hb hq
      rw [hhand]
      refine ⟨(hsel _).trans h₁, ?_, List.pairwise_cons.2 ⟨fun z _ hf => absurd hf hyq, h₃⟩⟩
      rw [select_cons _ y (hand b), select_cons _ y b, h₂, List.append_assoc]

/-- Nothing but a delivery comes of handing out. -/
theorem getElem?_hand {n : Nat} {y : Entry α} (hy : (hand b)[n]? = some y) (hf : y.fate ≠ .delivered) : b[n]? = some y := by
  induction b generalizing n with
  | nil => exact hy
  | cons z b ih =>
    unfold hand at hy
    split at hy
    · cases n with
      | zero =>
        cases hy
        exact absurd rfl hf
      | succ n => exact hy
    · cases n with
      | zero => exact hy
      | succ n => exact ih hy

/-! ## Settling -/

theorem items_settle : items (settle p f b) = items b := by
  unfold items settle
  rw [List.map_map]
  refine List.map_congr_left fun y _ => ?_
  simp only [Function.comp_apply]
  split <;> rfl

theorem select_settle_queued (hf : f ≠ .queued) :
    select .queued (settle p f b) = (select .queued b).filter fun x => !p x := by
  induction b with
  | nil => rfl
  | cons y b ih =>
    have hset : settle p f (y :: b) = (if y.fate = .queued ∧ p y.item then ⟨y.item, f⟩ else y) :: settle p f b := rfl
    rw [hset, select_cons, select_cons _ y, List.filter_append, ih]
    congr 1
    by_cases hy : y.fate = .queued
    · by_cases hp : p y.item <;> simp [select_singleton, hy, hp, hf]
    · simp [select_singleton, hy]

theorem select_settle_of_ne (hq : g ≠ .queued) (hf : f ≠ g) : select g (settle p f b) = select g b := by
  induction b with
  | nil => rfl
  | cons y b ih =>
    have hset : settle p f (y :: b) = (if y.fate = .queued ∧ p y.item then ⟨y.item, f⟩ else y) :: settle p f b := rfl
    rw [hset, select_cons, select_cons _ y, ih]
    congr 1
    split
    · rename_i hy
      simp [select_singleton, hy.1, hf, hq.symm]
    · rfl

theorem ordered_settle (hf : f ≠ .delivered) (hq : f ≠ .queued) (h : Ordered b) : Ordered (settle p f b) := by
  refine List.pairwise_map.2 (h.imp fun {y z} hyz hy hz => ?_)
  split at hy
  · exact hq hy
  split at hz
  · exact hf hz
  · exact hyz hy hz

theorem getElem?_settle {n : Nat} {y : Entry α} (hy : (settle p f b)[n]? = some y) :
    b[n]? = some y ∨ y.fate = f ∧ p y.item ∧ n < b.length := by
  unfold settle at hy
  rw [List.getElem?_map] at hy
  obtain ⟨z, hz, hzy⟩ := Option.map_eq_some_iff.1 hy
  split at hzy
  · rename_i hq
    subst hzy
    exact Or.inr ⟨rfl, hq.2, (List.getElem?_eq_some_iff.1 hz).1⟩
  · exact Or.inl (hzy ▸ hz)

end Ledger
