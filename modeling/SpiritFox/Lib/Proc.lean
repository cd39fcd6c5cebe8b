import Mathlib.Logic.Function.Basic

/-!
# Procedures

A procedure changes a state and returns a value or an error; an error keeps the changes made before it, as a C
function that returns early does. `Triple P p Q E` says that from a state with `P` the procedure ends in `Q` when it
returns and in `E` when it fails; the rules below follow the way procedures are put together.
-/

/-- A computation on `σ` that returns `α` or fails with `ε`, in some state. -/
def Proc (σ ε α : Type) : Type := σ → Except ε α × σ

namespace Proc

variable {σ ε α β : Type}

instance : Monad (Proc σ ε) where
  pure a := fun s => (.ok a, s)
  bind p f := fun s => match p s with
    | (.ok a, s') => f a s'
    | (.error e, s') => (.error e, s')

theorem run_bind {p : Proc σ ε α} {f : α → Proc σ ε β} {s s' : σ} {a : α} (h : p s = (.ok a, s')) :
    (p >>= f) s = f a s' := by
  change (match p s with | (.ok a, s') => f a s' | (.error e, s') => (.error e, s')) = _
  rw [h]

def fail (e : ε) : Proc σ ε α := fun s => (.error e, s)

def read : Proc σ ε σ := fun s => (.ok s, s)

def update (f : σ → σ) : Proc σ ε Unit := fun s => (.ok (), f s)

/-- A function that always returns. -/
def call (f : σ → α × σ) : Proc σ ε α := fun s => (.ok (f s).1, (f s).2)

/-- A function whose missing value is the failure `e`. -/
def callSome (e : ε) (f : σ → Option α × σ) : Proc σ ε α := fun s =>
  match f s with
  | (some a, s') => (.ok a, s')
  | (none, s') => (.error e, s')

/-- `p`, with the state changed by `f` when it fails. -/
def onError (p : Proc σ ε α) (f : ε → σ → σ) : Proc σ ε α := fun s =>
  match p s with
  | (.ok a, s') => (.ok a, s')
  | (.error e, s') => (.error e, f e s')

/-! ## Triples -/

def Triple (P : σ → Prop) (p : Proc σ ε α) (Q : α → σ → Prop) (E : ε → σ → Prop) : Prop :=
  ∀ s, P s → match p s with
    | (.ok a, s') => Q a s'
    | (.error e, s') => E e s'

variable {P S : σ → Prop} {Q T : α → σ → Prop} {R : β → σ → Prop} {E F : ε → σ → Prop} {p : Proc σ ε α}

theorem triple_pure {a : α} (h : ∀ s, P s → Q a s) : Triple P (pure a : Proc σ ε α) Q E := h

theorem triple_fail {e : ε} (h : ∀ s, P s → E e s) : Triple P (fail e : Proc σ ε α) Q E := h

theorem triple_update {f : σ → σ} {Q : Unit → σ → Prop} (h : ∀ s, P s → Q () (f s)) :
    Triple P (update f : Proc σ ε Unit) Q E := h

theorem triple_call {f : σ → α × σ} (h : ∀ s, P s → Q (f s).1 (f s).2) : Triple P (call f : Proc σ ε α) Q E := h

theorem triple_callSome {e : ε} {f : σ → Option α × σ}
    (h : ∀ s, P s → (∀ a, (f s).1 = some a → Q a (f s).2) ∧ ((f s).1 = none → E e (f s).2)) :
    Triple P (callSome e f) Q E := by
  intro s hs
  obtain ⟨hsome, hnone⟩ := h s hs
  unfold callSome
  rcases hf : f s with ⟨_ | a, s'⟩
  · rw [hf] at hnone
    exact hnone rfl
  · rw [hf] at hsome
    exact hsome a rfl

theorem triple_bind {f : α → Proc σ ε β} (hp : Triple P p Q E) (hf : ∀ a, Triple (Q a) (f a) R E) :
    Triple P (p >>= f) R E := by
  intro s hs
  have h := hp s hs
  change match (match p s with | (.ok a, s') => f a s' | (.error e, s') => (.error e, s')) with
    | (.ok b, s') => R b s'
    | (.error e, s') => E e s'
  rcases hps : p s with ⟨e | a, s'⟩
  · rw [hps] at h
    exact h
  · rw [hps] at h
    exact hf a s' h

/-- Reading the state gives its value to the rest. -/
theorem triple_read {f : σ → Proc σ ε β} (h : ∀ s, P s → Triple (fun s' => s' = s) (f s) R E) :
    Triple P ((read : Proc σ ε σ) >>= f) R E := fun s hs => h s hs s rfl

theorem triple_read_of {f : σ → Proc σ ε β} (h : ∀ s, P s → Triple P (f s) R E) : Triple P ((read : Proc σ ε σ) >>= f) R E :=
  fun s hs => h s hs s hs

theorem triple_weaken (h : Triple S p T F) (hP : ∀ s, P s → S s) (hQ : ∀ a s, T a s → Q a s)
    (hE : ∀ e s, F e s → E e s) : Triple P p Q E := by
  intro s hs
  have hp := h s (hP s hs)
  rcases hps : p s with ⟨e | a, s'⟩
  · rw [hps] at hp
    exact hE e s' hp
  · rw [hps] at hp
    exact hQ a s' hp

theorem triple_ite {c : Prop} [Decidable c] {q : Proc σ ε α} (ht : c → Triple P p Q E) (hf : ¬c → Triple P q Q E) :
    Triple P (if c then p else q) Q E := by
  split
  · exact ht (by assumption)
  · exact hf (by assumption)

theorem triple_onError {f : ε → σ → σ} (h : Triple P p Q F) (hf : ∀ e s, F e s → E e (f e s)) :
    Triple P (onError p f) Q E := by
  intro s hs
  have hp := h s hs
  unfold onError
  rcases hps : p s with ⟨e | a, s'⟩
  · rw [hps] at hp
    exact hf e s' hp
  · rw [hps] at hp
    exact hp

/-! ## Relations between the first and the last state -/

/-- Every run of `p` ends in a state related to the one it started in, failures included. -/
def Within (R : σ → σ → Prop) (p : Proc σ ε α) : Prop := ∀ s, R s (p s).2

section Within

variable {R : σ → σ → Prop} {q : Proc σ ε α}

theorem within_pure (hrefl : ∀ s, R s s) (a : α) : Within R (pure a : Proc σ ε α) := hrefl

theorem within_fail (hrefl : ∀ s, R s s) (e : ε) : Within R (fail e : Proc σ ε α) := hrefl

theorem within_read (hrefl : ∀ s, R s s) : Within R (read : Proc σ ε σ) := hrefl

theorem within_callSome {e : ε} {f : σ → Option α × σ} (h : ∀ s, R s (f s).2) : Within R (callSome e f) := by
  intro s
  have hs := h s
  unfold callSome
  rcases hf : f s with ⟨_ | a, s'⟩ <;> rw [hf] at hs <;> exact hs

theorem within_bind (htrans : ∀ s t u, R s t → R t u → R s u) {f : α → Proc σ ε β} (hp : Within R p)
    (hf : ∀ a, Within R (f a)) : Within R (p >>= f) := by
  intro s
  have h := hp s
  change R s (match p s with | (.ok a, s') => f a s' | (.error e, s') => (.error e, s')).2
  rcases hps : p s with ⟨e | a, s'⟩ <;> rw [hps] at h
  · exact h
  · exact htrans _ _ _ h (hf a s')

theorem within_ite {c : Prop} [Decidable c] (ht : Within R p) (hf : Within R q) : Within R (if c then p else q) := by
  split
  · exact ht
  · exact hf

theorem within_forM (hrefl : ∀ s, R s s) (htrans : ∀ s t u, R s t → R t u → R s u) {body : β → Proc σ ε PUnit}
    (xs : List β) (h : ∀ x, Within R (body x)) : Within R (xs.forM body) := by
  induction xs with
  | nil => exact hrefl
  | cons x xs ih => exact within_bind htrans (h x) fun _ => ih

theorem within_mapM (hrefl : ∀ s, R s s) (htrans : ∀ s t u, R s t → R t u → R s u) {body : β → Proc σ ε α} (xs : List β)
    (h : ∀ x, Within R (body x)) : Within R (xs.mapM' body) := by
  induction xs with
  | nil => exact within_pure hrefl []
  | cons x xs ih => exact within_bind htrans (h x) fun _ => within_bind htrans ih fun _ => within_pure hrefl _

theorem within_onError (htrans : ∀ s t u, R s t → R t u → R s u) {f : ε → σ → σ} (hp : Within R p)
    (hf : ∀ e s, R s (f e s)) : Within R (onError p f) := by
  intro s
  have h := hp s
  unfold onError
  rcases hps : p s with ⟨e | a, s'⟩ <;> rw [hps] at h
  · exact htrans _ _ _ h (hf e s')
  · exact h

theorem Within.triple (htrans : ∀ s t u, R s t → R t u → R s u) (h : Within R p) (s₀ : σ) :
    Triple (R s₀) p (fun _ => R s₀) (fun _ => R s₀) := by
  intro s hs
  have hp := htrans s₀ s _ hs (h s)
  rcases hps : p s with ⟨e | a, s'⟩ <;> rw [hps] at hp <;> exact hp

theorem within_of_triple (h : ∀ s₀, Triple (fun s => s = s₀) p (fun _ => R s₀) fun _ => R s₀) : Within R p := by
  intro s
  have hp := h s s rfl
  rcases hps : p s with ⟨e | a, s'⟩ <;> rw [hps] at hp <;> exact hp

end Within

/-! ## Procedures that only look -/

/-- From `s` the procedure returns `r` and leaves the state as it is. -/
def Looks (s : σ) (p : Proc σ ε α) (r : Except ε α) : Prop := p s = (r, s)

section Looks

variable {s : σ} {r : Except ε α}

theorem looks_bind {f : α → Proc σ ε β} {g : α → Except ε β} (hp : Looks s p r) (hf : ∀ a, Looks s (f a) (g a)) :
    Looks s (p >>= f) (r >>= g) := by
  change (match p s with | (.ok a, s') => f a s' | (.error e, s') => (.error e, s')) = _
  rw [hp]
  cases r with
  | error e => rfl
  | ok a => exact hf a

theorem looks_ite {c : Prop} [Decidable c] {q : Proc σ ε α} {r' : Except ε α} (ht : Looks s p r) (hf : Looks s q r') :
    Looks s (if c then p else q) (if c then r else r') := by
  split
  · exact ht
  · exact hf

theorem looks_mapM {body : β → Proc σ ε α} {f : β → Except ε α} (xs : List β) (h : ∀ x, Looks s (body x) (f x)) :
    Looks s (xs.mapM' body) (xs.mapM' f) := by
  induction xs with
  | nil => rfl
  | cons x xs ih => exact looks_bind (h x) fun a => looks_bind ih fun _ => rfl

end Looks

end Proc
