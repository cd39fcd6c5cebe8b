/-!
# Sequences of checks

A function that returns at its first failing check is a program in `Except`. These lemmas turn "it returned `b`" into what
every check established, one conjunct for each; `Raises` says which errors there are.
-/

namespace Checks

variable {ε α β : Type} {e : ε} {a : α} {b : β}

theorem bind_eq_ok {x : Except ε α} {f : α → Except ε β} : (x >>= f) = .ok b ↔ ∃ a, x = .ok a ∧ f a = .ok b := by
  cases x with
  | error e => simp [bind, Except.bind]
  | ok a => simp [bind, Except.bind]

theorem throw_eq_ok : (throw e : Except ε β) = .ok b ↔ False := ⟨nofun, False.elim⟩

theorem pure_eq_ok {c : β} : (pure c : Except ε β) = .ok b ↔ c = b :=
  ⟨fun h => Except.ok.inj h, fun h => congrArg Except.ok h⟩

/-- A guard that returns an error where `p` holds. -/
theorem guard_eq_ok {p : Prop} [Decidable p] {x : Except ε β} : (if p then throw e else x) = .ok b ↔ ¬ p ∧ x = .ok b := by
  by_cases hp : p <;> simp [hp, throw_eq_ok]

/-- A loop of checks keeps what each round keeps. -/
theorem foldlM_ok {I : β → Prop} {f : β → α → Except ε β} (hf : ∀ b a b', I b → f b a = .ok b' → I b') :
    ∀ {l : List α} {b b' : β}, I b → l.foldlM f b = .ok b' → I b'
  | [], _, _, hb, h => pure_eq_ok.1 h ▸ hb
  | a :: l, b, b', hb, h => by
    rw [List.foldlM_cons] at h
    obtain ⟨c, hc, hrest⟩ := bind_eq_ok.1 h
    exact foldlM_ok hf (hf b a c hb hc) hrest

/-! ## Errors -/

/-- Only errors in `E`. -/
def Raises (E : ε → Prop) (x : Except ε α) : Prop := ∀ e, x = .error e → E e

variable {E : ε → Prop} {x y : Except ε α}

theorem raises_ok (a : α) : Raises E (.ok a : Except ε α) := nofun

theorem raises_throw (he : E e) : Raises E (throw e : Except ε α) := by
  intro e' h
  cases h
  exact he

theorem raises_bind {f : α → Except ε β} (hx : Raises E x) (hf : ∀ a, x = .ok a → Raises E (f a)) : Raises E (x >>= f) := by
  cases x with
  | error e => exact raises_throw (hx e rfl)
  | ok a => exact hf a rfl

theorem raises_ite {p : Prop} [Decidable p] (hx : p → Raises E x) (hy : ¬p → Raises E y) :
    Raises E (if p then x else y) := by
  split
  · exact hx (by assumption)
  · exact hy (by assumption)

theorem raises_guard {p : Prop} [Decidable p] (he : E e) (hx : ¬p → Raises E x) : Raises E (if p then throw e else x) :=
  raises_ite (fun _ => raises_throw he) hx

theorem raises_foldlM {f : β → α → Except ε β} (hf : ∀ b a, Raises E (f b a)) : ∀ {l : List α}
    {b : β}, Raises E (l.foldlM f b)
  | [], _ => raises_ok _
  | a :: l, b => by
    rw [List.foldlM_cons]
    exact raises_bind (hf b a) fun _ _ => raises_foldlM hf

theorem raises_forM {f : β → Except ε PUnit} (hf : ∀ b, Raises E (f b)) : ∀ {l : List β}, Raises E (l.forM f)
  | [] => raises_ok _
  | b :: l => raises_bind (hf b) fun _ _ => raises_forM hf (l := l)

end Checks
