import SpiritFox.Ns.Path

/-!
# The grammar of paths

What the byte strings are that `path_utf8`, `path_ok` and `relative_path` accept. Texts are encodings of characters
(`Text`, `pathUtf8_iff`), canonical paths are lists of components (`pathOf`, `pathOk_iff`), and a relative path puts
its components after those of the directory (`relativePath_iff`). The main result `grammars_exact` adds `utf8` of
`services/package.c`, the same decoder with a length in place of the NUL.
-/

namespace SpiritFox.Ns

open Checks Package List

/-! ## Texts -/

/-- UTF-8 without control characters. -/
def Text (p : Path) : Prop := (∃ t : List Char, p = Cbor.utf8 t) ∧ ∀ b ∈ p, 32 ≤ b.toNat

section Text

variable {p r : Path}

theorem pathUtf8From_zero (c min : Nat) (p : Path) : pathUtf8From 0 c min p = pathUtf8 p := by
  cases p with
  | nil => rfl
  | cons b p => rfl

/-- A character that is begun ends as in `utf8`. -/
theorem pathUtf8From_succ : ∀ {k c min : Nat} {p : Path}, pathUtf8From (k + 1) c min p = true ↔
    ∃ w r, continuation (k + 1) c p = .ok (w, r) ∧ (min ≤ w ∧ w.isValidChar) ∧ pathUtf8 r = true
  | k, c, min, [] => by simp [pathUtf8From, continuation_eq_ok]
  | 0, c, min, b :: p => by
    have hcont : continuation 1 c (b :: p) = if b.toNat / 64 ≠ 2 then throw .refused else .ok
      (c * 64 + b.toNat % 64, p) := rfl
    simp only [pathUtf8From, pathUtf8From_zero, hcont, guard_eq_ok, true_and]
    by_cases hb : b.toNat / 64 = 2
    · rw [if_neg (not_not.2 hb)]
      split
      · rename_i hout
        refine iff_of_false Bool.false_ne_true ?_
        rintro ⟨w, r, ⟨-, hok⟩, hrange, -⟩
        cases hok
        exact (inRange_iff _ _).2 hrange hout
      · rename_i hin
        constructor
        · exact fun hp => ⟨_, p, ⟨not_not.2 hb, rfl⟩, (inRange_iff _ _).1 hin, hp⟩
        rintro ⟨w, r, ⟨-, hok⟩, -, hr⟩
        cases hok
        exact hr
    · simp [hb]
  | k + 1, c, min, b :: p => by
    have ih : pathUtf8From (k + 1) (c * 64 + b.toNat % 64) min p = true ↔ _ := pathUtf8From_succ
    rw [pathUtf8From]
    simp only [continuation_cons k.succ c b p, guard_eq_ok]
    by_cases hb : b.toNat / 64 = 2
    · simp [hb, ih]
    · simp [hb]

/-- One turn of the loop takes the character that `utf8` takes, and its first byte is no control character. -/
theorem pathUtf8_cons {b : UInt8} : pathUtf8 (b :: p) = true ↔ 32 ≤ b.toNat ∧ ∃ r, scalar (b :: p) = .ok r ∧
    pathUtf8 r = true := by
  simp only [scalar_eq_ok]
  rw [pathUtf8, pathUtf8From]
  by_cases h32 : b.toNat < 32
  · simp [h32]
  have h0 : b.toNat ≠ 0 := by omega
  by_cases h128 : b.toNat < 128
  · rw [if_neg h32, if_pos h128]
    constructor
    · intro hp
      exact ⟨by omega, p, ⟨h0, .inl ⟨h128, rfl⟩⟩, hp⟩
    rintro ⟨-, r, ⟨-, ⟨-, rfl⟩ | ⟨hge, -⟩⟩, hr⟩
    · exact hr
    · omega
  rw [if_neg h32, if_neg h128]
  cases hlead : lead b.toNat with
  | none => simp [h128]
  | some x =>
    obtain ⟨k, c, min⟩ := x
    obtain ⟨k, rfl⟩ : ∃ k', k = k' + 1 := by
      obtain ⟨-, hx⟩ | ⟨-, hx⟩ | ⟨-, hx⟩ := lead_inv hlead <;> cases hx <;> exact ⟨_, rfl⟩
    dsimp only
    rw [pathUtf8From_succ]
    constructor
    · rintro ⟨w, r, hcont, hrange, hr⟩
      exact ⟨by omega, r, ⟨h0, .inr ⟨by omega, k + 1, c, min, w, rfl, hcont, hrange⟩⟩, hr⟩
    rintro ⟨-, r, ⟨-, ⟨hlt, -⟩ | ⟨-, k', c', min', w, hx, hcont, hrange⟩⟩, hr⟩
    · omega
    · cases hx
      exact ⟨w, r, hcont, hrange, hr⟩

/-- A character is one byte, or has no byte in the range of ASCII. -/
theorem utf8EncodeChar_bytes (ch : Char) :
    (∃ b, String.utf8EncodeChar ch = [b]) ∨ ∀ b ∈ String.utf8EncodeChar ch, 128 ≤ b.toNat := by
  unfold String.utf8EncodeChar
  dsimp only
  split
  · exact .inl ⟨_, rfl⟩
  refine .inr ?_
  split
  · simp [UInt8.toNat_ofNat']
    omega
  split
  · simp [UInt8.toNat_ofNat']
    omega
  · simp [UInt8.toNat_ofNat']
    omega

/-- A character without control bytes is passed over. -/
theorem pathUtf8_encode {ch : Char} (h : ∀ b ∈ String.utf8EncodeChar ch, 32 ≤ b.toNat) :
    pathUtf8 (String.utf8EncodeChar ch ++ r) = true ↔ pathUtf8 r = true := by
  have hnul : ch ≠ Char.ofNat 0 := by
    rintro rfl
    exact absurd (h 0 (by decide)) (by decide)
  have hscalar := scalar_utf8EncodeChar hnul r
  obtain ⟨b, bs, hb⟩ := utf8EncodeChar_cons ch
  have h32 := h b (by rw [hb]; exact mem_cons_self)
  rw [hb, cons_append] at hscalar ⊢
  rw [pathUtf8_cons]
  constructor
  · rintro ⟨-, r', hr', hp⟩
    rw [hscalar] at hr'
    cases hr'
    exact hp
  · exact fun hp => ⟨h32, r, hscalar, hp⟩

theorem utf8_cons (ch : Char) (t : List Char) : Cbor.utf8 (ch :: t) = String.utf8EncodeChar ch ++ Cbor.utf8 t :=
  flatMap_cons

/-- A text in front makes no difference. -/
theorem Text.pathUtf8_append (h : Text p) : pathUtf8 (p ++ r) = true ↔ pathUtf8 r = true := by
  obtain ⟨⟨t, rfl⟩, hbytes⟩ := h
  induction t with
  | nil => rfl
  | cons ch t ih =>
    rw [utf8_cons] at hbytes ⊢
    rw [append_assoc, pathUtf8_encode fun b hb => hbytes b (mem_append_left _ hb)]
    exact ih fun b hb => hbytes b (mem_append_right _ hb)

theorem text_of_pathUtf8 (n : Nat) : ∀ {p : Path}, p.length ≤ n → pathUtf8 p = true → Text p := by
  induction n with
  | zero =>
    intro p hlen _
    obtain rfl := length_eq_zero_iff.1 (Nat.le_zero.1 hlen)
    exact ⟨⟨[], rfl⟩, nofun⟩
  | succ n ih =>
    rintro (_ | ⟨b, p⟩) hlen hp
    · exact ⟨⟨[], rfl⟩, nofun⟩
    obtain ⟨h32, r, hscalar, hr⟩ := pathUtf8_cons.1 hp
    obtain ⟨ch, -, heq⟩ := scalar_inv hscalar
    obtain ⟨c, cs, hch⟩ := utf8EncodeChar_cons ch
    have hlength := congrArg length heq
    rw [hch, length_append, length_cons, length_cons] at hlength
    obtain ⟨⟨t, rfl⟩, hbytes⟩ := ih (by rw [length_cons] at hlen; omega) hr
    rw [heq]
    refine ⟨⟨ch :: t, (utf8_cons ch t).symm⟩, fun x hx => ?_⟩
    rcases mem_append.1 hx with hx | hx
    · rcases utf8EncodeChar_bytes ch with ⟨c', hc'⟩ | hhigh
      · rw [hc', singleton_append] at heq
        rw [hc', mem_singleton] at hx
        rw [hx, ← (cons.inj heq).1]
        exact h32
      · have := hhigh x hx
        omega
    · exact hbytes x hx

/-- **`path_utf8` accepts exactly the texts.** -/
theorem pathUtf8_iff : pathUtf8 p = true ↔ Text p := by
  refine ⟨text_of_pathUtf8 p.length (Nat.le_refl _), fun h => ?_⟩
  have hempty := h.pathUtf8_append (r := [])
  rw [append_nil] at hempty
  exact hempty.2 rfl

theorem Text.append (hp : Text p) (hr : Text r) : Text (p ++ r) :=
  pathUtf8_iff.1 (hp.pathUtf8_append.2 (pathUtf8_iff.2 hr))

theorem Text.of_append (h : Text (p ++ r)) (hp : Text p) : Text r :=
  pathUtf8_iff.1 (hp.pathUtf8_append.1 (pathUtf8_iff.2 h))

theorem text_slash : Text [slash] := pathUtf8_iff.1 (by decide)

end Text

/-! ## Components -/

/-- A name in a path. -/
def Component (c : Path) : Prop := c ≠ [] ∧ c ≠ [dot] ∧ c ≠ [dot, dot] ∧ slash ∉ c

/-- The path with these components. -/
def pathOf (cs : List Path) : Path := slash :: [slash].intercalate cs

def components (p : Path) : List Path := if p = rootPath then [] else (p.drop 1).splitOn slash

section Components

variable {b p q r base : Path} {cs : List Path}

theorem splitOn_of_notMem (hq : slash ∉ q) : q.splitOn slash = [q] := by
  have hsplit : ([slash].intercalate [q]).splitOn slash = [q] :=
    splitOn_intercalate slash (by simpa using hq) (cons_ne_nil q [])
  rwa [intercalate_singleton] at hsplit

theorem components_cons (hq : q ≠ []) : components (slash :: q) = q.splitOn slash :=
  if_neg fun h => hq (cons.inj h).2

theorem pathOf_components (hp : p.head? = some slash) : pathOf (components p) = p := by
  obtain ⟨q, rfl⟩ := head?_eq_some_iff.1 hp
  by_cases hq : q = []
  · rw [hq]
    rfl
  · rw [components_cons hq, pathOf, intercalate_splitOn]

section

variable (hne : cs ≠ []) (h : ∀ c ∈ cs, Component c)

include hne h

theorem splitOn_components : ([slash].intercalate cs).splitOn slash = cs :=
  splitOn_intercalate slash (fun c hc => (h c hc).2.2.2) hne

/-- Neither a list of components nor its first name is empty. -/
theorem intercalate_ne_nil : [slash].intercalate cs ≠ [] := by
  intro hnil
  have hsplit := splitOn_components hne h
  rw [hnil, splitOn_nil] at hsplit
  exact (h [] (by rw [← hsplit]; exact mem_singleton_self [])).1 rfl

theorem head_intercalate : ([slash].intercalate cs).head? ≠ some slash := by
  intro hhead
  obtain ⟨q, hq⟩ := head?_eq_some_iff.1 hhead
  have hsplit := splitOn_components hne h
  rw [hq, ← nil_append (slash :: q), splitOn_append_cons_self] at hsplit
  exact (h [] (by rw [← hsplit]; exact mem_append_left _ (mem_singleton_self []))).1 rfl

/-- A list of components does not end with a slash. -/
theorem getLast_intercalate :
    ([slash].intercalate cs).getLast? ≠ some slash := by
  intro hlast
  obtain ⟨q, hq⟩ := getLast?_eq_some_iff.1 hlast
  have hsplit := splitOn_components hne h
  rw [hq, splitOn_append_cons_self] at hsplit
  exact (h [] (by rw [← hsplit]; exact mem_append_right _ (mem_singleton_self []))).1 rfl

end

theorem components_pathOf (h : ∀ c ∈ cs, Component c) : components (pathOf cs) = cs := by
  by_cases hne : cs = []
  · rw [hne]
    rfl
  · rw [pathOf, components_cons (intercalate_ne_nil hne h), splitOn_components hne h]

/-- The loop runs over bytes that are no slash. -/
theorem componentsOk_append (hb : slash ∉ b) : componentsOk (b ++ q) = componentsOk q := by
  induction b with
  | nil => rfl
  | cons x b ih =>
    rw [mem_cons, not_or] at hb
    rw [cons_append, componentsOk, ih hb.2]
    simp [Ne.symm hb.1]

/-- The component that starts here ends at the next slash or at the end. -/
theorem componentOk_iff (hb : slash ∉ b) (hend : q = [] ∧ b ≠ [] ∨ q.head? = some slash) :
    componentOk (b ++ q) = true ↔ b ≠ [] ∧ b ≠ [dot] ∧ b ≠ [dot, dot] := by
  have hall : ∀ x ∈ b, (x != slash) = true := by
    intro x hx
    rw [bne_iff_ne]
    rintro rfl
    exact hb hx
  have htake : (b ++ q).takeWhile (· != slash) = b := by
    rw [takeWhile_append_of_pos hall]
    rcases hend with ⟨rfl, -⟩ | hhead
    · simp
    · obtain ⟨s, rfl⟩ := head?_eq_some_iff.1 hhead
      simp
  unfold componentOk
  rw [htake]
  rcases hend with ⟨rfl, hne⟩ | hhead
  · simp [hne]
  · obtain ⟨s, rfl⟩ := head?_eq_some_iff.1 hhead
    simp [and_assoc]

/-- The loop of `path_ok` sees the components of a path that does not end with a slash. -/
theorem componentsOk_iff (hq : q ≠ []) (hlast : q.getLast? ≠ some slash) :
    componentsOk (slash :: q) = true ↔ ∀ c ∈ q.splitOn slash, Component c := by
  have hstep : componentsOk (slash :: q) = true ↔ componentOk q = true ∧ componentsOk q = true := by simp [componentsOk]
  -- by the number of bytes: what follows the first component is shorter and has the same end
  induction hn : q.length using Nat.strong_induction_on generalizing q with
  | _ n ih =>
    rw [hstep]
    by_cases hs : slash ∈ q
    · obtain ⟨b, s, rfl, hb⟩ := eq_append_cons_of_mem hs
      have hsne : s ≠ [] := by
        rintro rfl
        exact hlast getLast?_concat
      have hslast : s.getLast? ≠ some slash := by
        rwa [getLast?_append_cons, getLast?_cons_of_ne_nil hsne] at hlast
      have hs : componentsOk (slash :: s) = true ↔ ∀ c ∈ s.splitOn slash, Component c :=
        ih s.length (by simp at hn; omega) hsne hslast (by simp [componentsOk]) rfl
      rw [componentOk_iff hb (.inr rfl), componentsOk_append hb, hs, splitOn_append_cons_self_of_not_mem hb,
        forall_mem_cons]
      simp [Component, hb]
    · have hsingle := splitOn_of_notMem hs
      have hone := componentOk_iff (b := q) (q := []) hs (.inl ⟨rfl, hq⟩)
      have hrest := componentsOk_append (b := q) (q := []) hs
      rw [append_nil] at hone hrest
      rw [hone, hrest, hsingle, forall_mem_singleton]
      simp [Component, hs, componentsOk]

/-- **`path_ok` accepts exactly the canonical paths.** -/
theorem pathOk_iff : pathOk p = true ↔ p.length ≤ 95 ∧ Text p ∧ ∃ cs, (∀ c ∈ cs, Component c) ∧ p = pathOf cs := by
  simp only [pathOk, Bool.and_eq_true, Bool.not_eq_true', Bool.and_eq_false_iff, decide_eq_true_eq, decide_eq_false_iff_not,
    pathUtf8_iff]
  constructor
  · rintro ⟨⟨⟨⟨hhead, hlen⟩, hend⟩, htext⟩, hok⟩
    refine ⟨hlen, htext, components p, ?_, (pathOf_components hhead).symm⟩
    obtain ⟨q, rfl⟩ := head?_eq_some_iff.1 hhead
    by_cases hq : q = []
    · rw [hq]
      rintro c ⟨⟩
    rw [components_cons hq]
    refine (componentsOk_iff hq ?_).1 hok
    rcases hend with hshort | hlast
    · simp only [length_cons] at hshort
      have := length_pos_iff.2 hq
      omega
    · rwa [getLast?_cons_of_ne_nil hq] at hlast
  · rintro ⟨hlen, htext, cs, hcs, rfl⟩
    by_cases hne : cs = []
    · subst hne
      exact ⟨⟨⟨⟨rfl, hlen⟩, .inl (by decide)⟩, htext⟩, by decide⟩
    have hq := intercalate_ne_nil hne hcs
    have hlast := getLast_intercalate hne hcs
    refine ⟨⟨⟨⟨rfl, hlen⟩, .inr ?_⟩, htext⟩, (componentsOk_iff hq hlast).2 ?_⟩
    · rwa [pathOf, getLast?_cons_of_ne_nil hq]
    · rwa [splitOn_components hne hcs]

theorem Component.of_mem_components (hp : pathOk p = true) {c : Path} (hc : c ∈ components p) : Component c := by
  obtain ⟨-, -, cs, hcs, rfl⟩ := pathOk_iff.1 hp
  rw [components_pathOf hcs] at hc
  exact hcs c hc

/-! ## Relative paths -/

theorem components_join (hbase : pathOk base = true) (hr : r ≠ []) :
    components (join base r) = components base ++ r.splitOn slash := by
  obtain ⟨q, rfl⟩ := head?_eq_some_iff.1 (pathOk_head hbase)
  unfold join
  by_cases hq : q = []
  · subst hq
    exact components_cons hr
  · have hlen : (slash :: q).length ≠ 1 := by simpa using hq
    rw [if_neg hlen, components_cons hq, cons_append, components_cons (by simp), splitOn_append_cons_self]

theorem head_join (hbase : base.head? = some slash) : (join base r).head? = some slash := by
  obtain ⟨q, rfl⟩ := head?_eq_some_iff.1 hbase
  unfold join
  split <;> rfl

theorem text_join (hbase : Text base) : Text (join base r) ↔ Text r := by
  unfold join
  split
  · exact ⟨fun h => h.of_append hbase, hbase.append⟩
  · exact ⟨fun h => (h.of_append hbase).of_append text_slash, fun h => hbase.append (text_slash.append h)⟩

/-- **`relative_path` accepts exactly the lists of components that fit**, and puts them after those of the directory. -/
theorem relativePath_iff (hbase : pathOk base = true) : relativePath base r = .ok p ↔
    ∃ cs, cs ≠ [] ∧ (∀ c ∈ cs, Component c) ∧ r = [slash].intercalate cs ∧ Text r ∧ p = pathOf (components base ++ cs) ∧
      p.length ≤ 95 := by
  have htext := (pathOk_iff.1 hbase).2.1
  have hjoin : (join base r).head? = some slash := head_join (pathOk_head hbase)
  constructor
  · intro h
    obtain ⟨rfl, hr, -, hok⟩ := relativePath_ok h
    have hsplit := components_join hbase hr
    refine ⟨r.splitOn slash, splitOn_ne_nil slash r, fun c hc => ?_, (intercalate_splitOn slash).symm, ?_, ?_, ?_⟩
    · refine .of_mem_components hok ?_
      rw [hsplit]
      exact mem_append_right _ hc
    · exact (text_join htext).1 (pathOk_iff.1 hok).2.1
    · rw [← hsplit, pathOf_components hjoin]
    · exact (pathOk_iff.1 hok).1
  · rintro ⟨cs, hne, hcs, rfl, hr, rfl, hlen⟩
    have hpath : join base ([slash].intercalate cs) = pathOf (components base ++ cs) := by
      rw [← pathOf_components hjoin, components_join hbase (intercalate_ne_nil hne hcs), splitOn_components hne hcs]
    have hall : ∀ c ∈ components base ++ cs, Component c := by
      intro c hc
      rcases mem_append.1 hc with hc | hc
      · exact .of_mem_components hbase hc
      · exact hcs c hc
    have hok : pathOk (pathOf (components base ++ cs)) = true := by
      refine pathOk_iff.2 ⟨hlen, ?_, _, hall, rfl⟩
      rw [← hpath]
      exact (text_join htext).2 hr
    have hshort : ([slash].intercalate cs).length ≤ (join base ([slash].intercalate cs)).length := by
      unfold join
      split <;> simp only [length_append, length_cons] <;> omega
    rw [hpath] at hshort
    unfold relativePath
    rw [hpath, if_neg, if_neg (by omega), if_pos hok]
    · rfl
    rintro (hnil | hhead)
    · exact intercalate_ne_nil hne hcs hnil
    · exact head_intercalate hne hcs hhead

end Components

/-- **The grammars are exact.** `utf8` accepts the encodings of characters other than NUL, `path_utf8` the texts,
`path_ok` the texts of at most 95 bytes that are lists of components behind slashes. From a directory,
`relative_path` accepts the texts that are lists of one component or more, if the result is no longer than that, and
leads to the path that has these components after those of the directory. -/
theorem grammars_exact :
    (∀ p, Package.utf8 p = .ok () ↔ ∃ t : List Char, (∀ c ∈ t, c ≠ Char.ofNat 0) ∧ p = t.flatMap String.utf8EncodeChar) ∧
    (∀ p, pathUtf8 p = true ↔ (∃ t : List Char, p = t.flatMap String.utf8EncodeChar) ∧ ∀ b ∈ p, 0x20 ≤ b.toNat) ∧
    (∀ p, pathOk p = true ↔ p.length ≤ 95 ∧ Text p ∧ ∃ cs, (∀ c ∈ cs, Component c) ∧ p = pathOf cs) ∧
    (∀ cs, (∀ c ∈ cs, Component c) → components (pathOf cs) = cs) ∧
    (∀ base r p, relativePath base r = .ok p → pathOk p = true) ∧
    ∀ base r p, pathOk base = true → (relativePath base r = .ok p ↔ ∃ cs, cs ≠ [] ∧ (∀ c ∈ cs, Component c) ∧
      r = [slash].intercalate cs ∧ Text r ∧ p = pathOf (components base ++ cs) ∧ p.length ≤ 95) := by
  refine ⟨fun p => ⟨utf8_inv, ?_⟩, fun p => pathUtf8_iff, fun p => pathOk_iff, fun cs => components_pathOf,
    fun base r p hok => (relativePath_ok hok).2.2.2, fun base r p => relativePath_iff⟩
  rintro ⟨t, hnul, rfl⟩
  exact utf8_utf8 hnul

/-- From `/a`, the relative path `b` leads to `/a/b`. -/
theorem grammars_exact_sample : relativePath [47, 97] [98] = .ok [47, 97, 47, 98] :=
  (grammars_exact.2.2.2.2.2 [47, 97] [98] [47, 97, 47, 98] (by decide)).2
    ⟨[[98]], List.cons_ne_nil _ _, by simp [Component, dot, slash], rfl, pathUtf8_iff.1 (by decide), by decide, by decide⟩

end SpiritFox.Ns
