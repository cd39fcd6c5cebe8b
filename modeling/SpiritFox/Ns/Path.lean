import SpiritFox.Abi
import SpiritFox.Lib.Checks
import SpiritFox.Package.Manifest
import Mathlib.Logic.Relation

/-!
# Paths

The paths of `services/namespace.c`. A path is the bytes of a C string before its NUL. There are no links and
`path_ok` refuses `.` and `..`, so the tree of names is the tree of paths: `parentOf` is the path that
`sf_ns_create` looks up, and `Beneath` is what it gives when it is repeated. `beneath_join`: a relative path leads
to a place strictly beneath the directory.
-/

namespace SpiritFox.Ns

open Checks

abbrev Path := List UInt8

def slash : UInt8 := 47

def dot : UInt8 := 46

/-- `"/"` -/
def rootPath : Path := [slash]

/-- A code as a failure. -/
abbrev stop {α : Type} (e : SfError) : Except Int α := throw e.code

/-- `path_utf8` from inside a character: `k` continuation bytes are to come, `c` is the character so far. -/
def pathUtf8From : Nat → Nat → Nat → Path → Bool
  | 0, _, _, [] => true
  -- the NUL is not a continuation byte
  | _ + 1, _, _, [] => false
  | 0, _, _, b :: p =>
    if b.toNat < 32 then false
    else if b.toNat < 128 then pathUtf8From 0 0 0 p
    else match Package.lead b.toNat with
      | none => false
      | some (k, c, min) => pathUtf8From k c min p
  | k + 1, c, min, b :: p =>
    let c' := c * 64 + b.toNat % 64
    if b.toNat / 64 ≠ 2 then false
    else if k = 0 ∧ (c' < min ∨ 0x10ffff < c' ∨ (0xd800 ≤ c' ∧ c' ≤ 0xdfff)) then false
    else pathUtf8From k c' min p

def pathUtf8 (p : Path) : Bool := pathUtf8From 0 0 0 p

/-- The component at the start of `s`: it is empty only at the end of the path, and neither `.` nor `..`. -/
def componentOk (s : Path) : Bool :=
  let c := s.takeWhile (· != slash)
  !(c = [] && s ≠ [] || c = [dot] || c = [dot, dot])

/-- The loop of `path_ok`, which looks at the component after each slash. -/
def componentsOk : Path → Bool
  | [] => true
  | b :: s => (b ≠ slash || componentOk s) && componentsOk s

def pathOk (p : Path) : Bool :=
  p.head? = some slash && p.length ≤ 95 && !(1 < p.length && p.getLast? = some slash) && pathUtf8 p && componentsOk p

/-- The length up to the last slash: `while (cut > 1 && p[cut - 1] != '/') cut--` -/
def cut (p : Path) : Nat := max 1 (p.reverse.dropWhile (· != slash)).length

/-- The path of the parent that `sf_ns_create` looks up. -/
def parentOf (p : Path) : Path := p.take (if cut p = 1 then 1 else cut p - 1)

/-- A base and a relative path, with a separator unless the base is the root. -/
def join (base relative : Path) : Path := if base.length = 1 then base ++ relative else base ++ slash :: relative

def relativePath (base relative : Path) : Except Int Path :=
  if relative = [] ∨ relative.head? = some slash then stop .invalid
  else if 95 < relative.length ∨ 95 < (join base relative).length then stop .invalid
  else if pathOk (join base relative) then pure (join base relative)
  else stop .invalid

/-- The test of `sf_ns_open`: the path is `base` or goes on after it with a slash. -/
def covers (base p : Path) : Bool := base.isPrefixOf p && (p.length = base.length || p[base.length]? = some slash)

/-! ## The tree of paths -/

/-- `p` is the directory that holds `q`. -/
def IsParent (p q : Path) : Prop := q ≠ rootPath ∧ parentOf q = p

/-- `q` is strictly beneath `p`. -/
def Beneath (p q : Path) : Prop := Relation.TransGen IsParent p q

variable {p q c : Path}

theorem pathOk_head (h : pathOk p = true) : p.head? = some slash := by
  simp only [pathOk, Bool.and_eq_true, decide_eq_true_eq] at h
  exact h.1.1.1.1

theorem slash_mem_of_pathOk (h : pathOk p = true) : slash ∈ p := List.mem_of_mem_head? (pathOk_head h)

theorem cut_append (hc : slash ∉ c) : cut (p ++ slash :: c) = p.length + 1 := by
  have hall : ∀ b ∈ c.reverse, (b != slash) = true := by
    intro b hb
    simp only [bne_iff_ne, ne_eq]
    rintro rfl
    exact hc (List.mem_reverse.1 hb)
  simp only [cut, List.reverse_append, List.reverse_cons, List.append_assoc, List.singleton_append]
  rw [List.dropWhile_append_of_pos hall]
  simp

theorem parentOf_append (hc : slash ∉ c) : parentOf (p ++ slash :: c) = if p = [] then rootPath else p := by
  unfold parentOf
  rw [cut_append hc]
  by_cases hp : p = []
  · simp [hp, rootPath]
  · have hlen : p.length ≠ 0 := fun h => hp (List.eq_nil_of_length_eq_zero h)
    simp [hp]

/-- The last component, after the last slash. -/
theorem exists_component (h : slash ∈ p) : ∃ q c, p = q ++ slash :: c ∧ slash ∉ c := by
  obtain ⟨a, b, hab, hb⟩ := List.eq_append_cons_of_mem (List.mem_reverse.2 h)
  refine ⟨b.reverse, a.reverse, ?_, by simpa using hb⟩
  simpa using congrArg List.reverse hab

/-- A path goes on after its parent with a slash. -/
theorem eq_append_of_parentOf (hq : slash ∈ q) (h : parentOf q = p) (hp : p ≠ rootPath) : ∃ c, q = p ++ slash :: c := by
  obtain ⟨a, c, rfl, hc⟩ := exists_component hq
  rw [parentOf_append hc] at h
  by_cases ha : a = []
  · rw [if_pos ha] at h
    exact absurd h.symm hp
  · rw [if_neg ha] at h
    exact ⟨c, by rw [h]⟩

theorem join_ne_rootPath {base relative : Path} (hb : base ≠ []) (hr : relative ≠ []) : join base relative ≠ rootPath := by
  intro h
  have hlen := congrArg List.length h
  have hb' := List.length_pos_iff.2 hb
  have hr' := List.length_pos_iff.2 hr
  unfold join at hlen
  split at hlen <;> simp [rootPath] at hlen <;> omega

theorem parentOf_join (hp : p.head? = some slash) (hc : slash ∉ c) : parentOf (join p c) = p := by
  by_cases hlen : p.length = 1
  · obtain ⟨b, rfl⟩ := List.length_eq_one_iff.1 hlen
    obtain rfl : b = slash := by simpa using hp
    exact parentOf_append (p := []) hc
  · have hne : p ≠ [] := by
      rintro rfl
      cases hp
    rw [join, if_neg hlen, parentOf_append hc, if_neg hne]

/-- **A relative path that does not start with a slash stays strictly beneath its base.** -/
theorem beneath_join {base relative : Path} (hb : base.head? = some slash) (hr : relative ≠ [])
    (hhead : relative.head? ≠ some slash) : Beneath base (join base relative) := by
  have hne : base ≠ [] := by
    rintro rfl
    cases hb
  -- by the number of bytes: without its last component the relative path is shorter and has the same head
  induction hn : relative.length using Nat.strong_induction_on generalizing relative with
  | _ n ih =>
    by_cases hs : slash ∈ relative
    · obtain ⟨a, c, rfl, hc⟩ := exists_component hs
      have ha : a ≠ [] := by
        rintro rfl
        exact hhead rfl
      have hjoin : join base (a ++ slash :: c) = join base a ++ slash :: c := by
        unfold join
        split <;> simp
      have hup : Beneath base (join base a) := by
        refine ih a.length (by simp at hn; omega) ha ?_ rfl
        rwa [List.head?_append_of_ne_nil _ ha] at hhead
      have hnil : join base a ≠ [] := by
        unfold join
        split <;> simp [hne]
      refine hup.tail ⟨join_ne_rootPath hne hr, ?_⟩
      rw [hjoin, parentOf_append hc, if_neg hnil]
    · exact .single ⟨join_ne_rootPath hne hr, parentOf_join hb hs⟩

/-- What a relative path that is accepted leads to. -/
theorem relativePath_ok {base relative path : Path} (h : relativePath base relative = .ok path) :
    path = join base relative ∧ relative ≠ [] ∧ relative.head? ≠ some slash ∧ pathOk path = true := by
  unfold relativePath at h
  rw [guard_eq_ok, guard_eq_ok] at h
  obtain ⟨hrel, -, h⟩ := h
  split at h
  · rename_i hok
    cases h
    exact ⟨rfl, fun h => hrel (.inl h), fun h => hrel (.inr h), hok⟩
  · cases h

end SpiritFox.Ns
