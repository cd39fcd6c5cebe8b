import SpiritFox.Lib.Bits
import SpiritFox.Kernel.Dispatch

/-!
# Address spaces

What the page tables of a task are for: a partial map from user pages to targets, each with the access it allows. A
`Space` is that map together with the pages that hold the tables, every page with its one role, and `Represents m s`
says that the bytes of `m` are the tables of `s`. Then the processor's walk is a look into the map (`walk_eq`), and
so is what the kernel's copies look up (`userPage_iff`, `userPhys_eq`).
-/

namespace SpiritFox.Core

open ByteMem

/-! ## Targets -/

/-- What a user page can be mapped to. -/
inductive Target (L : Layout) where
  | page (i : PageId)
  | bundle (n : Fin ((L.bundleBytes + 4095) / 4096))
  | arena (n : Fin 16)
  | registers (physical : Nat) (aligned : physical % 4096 = 0) (low : 0xc0000000 ≤ physical) (high : physical < 2 ^ 48)

/-- What a mapping allows; there is no way to allow writing and execution. -/
inductive Access where
  | read | write | execute
  deriving DecidableEq

/-- The flags of a last-level entry. -/
def Access.bits (a : Access) (device : Bool) : Nat :=
  5 ||| (if a = .write then 2 else 0) ||| (if a = .execute then 0 else nx) ||| if device then 0x18 ||| pteMmio else 0

section Space

variable {L : Layout}

def Target.address : Target L → Nat
  | .page i => poolPage L i
  | .bundle n => L.bundle + 4096 * n
  | .arena n => L.dma + 4096 * n
  | .registers physical _ _ _ => physical

structure Mapping (L : Layout) where
  target : Target L
  access : Access
  /-- The entry is marked as one of a device, which copies pass by. -/
  device : Bool
  bundle_read : ∀ n, target = .bundle n → access = .read

def Mapping.bits (m : Mapping L) : Nat := m.access.bits m.device

def Mapping.entry (m : Mapping L) : Nat := m.target.address ||| m.bits

/-- What the processor makes of the mapping. -/
def Mapping.leaf (m : Mapping L) : Leaf := ⟨m.target.address, m.access = .write, m.access = .execute⟩

/-! ## Spaces -/

/-- What a page of the task is used for; a last-level table by its place in the table above. -/
inductive Role where
  | top | third | second | first (b : Fin 512) | data
  deriving DecidableEq

structure Space (L : Layout) where
  role : PageId → Option Role
  top : PageId
  third : PageId
  second : Option PageId
  first : Fin 512 → Option PageId
  leaf : Fin 512 → Fin 512 → Option (Mapping L)
  /-- The kernel's window to device registers is linked. -/
  mmio : Bool
  role_top : role top = some .top
  role_third : role third = some .third
  role_second : ∀ i, second = some i → role i = some .second
  role_first : ∀ b i, first b = some i → role i = some (.first b)
  role_page : ∀ b c m i, leaf b c = some m → m.target = .page i → role i = some .data
  first_none : second = none → ∀ b, first b = none
  leaf_none : ∀ b, first b = none → ∀ c, leaf b c = none

def secondIndex (v : Nat) : Fin 512 := ⟨v / 2 ^ 21 % 512, Nat.mod_lt _ (by decide)⟩

def firstIndex (v : Nat) : Fin 512 := ⟨v / 2 ^ 12 % 512, Nat.mod_lt _ (by decide)⟩

/-- The entry that points to a table. -/
def link : Option PageId → Nat
  | none => 0
  | some i => poolPage L i ||| 7

namespace Space

variable (s : Space L)

def table : Role → Option PageId
  | .top => some s.top
  | .third => some s.third
  | .second => s.second
  | .first b => s.first b
  | .data => none

/-- Entry `n` of the table with this role. -/
def expect : Role → Fin 512 → Nat
  | .top, n => if n = 0 then link (L := L) (some s.third) else 0
  | .third, n =>
    if n = 0 then L.kernelPd ||| 3
    else if n = 1 then link (L := L) s.second
    else if n = 3 ∧ s.mmio then L.mmioPd ||| 3 else 0
  | .second, n => link (L := L) (s.first n)
  | .first b, n => ((s.leaf b n).map Mapping.entry).getD 0
  | .data, _ => 0

/-- The mapping of the page with address `v`. -/
def mapped (v : Nat) : Option (Mapping L) :=
  if 0x40000000 ≤ v ∧ v < 0x80000000 then s.leaf (secondIndex v) (firstIndex v) else none

/-- A copy to these bytes is allowed: memory that the task may write. -/
def Covers (v n : Nat) (write : Bool) : Prop :=
  ∀ a, v ≤ a → a < v + n → ∃ m, s.mapped a = some m ∧ m.device = false ∧ (write → m.access = .write)

variable {s}

theorem Covers.add {v n c : Nat} {write : Bool} (h : s.Covers v n write) (hc : c ≤ n) : s.Covers (v + c) (n - c) write :=
  fun a hva hav => h a (by omega) (by omega)

theorem role_table {r : Role} {i : PageId} (h : s.table r = some i) : s.role i = some r := by
  cases r with
  | top =>
    cases h
    exact s.role_top
  | third =>
    cases h
    exact s.role_third
  | second => exact s.role_second i h
  | first b => exact s.role_first b i h
  | data => cases h

theorem role_mapped {v : Nat} {x : Mapping L} {i : PageId} (h : s.mapped v = some x) (ht : x.target = .page i) :
    s.role i = some .data := by
  unfold mapped at h
  split at h
  · exact s.role_page _ _ x i h ht
  · cases h

end Space

/-- The bytes of `m` are the tables of `s`. -/
def Represents (m : Mem) (s : Space L) : Prop :=
  ∀ r i, s.table r = some i → ∀ n : Fin 512, entry m (poolPage L i) n = s.expect r n

/-! ## Addresses and entries -/

theorem poolPage_aligned (i : PageId) : 2 ^ 12 ∣ poolPage L i := by
  have h := L.pool_aligned
  unfold poolPage
  omega

theorem poolPage_le (i : PageId) : poolPage L i + 4096 ≤ 0x40000000 := by
  have h := L.pool_le
  unfold poolPage
  omega

theorem poolPage_disjoint {i i' : PageId} (h : i ≠ i') : poolPage L i + 4096 ≤ poolPage L i' ∨
    poolPage L i' + 4096 ≤ poolPage L i := by
  unfold poolPage
  have hne : i.val ≠ i'.val := fun he => h (Fin.ext he)
  omega

theorem poolPage_inj {i i' : PageId} (h : poolPage L i = poolPage L i') : i = i' := by
  by_contra hne
  rcases poolPage_disjoint (L := L) hne with hd | hd <;> omega

theorem Target.aligned (t : Target L) : 2 ^ 12 ∣ t.address := by
  cases t with
  | page i => exact poolPage_aligned i
  | bundle n =>
    have h := L.bundle_aligned
    simp only [address]
    omega
  | arena n =>
    have h := L.dma_aligned
    simp only [address]
    omega
  | registers physical aligned low high =>
    simp only [address]
    omega

theorem Target.address_lt (t : Target L) : t.address < 2 ^ 52 := by
  cases t with
  | page i =>
    have h := poolPage_le (L := L) i
    simp only [address]
    omega
  | bundle n =>
    have h := L.bundle_le
    simp only [address]
    omega
  | arena n =>
    have h := L.dma_le
    simp only [address]
    omega
  | registers physical aligned low high =>
    simp only [address]
    omega

/-- Everything but the pages of tasks lies outside the pool. -/
theorem Target.outside {t : Target L} (h : ∀ i, t ≠ .page i) : t.address + 4096 ≤ L.pool ∨
    L.pool + 4096 * 4096 ≤ t.address := by
  cases t with
  | page i => exact absurd rfl (h i)
  | bundle n =>
    have h := L.bundle_disjoint
    simp only [address]
    omega
  | arena n =>
    have h := L.dma_disjoint
    simp only [address]
    omega
  | registers physical aligned low high =>
    have h := L.pool_le
    simp only [address]
    omega

theorem entryMask_eq : entryMask = Bits.field 12 52 := by decide

theorem link_and (i : PageId) : link (L := L) (some i) &&& entryMask = poolPage L i := by
  have hlt := poolPage_le (L := L) i
  rw [entryMask_eq]
  exact Bits.address_and (poolPage_aligned i) (by omega) (by decide)

theorem link_low (i : PageId) {c : Nat} (hc : c < 2 ^ 12) : link (L := L) (some i) &&& c = 7 &&& c :=
  Bits.low_and (poolPage_aligned i) hc

theorem link_nx (i : PageId) : link (L := L) (some i) &&& nx = 0 := by
  have hlt := poolPage_le (L := L) i
  have h := Bits.high_and (w := 63) (f := 7) (c := nx) (show poolPage L i < 2 ^ 63 by omega) (by decide)
  rw [link, h]
  decide

theorem link_lt (i : Option PageId) : link (L := L) i < 256 ^ 8 := by
  cases i with
  | none => exact Nat.two_pow_pos 64
  | some i =>
    have hlt := poolPage_le (L := L) i
    exact Nat.or_lt_two_pow (n := 64) (by omega) (by decide)

/-! ## Flags -/

section

variable (a : Access) (device : Bool)

include a device

theorem Access.bits_field : a.bits device &&& Bits.field 12 52 = 0 := by
  cases a <;> cases device <;> decide

theorem Access.bits_lt : a.bits device < 2 ^ 64 := by cases a <;> cases device <;> decide

theorem Access.bits_accessible : a.bits device &&& 1 ≠ 0 ∧ a.bits device &&& 4 ≠ 0 := by
  cases a <;> cases device <;> decide

theorem Access.bits_write : a.bits device &&& 2 ≠ 0 ↔ a = .write := by
  cases a <;> cases device <;> decide

theorem Access.bits_nx : a.bits device &&& nx = 0 ↔ a = .execute := by
  cases a <;> cases device <;> decide

theorem Access.bits_mmio : a.bits device &&& pteMmio = 0 ↔ device = false := by
  cases a <;> cases device <;> decide

end

namespace Mapping

variable (m : Mapping L)

theorem entry_and : m.entry &&& entryMask = m.target.address := by
  rw [entryMask_eq]
  exact Bits.address_and m.target.aligned m.target.address_lt (Access.bits_field _ _)

theorem entry_low {c : Nat} (hc : c < 2 ^ 12) : m.entry &&& c = m.bits &&& c := Bits.low_and m.target.aligned hc

theorem entry_nx : m.entry &&& nx = m.bits &&& nx := Bits.high_and (w := 52) m.target.address_lt (by decide)

theorem entry_lt : m.entry < 256 ^ 8 :=
  Nat.or_lt_two_pow (n := 64) (Nat.lt_of_lt_of_le m.target.address_lt (by decide)) (Access.bits_lt _ _)

theorem accessible_entry : accessible m.entry := by
  unfold accessible
  rw [m.entry_low (by decide), m.entry_low (by decide)]
  exact Access.bits_accessible _ _

end Mapping

theorem accessible_link (i : PageId) : accessible (link (L := L) (some i)) := by
  unfold accessible
  rw [link_low i (by decide), link_low i (by decide)]
  decide

theorem not_accessible_zero : ¬ accessible 0 := by decide

/-- What the kernel links for itself is closed to user mode. -/
theorem not_accessible_supervisor {a : Nat} (h : a % 4096 = 0) : ¬ accessible (a ||| 3) := by
  unfold accessible
  rw [Bits.low_and (n := 12) (f := 3) (c := 4) (by omega) (by decide)]
  exact fun h => h.2 (by decide)

/-! ## The walk -/

section Walk

variable {m : Mem} {s : Space L}

theorem Represents.top (h : Represents m s) (n : Fin 512) :
    entry m (poolPage L s.top) n = if n = 0 then link (L := L) (some s.third) else 0 := h .top s.top rfl n

theorem Represents.third (h : Represents m s) (n : Fin 512) : entry m (poolPage L s.third) n = s.expect .third n :=
  h .third s.third rfl n

theorem Represents.second (h : Represents m s) {i : PageId} (hi : s.second = some i) (n : Fin 512) :
    entry m (poolPage L i) n = link (L := L) (s.first n) := h .second i hi n

theorem Represents.first (h : Represents m s) {b : Fin 512} {i : PageId} (hi : s.first b = some i) (n : Fin 512) :
    entry m (poolPage L i) n = ((s.leaf b n).map Mapping.entry).getD 0 := h (.first b) i hi n

/-- The third-level entries that are open to user mode. -/
theorem accessible_third {n : Fin 512} (h : accessible (s.expect .third n)) : n = 1 ∧
    s.expect .third n = link (L := L) s.second := by
  simp only [Space.expect] at h ⊢
  split at h
  · exact absurd h (not_accessible_supervisor L.kernelPd_aligned)
  split at h
  · rename_i h0 h1
    exact ⟨h1, by rw [if_neg h0, if_pos h1]⟩
  split at h
  · exact absurd h (not_accessible_supervisor L.mmioPd_aligned)
  · exact absurd h not_accessible_zero

/-- The leaf that tables of the task end in. -/
theorem leafOf_eq (i i' i'' : PageId) (x : Mapping L) :
    leafOf [link (L := L) (some i), link (L := L) (some i'), link (L := L) (some i''), x.entry] 0 = x.leaf := by
  have hw : ∀ i, link (L := L) (some i) &&& 2 ≠ 0 := fun i => by
    rw [link_low i (by decide)]
    decide
  have hx : x.entry &&& 2 ≠ 0 ↔ x.access = .write := by
    rw [x.entry_low (by decide)]
    exact Access.bits_write _ _
  have hn : x.entry &&& nx = 0 ↔ x.access = .execute := by
    rw [x.entry_nx]
    exact Access.bits_nx _ _
  unfold leafOf Mapping.leaf
  congr 1
  · exact x.entry_and
  · simp [hw, ← hx]
  · simp [link_nx, ← hn]

/-- A user page, by the two upper indices of its address. -/
theorem user_iff (v : Nat) : 0x40000000 ≤ v % 2 ^ 48 ∧ v % 2 ^ 48 < 0x80000000 ↔ v / 2 ^ 39 % 512 = 0 ∧
    v / 2 ^ 30 % 512 = 1 := by omega

theorem mapped_mod (v : Nat) : s.mapped (v % 2 ^ 48) =
    if v / 2 ^ 39 % 512 = 0 ∧ v / 2 ^ 30 % 512 = 1 then s.leaf (secondIndex v) (firstIndex v) else none := by
  have hb : secondIndex (v % 2 ^ 48) = secondIndex v := Fin.ext (by simp only [secondIndex]; omega)
  have hc : firstIndex (v % 2 ^ 48) = firstIndex v := Fin.ext (by simp only [firstIndex]; omega)
  unfold Space.mapped
  rw [hb, hc, if_congr (user_iff v) rfl rfl]

/-- The walk from the second level on. -/
theorem walk_second (h : Represents m s) {i₃ i₂ : PageId} (h₂ : s.second = some i₂) (v : Nat) :
    (if ¬ accessible (entry m (poolPage L i₂) (secondIndex v)) then none
    else if entry m (poolPage L i₂) (secondIndex v) &&& 128 ≠ 0 then
      some (leafOf [link (L := L) (some i₃), link (L := L) (some i₂), entry m (poolPage L i₂) (secondIndex v)]
        (v % 2 ^ 21 / 4096 * 4096))
    else
      let e1 := entry m (entry m (poolPage L i₂) (secondIndex v) &&& entryMask) (firstIndex v)
      if ¬ accessible e1 then none
      else some (leafOf [link (L := L) (some i₃), link (L := L) (some i₂), entry m (poolPage L i₂) (secondIndex v), e1] 0)) =
      (s.leaf (secondIndex v) (firstIndex v)).map Mapping.leaf := by
  rw [h.second h₂]
  cases h₁ : s.first (secondIndex v) with
  | none =>
    rw [s.leaf_none _ h₁]
    exact if_pos not_accessible_zero
  | some i₁ =>
    have h128 : ¬ link (L := L) (some i₁) &&& 128 ≠ 0 := by
      rw [link_low i₁ (by decide)]
      decide
    rw [if_neg (not_not.2 (accessible_link i₁)), if_neg h128, link_and, h.first h₁]
    cases s.leaf (secondIndex v) (firstIndex v) with
    | none => exact if_pos not_accessible_zero
    | some x =>
      refine (if_neg (not_not.2 x.accessible_entry)).trans ?_
      simp only [Option.map_some, Option.getD_some]
      rw [leafOf_eq]

/-- **The processor's walk is a look into the map.** -/
theorem walk_eq (h : Represents m s) (v : Nat) :
    walk m (poolPage L s.top) v = (s.mapped (v % 2 ^ 48)).map Mapping.leaf := by
  have h4 := h.top ⟨v / 2 ^ 39 % 512, Nat.mod_lt _ (by decide)⟩
  have h3 := h.third ⟨v / 2 ^ 30 % 512, Nat.mod_lt _ (by decide)⟩
  rw [mapped_mod]
  unfold walk
  rw [h4]
  by_cases hv4 : v / 2 ^ 39 % 512 = 0
  · rw [if_pos (Fin.ext hv4), if_neg (not_not.2 (accessible_link _)), link_and, h3]
    by_cases hacc : accessible (s.expect .third ⟨v / 2 ^ 30 % 512, Nat.mod_lt _ (by decide)⟩)
    · obtain ⟨hv3, hlink⟩ := accessible_third hacc
      have hv : v / 2 ^ 39 % 512 = 0 ∧ v / 2 ^ 30 % 512 = 1 := ⟨hv4, congrArg Fin.val hv3⟩
      rw [hlink] at hacc ⊢
      rw [if_neg (not_not.2 hacc), if_pos hv]
      cases h₂ : s.second with
      | none =>
        rw [h₂] at hacc
        exact absurd hacc not_accessible_zero
      | some i₂ =>
        have h128 : ¬ link (L := L) (some i₂) &&& 128 ≠ 0 := by
          rw [link_low i₂ (by decide)]
          decide
        rw [if_neg h128, link_and]
        exact walk_second h h₂ v
    · rw [if_pos hacc]
      split
      · rename_i hv
        have hv3 : (⟨v / 2 ^ 30 % 512, Nat.mod_lt _ (by decide)⟩ : Fin 512) = 1 := Fin.ext hv.2
        rw [hv3] at hacc
        cases h₂ : s.second with
        | none => rw [s.leaf_none _ (s.first_none h₂ _), Option.map_none]
        | some i₂ =>
          have hlink : s.expect .third 1 = link (L := L) s.second := rfl
          rw [hlink, h₂] at hacc
          exact absurd (accessible_link i₂) hacc
      · rfl
  · rw [if_neg fun he => hv4 (congrArg Fin.val he), if_pos not_accessible_zero, if_neg fun hv => hv4 hv.1, Option.map_none]

end Walk

/-! ## Look-ups -/

theorem chunk_le (v n : Nat) : v % 4096 + chunk v n ≤ 4096 ∧ chunk v n ≤ n := by
  unfold chunk
  omega

section Lookup

variable {k : Kernel} {j : TaskId} {s : Space L} {v n : Nat} {write create : Bool}

/-- A table that is there is found. -/
theorem nextTable_link {i : PageId} {pid table e : Nat} (h : entry k.mem table e = link (L := L) (some i)) :
    nextTable L k pid table e create = (some (poolPage L i), k) := by
  have h1 : link (L := L) (some i) &&& 1 ≠ 0 := by
    rw [link_low i (by decide)]
    decide
  unfold nextTable
  rw [h, if_pos h1, link_and]

theorem nextTable_zero {pid table e : Nat} (h : entry k.mem table e = 0) : nextTable L k pid table e false = (none, k) := by
  unfold nextTable
  rw [h, if_neg (by decide), if_pos rfl]

theorem third_of_user (h : Represents k.mem s) (hv : 0x40000000 ≤ v ∧ v < 0x80000000) :
    entry k.mem (poolPage L s.third) (v / 2 ^ 30) = link (L := L) s.second := by
  have hone : v / 2 ^ 30 = 1 := by omega
  rw [hone]
  exact h.third 1

theorem top_third (h : Represents k.mem s) : entry k.mem (poolPage L s.top) 0 &&& entryMask = poolPage L s.third := by
  have h0 : entry k.mem (poolPage L s.top) 0 = link (L := L) (some s.third) := h.top 0
  rw [h0, link_and]

/-- A mapping is the same all over its page. -/
theorem mapped_page {v' : Nat} (hv : v / 4096 = v' / 4096) : s.mapped v = s.mapped v' := by
  have hb : secondIndex v = secondIndex v' := Fin.ext (by simp only [secondIndex]; omega)
  have hc : firstIndex v = firstIndex v' := Fin.ext (by simp only [firstIndex]; omega)
  have hrange : 0x40000000 ≤ v ∧ v < 0x80000000 ↔ 0x40000000 ≤ v' ∧ v' < 0x80000000 := by omega
  unfold Space.mapped
  rw [hb, hc, if_congr hrange rfl rfl]

variable (hcr3 : (k.tasks j).cr3 = poolPage L s.top) (h : Represents k.mem s)
include hcr3 h

theorem pte_false : pte L k j v false = (if 0x40000000 ≤ v ∧ v < 0x80000000 then
    (s.first (secondIndex v)).map fun i => poolPage L i + 8 * firstIndex v else none, k) := by
  unfold pte
  by_cases hv : 0x40000000 ≤ v ∧ v < 0x80000000
  · rw [if_neg (by omega), if_pos hv]
    dsimp only
    rw [hcr3, top_third h]
    have h3 := third_of_user h hv
    cases h₂ : s.second with
    | none =>
      rw [h₂] at h3
      rw [nextTable_zero h3, s.first_none h₂]
      rfl
    | some i₂ =>
      rw [h₂] at h3
      have h2 : entry k.mem (poolPage L i₂) (v / 2 ^ 21 % 512) = link (L := L) (s.first (secondIndex v)) :=
        h.second h₂ (secondIndex v)
      rw [nextTable_link h3]
      cases h₁ : s.first (secondIndex v) with
      | none =>
        rw [h₁] at h2
        dsimp only
        rw [nextTable_zero h2]
        rfl
      | some i₁ =>
        rw [h₁] at h2
        dsimp only
        rw [nextTable_link h2]
        rfl
  · rw [if_pos (by omega), if_neg hv]

theorem lookup_eq : lookup L k j v = if 0x40000000 ≤ v ∧ v < 0x80000000 then
    (s.first (secondIndex v)).map fun _ => ((s.mapped v).map Mapping.entry).getD 0 else none := by
  unfold lookup
  rw [pte_false hcr3 h]
  unfold Space.mapped
  split
  · cases h₁ : s.first (secondIndex v) with
    | none => rfl
    | some i₁ => exact congrArg some (h.first h₁ (firstIndex v))
  · rfl

theorem lookup_mapped {m : Mapping L} (hm : s.mapped v = some m) : lookup L k j v = some m.entry := by
  rw [lookup_eq hcr3 h, hm]
  unfold Space.mapped at hm
  split at hm
  · rename_i hv
    rw [if_pos hv]
    cases h₁ : s.first (secondIndex v) with
    | none =>
      rw [s.leaf_none _ h₁] at hm
      cases hm
    | some i₁ => rfl
  · cases hm

theorem lookup_unmapped (hm : s.mapped v = none) {p : Nat} (hp : lookup L k j v = some p) : p = 0 := by
  rw [lookup_eq hcr3 h, hm] at hp
  split at hp
  · obtain ⟨_, _, rfl⟩ := Option.map_eq_some_iff.1 hp
    rfl
  · cases hp

theorem userPage_iff : userPage L k j v write = true ↔
    ∃ m, s.mapped v = some m ∧ m.device = false ∧ (write → m.access = .write) := by
  unfold userPage
  cases hm : s.mapped v with
  | none =>
    cases hp : lookup L k j v with
    | none => simp
    | some p =>
      obtain rfl := lookup_unmapped hcr3 h hm hp
      simp
  | some m =>
    rw [lookup_mapped hcr3 h hm]
    have hacc := m.accessible_entry
    simp only [decide_eq_true_eq, Option.some.injEq, exists_eq_left', ← Access.bits_mmio m.access,
      ← Access.bits_write m.access
      m.device, m.entry_low (c := 2) (by decide), m.entry_low (c := pteMmio) (by decide)]
    exact ⟨fun hu => ⟨hu.2.2.1, hu.2.2.2⟩, fun hu => ⟨hacc.1, hacc.2, hu.1, hu.2⟩⟩

theorem userPhys_eq {m : Mapping L} (hm : s.mapped v = some m) : userPhys L k j v = m.target.address + v % 4096 := by
  unfold userPhys
  rw [lookup_mapped hcr3 h hm]
  dsimp only
  rw [if_pos m.accessible_entry.1, m.entry_and]

/-- A range that the kernel lets a copy through is covered. -/
theorem covers_of_userRange (hu : userRange L k j v n write = true) : s.Covers v n write := by
  intro a hva hav
  have hn : n ≠ 0 := by omega
  unfold userRange at hu
  split at hu
  · cases hu
  rw [List.all_eq_true] at hu
  have hpage := hu (a / 4096 - v / 4096) (List.mem_range.2 (by omega))
  have ha : a / 4096 = (v / 4096 + (a / 4096 - v / 4096)) * 4096 / 4096 := by omega
  rw [mapped_page ha]
  exact (userPage_iff hcr3 h).1 hpage

theorem userRange_of_covers (hn : n ≠ 0) (hc : s.Covers v n write) : userRange L k j v n write = true := by
  have hrange : ∀ a, v ≤ a → a < v + n → 0x40000000 ≤ a ∧ a < 0x80000000 := fun a hva hav => by
    obtain ⟨m, hm, _⟩ := hc a hva hav
    unfold Space.mapped at hm
    split at hm
    · assumption
    · cases hm
  have hfirst := hrange v (by omega) (by omega)
  have hlast := hrange (v + n - 1) (by omega) (by omega)
  unfold userRange
  rw [if_neg (by omega), if_neg hn, List.all_eq_true]
  intro i hi
  have hi' := List.mem_range.1 hi
  -- A byte of the range in the page of this round.
  have ha : (v / 4096 + i) * 4096 / 4096 = max v ((v / 4096 + i) * 4096) / 4096 := by omega
  rw [userPage_iff hcr3 h, mapped_page ha]
  exact hc _ (by omega) (by omega)

end Lookup

/-! ## Writes to tables -/

section Write

variable {m m' : Mem} {s : Space L} {i i' : PageId}

theorem entry_eqOn (h : EqOn m' m (poolPage L i) 4096) (n : Fin 512) :
    entry m' (poolPage L i) n = entry m (poolPage L i) n :=
  h.load (by omega) (by omega)

/-- The tables of a space are all that it rests on. -/
theorem Represents.congr (h : Represents m s) (heq : ∀ r i, s.table r = some i → EqOn m' m (poolPage L i) 4096) :
    Represents m' s :=
  fun r i hi n => (entry_eqOn (heq r i hi) n).trans (h r i hi n)

theorem entry_setEntry_self {v : Nat} (hv : v < 256 ^ 8) (n : Fin 512) :
    entry (setEntry m (poolPage L i) n v) (poolPage L i) n = v := load_store_self _ _ hv

theorem entry_setEntry_of_ne (m : Mem) (v : Nat) (i i' : PageId) (n n' : Fin 512) (h : i ≠ i' ∨ n ≠ n') :
    entry (setEntry m (poolPage L i) n v) (poolPage L i') n' = entry m (poolPage L i') n' := by
  have hapart : poolPage L i' + 8 * n' + 8 ≤ poolPage L i + 8 * n ∨ poolPage L i + 8 * n + 8 ≤ poolPage L i' + 8 * n' := by
    by_cases hi : i = i'
    · subst hi
      have hn : n.val ≠ n'.val := fun he => h.resolve_left (fun hne => hne rfl) (Fin.ext he)
      omega
    · rcases poolPage_disjoint (L := L) hi with hd | hd <;> omega
  exact (eqOn_store (a := poolPage L i' + 8 * n') (n := 8) hapart).load (Nat.le_refl _) (Nat.le_refl _)

theorem entry_clear (n : Fin 512) : entry (clear m (poolPage L i) 4096) (poolPage L i) n = 0 := by
  have hz : slice (clear m (poolPage L i) 4096) (poolPage L i + 8 * n) 8 = slice zeros 0 8 :=
    slice_congr fun b hb => by
      unfold clear
      rw [if_pos (by omega)]
      rfl
  unfold entry load
  rw [hz]
  decide

theorem eqOn_clear {a n c l : Nat} (h : c + l ≤ a ∨ a + n ≤ c) : EqOn (clear m a n) m c l := fun b h₁ h₂ => by
  unfold clear
  rw [if_neg (by omega)]

theorem eqOn_clear_page (h : i ≠ i') : EqOn (clear m (poolPage L i) 4096) m (poolPage L i') 4096 :=
  eqOn_clear ((poolPage_disjoint h).symm)

/-- One entry is written, and every other one is as the new space expects it. -/
theorem represents_setEntry (s' : Space L) (r : Role) (n : Fin 512) (hi : s'.table r = some i)
    (hlt : s'.expect r n < 256 ^ 8)
    (hrest : ∀ r' i' n', s'.table r' = some i' → (r' ≠ r ∨ n' ≠ n) → entry m (poolPage L i') n' = s'.expect r' n') :
    Represents (setEntry m (poolPage L i) n (s'.expect r n)) s' := by
  intro r' i' hi' n'
  by_cases hr : r' = r
  · subst hr
    cases hi.symm.trans hi'
    by_cases hn : n' = n
    · subst hn
      exact entry_setEntry_self hlt n'
    · rw [entry_setEntry_of_ne _ _ _ _ _ _ (Or.inr (Ne.symm hn))]
      exact hrest r' i n' hi' (Or.inr hn)
  · have hne : i ≠ i' := fun he => hr (Option.some.inj ((Space.role_table hi').symm.trans (he ▸ Space.role_table hi)))
    rw [entry_setEntry_of_ne _ _ _ _ _ _ (Or.inl hne)]
    exact hrest r' i' n' hi' (Or.inl hr)

end Write

/-! ## Changes of a space -/

namespace Space

variable {m : Mem} (s : Space L) (i : PageId)

theorem role_update {i i' : PageId} {r r' : Role} (hi : s.role i = none) (h : s.role i' = some r) :
    Function.update s.role i (some r') i' = some r := by
  have hne : i' ≠ i := fun he => by
    rw [he, hi] at h
    cases h
  rw [Function.update_of_ne hne, h]

/-- A page becomes a data page. -/
def claim (hi : s.role i = none) : Space L where
  role := Function.update s.role i (some .data)
  top := s.top
  third := s.third
  second := s.second
  first := s.first
  leaf := s.leaf
  mmio := s.mmio
  role_top := s.role_update hi s.role_top
  role_third := s.role_update hi s.role_third
  role_second i' h := s.role_update hi (s.role_second i' h)
  role_first b i' h := s.role_update hi (s.role_first b i' h)
  role_page b c x i' h ht := s.role_update hi (s.role_page b c x i' h ht)
  first_none := s.first_none
  leaf_none := s.leaf_none

/-- A page becomes the second-level table. -/
def setSecond (hi : s.role i = none) (hs : s.second = none) : Space L where
  role := Function.update s.role i (some .second)
  top := s.top
  third := s.third
  second := some i
  first := s.first
  leaf := s.leaf
  mmio := s.mmio
  role_top := s.role_update hi s.role_top
  role_third := s.role_update hi s.role_third
  role_second i' h := by
    cases h
    exact Function.update_self _ _ _
  role_first b i' h := by
    rw [s.first_none hs] at h
    cases h
  role_page b c x i' h ht := s.role_update hi (s.role_page b c x i' h ht)
  first_none h := by cases h
  leaf_none := s.leaf_none

/-- A page becomes a last-level table. -/
def setFirst (b : Fin 512) (hi : s.role i = none) (hs : s.second ≠ none) (hf : s.first b = none) : Space L where
  role := Function.update s.role i (some (.first b))
  top := s.top
  third := s.third
  second := s.second
  first := Function.update s.first b (some i)
  leaf := s.leaf
  mmio := s.mmio
  role_top := s.role_update hi s.role_top
  role_third := s.role_update hi s.role_third
  role_second i' h := s.role_update hi (s.role_second i' h)
  role_first b' i' h := by
    by_cases hb : b' = b
    · subst hb
      rw [Function.update_self] at h
      cases h
      exact Function.update_self _ _ _
    · rw [Function.update_of_ne hb] at h
      exact s.role_update hi (s.role_first b' i' h)
  role_page b c x i' h ht := s.role_update hi (s.role_page b c x i' h ht)
  first_none h := absurd h hs
  leaf_none b' h := by
    by_cases hb : b' = b
    · subst hb
      exact s.leaf_none b' hf
    · rw [Function.update_of_ne hb] at h
      exact s.leaf_none b' h

/-- A page is mapped. -/
def setLeaf (b c : Fin 512) (x : Mapping L) (hf : s.first b ≠ none) (hx : ∀ i, x.target = .page i → s.role i = some .data) :
    Space L where
  role := s.role
  top := s.top
  third := s.third
  second := s.second
  first := s.first
  leaf := Function.update s.leaf b (Function.update (s.leaf b) c (some x))
  mmio := s.mmio
  role_top := s.role_top
  role_third := s.role_third
  role_second := s.role_second
  role_first := s.role_first
  role_page b' c' x' i' h ht := by
    by_cases hb : b' = b
    · subst hb
      rw [Function.update_self] at h
      by_cases hc : c' = c
      · subst hc
        rw [Function.update_self] at h
        cases h
        exact hx i' ht
      · rw [Function.update_of_ne hc] at h
        exact s.role_page b' c' x' i' h ht
    · rw [Function.update_of_ne hb] at h
      exact s.role_page b' c' x' i' h ht
  first_none := s.first_none
  leaf_none b' h := by
    by_cases hb : b' = b
    · subst hb
      exact absurd h hf
    · rw [Function.update_of_ne hb]
      exact s.leaf_none b' h

/-- The space of two fresh pages. -/
def fresh (top third : PageId) (hne : top ≠ third) (mmio : Bool) : Space L where
  role i := if i = top then some .top else if i = third then some .third else none
  top := top
  third := third
  second := none
  first _ := none
  leaf _ _ := none
  mmio := mmio
  role_top := if_pos rfl
  role_third := by rw [if_neg (Ne.symm hne), if_pos rfl]
  role_second _ h := by cases h
  role_first _ _ h := by cases h
  role_page _ _ _ _ h := by cases h
  first_none _ _ := rfl
  leaf_none _ _ _ := rfl

variable {s i}

theorem represents_claim (h : Represents m s) (hi : s.role i = none) : Represents m (s.claim i hi) := by
  intro r i' ht n
  cases r with
  | top => exact h .top i' ht n
  | third => exact h .third i' ht n
  | second => exact h .second i' ht n
  | first b => exact h (.first b) i' ht n
  | data => cases ht

theorem represents_setSecond (h : Represents m s) (hi : s.role i = none) (hs : s.second = none)
    (hz : ∀ n : Fin 512, entry m (poolPage L i) n = 0) :
    Represents (setEntry m (poolPage L s.third) 1 (poolPage L i ||| 7)) (s.setSecond i hi hs) := by
  refine represents_setEntry (s.setSecond i hi hs) .third 1 rfl (link_lt (L := L) (some i)) fun r' i' n' ht hne => ?_
  cases r' with
  | top => exact h .top i' ht n'
  | third =>
    have hn : n' ≠ 1 := hne.resolve_left fun hr => hr rfl
    rw [h .third i' ht n']
    simp only [expect, if_neg hn]
    rfl
  | second =>
    cases ht
    rw [hz]
    exact congrArg (link (L := L)) (s.first_none hs n').symm
  | first b =>
    rw [table, setSecond, s.first_none hs] at ht
    cases ht
  | data => cases ht

theorem represents_setFirst (h : Represents m s) {b : Fin 512} {i₂ : PageId} (hi : s.role i = none) (hs : s.second = some i₂)
    (hf : s.first b = none) (hz : ∀ n : Fin 512, entry m (poolPage L i) n = 0) :
    Represents (setEntry m (poolPage L i₂) b (poolPage L i ||| 7)) (s.setFirst i b hi (by simp [hs]) hf) := by
  have hv : poolPage L i ||| 7 = (s.setFirst i b hi (by simp [hs]) hf).expect .second b := by simp [expect, setFirst, link]
  rw [hv]
  refine represents_setEntry (s.setFirst i b hi (by simp [hs]) hf) .second b hs (link_lt _) fun r' i' n' ht hne => ?_
  cases r' with
  | top => exact h .top i' ht n'
  | third => exact h .third i' ht n'
  | second =>
    have hn : n' ≠ b := hne.resolve_left fun hr => hr rfl
    rw [h .second i' ht n']
    simp [expect, setFirst, hn]
  | first b' =>
    by_cases hb : b' = b
    · subst hb
      have hii : i = i' := by simpa [table, setFirst] using ht
      subst hii
      rw [hz]
      simp [expect, setFirst, s.leaf_none b' hf]
    · have ht' : s.table (.first b') = some i' := by simpa [table, setFirst, hb] using ht
      exact h (.first b') i' ht' n'
  | data => cases ht

theorem represents_setLeaf (h : Represents m s) {b c : Fin 512} {x : Mapping L} {i₁ : PageId} (hf : s.first b = some i₁)
    (hx : ∀ i, x.target = .page i → s.role i = some .data) :
    Represents (setEntry m (poolPage L i₁) c x.entry) (s.setLeaf b c x (by simp [hf]) hx) := by
  have hv : x.entry = (s.setLeaf b c x (by simp [hf]) hx).expect (.first b) c := by simp [expect, setLeaf]
  have hlt := x.entry_lt
  rw [hv] at hlt ⊢
  refine represents_setEntry (s.setLeaf b c x (by simp [hf]) hx) (.first b) c hf hlt fun r' i' n' ht hne => ?_
  cases r' with
  | top => exact h .top i' ht n'
  | third => exact h .third i' ht n'
  | second => exact h .second i' ht n'
  | first b' =>
    rw [h (.first b') i' ht n']
    by_cases hb : b' = b
    · subst hb
      have hn : n' ≠ c := hne.resolve_left fun hr => hr rfl
      simp [expect, setLeaf, hn]
    · simp [expect, setLeaf, hb]
  | data => cases ht

/-- The tables that `spaceNew` writes to two cleared pages. -/
theorem represents_fresh {top third : PageId} (hne : top ≠ third) (mmio : Bool)
    (htop : ∀ n : Fin 512, entry m (poolPage L top) n = 0) (hthird : ∀ n : Fin 512, entry m (poolPage L third) n = 0) :
    Represents (L := L)
      (if mmio then setEntry (setEntry (setEntry m (poolPage L top) 0 (poolPage L third ||| 7)) (poolPage L third) 0
        (L.kernelPd ||| 3))
          (poolPage L third) 3 (L.mmioPd ||| 3)
      else setEntry (setEntry m (poolPage L top) 0 (poolPage L third ||| 7)) (poolPage L third) 0 (L.kernelPd ||| 3))
      (fresh top third hne mmio) := by
  have hk : L.kernelPd ||| 3 < 256 ^ 8 := by
    have := L.kernelPd_le
    exact Nat.or_lt_two_pow (n := 64) (by omega) (by decide)
  have hm : L.mmioPd ||| 3 < 256 ^ 8 := by
    have := L.mmioPd_le
    exact Nat.or_lt_two_pow (n := 64) (by omega) (by decide)
  -- The two writes that are always made.
  have htwo : ∀ r i, (fresh (L := L) top third hne false).table r = some i → ∀ n : Fin 512,
      entry (setEntry (setEntry m (poolPage L top) 0 (poolPage L third ||| 7)) (poolPage L third) 0
        (L.kernelPd ||| 3)) (poolPage L i) n =
        (fresh (L := L) top third hne false).expect r n := by
    intro r i ht n
    cases r with
    | top =>
      cases ht
      have hsecond := entry_setEntry_of_ne (L := L) (setEntry m (poolPage L top) 0 (poolPage L third ||| 7))
        (L.kernelPd ||| 3)
        third top 0 n (Or.inl (Ne.symm hne))
      refine hsecond.trans ?_
      by_cases hn : n = 0
      · subst hn
        exact entry_setEntry_self (link_lt (L := L) (some third)) 0
      have hfirst := entry_setEntry_of_ne (L := L) m (poolPage L third ||| 7) top top 0 n (Or.inr (Ne.symm hn))
      refine (hfirst.trans (htop n)).trans ?_
      simp [expect, hn]
    | third =>
      cases ht
      by_cases hn : n = 0
      · subst hn
        exact entry_setEntry_self hk 0
      have hsecond := entry_setEntry_of_ne (L := L) (setEntry m (poolPage L top) 0 (poolPage L third ||| 7))
        (L.kernelPd ||| 3)
        third third 0 n (Or.inr (Ne.symm hn))
      have hfirst := entry_setEntry_of_ne (L := L) m (poolPage L third ||| 7) top third 0 n (Or.inl hne)
      refine ((hsecond.trans hfirst).trans (hthird n)).trans ?_
      simp [expect, fresh, link, hn]
    | second => cases ht
    | first b => cases ht
    | data => cases ht
  cases mmio with
  | false => exact htwo
  | true =>
    refine represents_setEntry (fresh top third hne true) .third 3 rfl hm fun r' i' n' ht hne' => ?_
    cases r' with
    | top => exact htwo .top i' ht n'
    | third =>
      have hn : n' ≠ 3 := hne'.resolve_left fun hr => hr rfl
      refine (htwo .third i' ht n').trans ?_
      simp [expect, fresh, hn]
    | second => cases ht
    | first b => cases ht
    | data => cases ht

/-! ## The map after a change -/

theorem mapped_setLeaf {v : Nat} {x : Mapping L} (hv : 0x40000000 ≤ v ∧ v < 0x80000000) (hf : s.first (secondIndex v) ≠ none)
    (hx : ∀ i, x.target = .page i → s.role i = some .data) (v' : Nat) :
    (s.setLeaf (secondIndex v) (firstIndex v) x hf hx).mapped v' = if v' / 4096 = v / 4096 then some x else s.mapped v' := by
  split
  · rename_i hp
    rw [mapped_page hp]
    simp [mapped, setLeaf, hv]
  · rename_i hp
    unfold mapped
    split
    · rename_i hv'
      by_cases hb : secondIndex v' = secondIndex v
      · have hc : firstIndex v' ≠ firstIndex v := fun hc => by
          have hbv := congrArg Fin.val hb
          have hcv := congrArg Fin.val hc
          simp only [secondIndex, firstIndex] at hbv hcv
          omega
        simp [setLeaf, hb, hc]
      · simp [setLeaf, hb]
    · rfl

/-- More tables and more pages, and the same mappings. -/
structure Extends (s s' : Space L) : Prop where
  mapped : ∀ v, s'.mapped v = s.mapped v
  role : ∀ i r, s.role i = some r → s'.role i = some r

theorem Extends.refl : s.Extends s := ⟨fun _ => rfl, fun _ _ h => h⟩

theorem Extends.trans {s' s'' : Space L} (h : s.Extends s') (h' : s'.Extends s'') : s.Extends s'' :=
  ⟨fun v => (h'.mapped v).trans (h.mapped v), fun i r hr => h'.role i r (h.role i r hr)⟩

theorem extends_claim (hi : s.role i = none) : s.Extends (s.claim i hi) := ⟨fun _ => rfl, fun _ _ hr => s.role_update hi hr⟩

theorem extends_setSecond (hi : s.role i = none) (hs : s.second = none) : s.Extends (s.setSecond i hi hs) :=
  ⟨fun _ => rfl, fun _ _ hr => s.role_update hi hr⟩

theorem extends_setFirst {b : Fin 512} (hi : s.role i = none) (hs : s.second ≠ none) (hf : s.first b = none) :
    s.Extends (s.setFirst i b hi hs hf) := ⟨fun _ => rfl, fun _ _ hr => s.role_update hi hr⟩

end Space

end Space

end SpiritFox.Core
