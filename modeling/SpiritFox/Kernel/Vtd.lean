import SpiritFox.Lib.Bits
import SpiritFox.Lib.Fold
import SpiritFox.Kernel.Device

/-!
# Translation tables

`vtd_tables.c` and the grants of `iommu.c`, with the tables that the rest of the kernel model leaves out, and the
unit's walk of them. A grant publishes tables for one device, a revocation takes them back, and each ends with an
invalidation that the unit may not answer. `sfVtdTables_exact` is what filled tables translate.

Four things can be in memory (`Published`). As long as every invalidation has been answered, `activeBdf` says which
of two it is: `tables_follow_grants`. One that is not answered leaves the tables of a refused grant in place, with
no grant active: `failed_grant_leaves_tables`.
-/

namespace SpiritFox.Vtd

open SpiritFox.Core (sfDmaIova sfDmaBytes entryMask)

/-! ## Tables -/

structure SfVtdTables where
  root : Fin 512 → Nat
  context : Fin 512 → Nat
  level3 : Fin 512 → Nat
  level2 : Fin 512 → Nat
  level1 : Fin 512 → Nat

def SfVtdTables.zero : SfVtdTables := ⟨fun _ => 0, fun _ => 0, fun _ => 0, fun _ => 0, fun _ => 0⟩

/-- `sizeof(SfVtdTables)` -/
def tablesBytes : Nat := 5 * 4096

/-- The tables at `address` that let device `bdf` use the arena at `physical`: what `sfVtdTables` ends with. -/
def publish (address bdf physical : Nat) : SfVtdTables where
  root i := if i.val = 0 then (address + 4096) ||| 1 else 0
  context i := if i.val = bdf * 2 then (address + 2 * 4096) ||| 1 else if i.val = bdf * 2 + 1 then 0x101 else 0
  level3 i := if i.val = 0 then (address + 3 * 4096) ||| 3 else 0
  level2 i := if i.val = sfDmaIova / 2 ^ 21 then (address + 4 * 4096) ||| 3 else 0
  level1 i := if i.val < sfDmaBytes / 4096 then (physical + i.val * 4096) ||| 3 else 0

/-- `tables.context[bdf*2]=0` -/
def SfVtdTables.cut (t : SfVtdTables) (bdf : Nat) : SfVtdTables :=
  { t with context := fun i => if i.val = bdf * 2 then 0 else t.context i }

/-- An assignment to one entry. -/
def setEntry (f : Fin 512 → Nat) (i v : Nat) : Fin 512 → Nat := fun j => if j.val = i then v else f j

/-- The loop over `level1`, after `n` rounds. -/
def fillPages (t : SfVtdTables) (physical n : Nat) : SfVtdTables :=
  (List.range n).foldl (fun t i => { t with level1 := setEntry t.level1 i ((physical + i * 4096) ||| 3) }) t

/-- `sf_vtd_tables` on the tables it is given, assignment by assignment, with its result. -/
def sfVtdTables (t : SfVtdTables) (address bdf physical : Nat) : Int × SfVtdTables :=
  if (address ||| physical) &&& 4095 ≠ 0 ∨ 0x40000000 ≤ address ∨ 0x40000000 - address < tablesBytes ∨
      0x40000000 ≤ physical ∨ 0x40000000 - physical < sfDmaBytes ∨ 256 ≤ bdf then (SfError.invalid.code, t)
  else
    let t := SfVtdTables.zero
    let t := { t with root := setEntry t.root 0 ((address + 4096) ||| 1) }
    let t := { t with context := setEntry t.context (bdf * 2) ((address + 2 * 4096) ||| 1) }
    let t := { t with context := setEntry t.context (bdf * 2 + 1) 0x101 }
    let t := { t with level3 := setEntry t.level3 0 ((address + 3 * 4096) ||| 3) }
    let t := { t with level2 := setEntry t.level2 (sfDmaIova / 2 ^ 21) ((address + 4 * 4096) ||| 3) }
    (0, fillPages t physical (sfDmaBytes / 4096))

/-! ## The unit -/

/-- The tables in the order they lie in memory. -/
def SfVtdTables.table (t : SfVtdTables) : Nat → Fin 512 → Nat
  | 0 => t.root
  | 1 => t.context
  | 2 => t.level3
  | 3 => t.level2
  | _ => t.level1

/-- What the unit reads at `a`, with the tables at `address` and `other` in the rest of memory. -/
def fetch (address : Nat) (t : SfVtdTables) (other : Nat → Nat) (a : Nat) : Nat :=
  if address ≤ a ∧ a < address + tablesBytes then
    t.table ((a - address) / 4096) ⟨(a - address) / 8 % 512, Nat.mod_lt _ (by decide)⟩
  else other a

inductive Access where
  | read | write
  deriving DecidableEq

def Access.bit : Access → Nat
  | .read => 1
  | .write => 2

/-- The last step of a walk, or the next one: bit 7 makes a large page. -/
def descend (e : Nat) (access : Access) (size iova : Nat) (next : Nat → Option Nat) : Option Nat :=
  if e &&& access.bit = 0 then none
  else if e &&& 128 ≠ 0 then some ((e &&& entryMask) + iova % size)
  else next (e &&& entryMask)

/-- The address that a request for `iova` is let through to. A context of a kind that is never set up here is taken
to let everything through. -/
def translate (fetch : Nat → Nat) (root source iova : Nat) (access : Access) : Option Nat :=
  let r := fetch (root + 16 * (source / 256))
  if r &&& 1 = 0 then none
  else
    let low := fetch ((r &&& entryMask) + 16 * (source % 256))
    let high := fetch ((r &&& entryMask) + 16 * (source % 256) + 8)
    if low &&& 1 = 0 then none
    else if low &&& 12 ≠ 0 ∨ high &&& 7 ≠ 1 then some iova
    else if 2 ^ 39 ≤ iova then none
    else
      descend (fetch ((low &&& entryMask) + 8 * (iova / 2 ^ 30))) access (2 ^ 30) iova fun t2 =>
      descend (fetch (t2 + 8 * (iova / 2 ^ 21 % 512))) access (2 ^ 21) iova fun t1 =>
        let e := fetch (t1 + 8 * (iova / 2 ^ 12 % 512))
        if e &&& access.bit = 0 then none else some ((e &&& entryMask) + iova % 4096)

/-! ## Grants -/

/-- Where the tables and the arena lie, and the devices behind the unit. -/
structure Platform where
  address : Nat
  arena : Nat
  covered : Nat → Bool
  address_aligned : address % 4096 = 0
  address_le : address + tablesBytes ≤ 0x40000000
  arena_aligned : arena % 4096 = 0
  arena_le : arena + sfDmaBytes ≤ 0x40000000

/-- The state of `iommu.c`; `activeBdf` is `none` for `UINT32_MAX`. -/
structure Translation where
  tables : SfVtdTables
  mode : Nat
  activeBdf : Option Nat

/-- After an initialisation that succeeds. -/
def Translation.initialised : Translation := ⟨.zero, 1, none⟩

/-- `invalidate`; `done` says whether the unit answers in time. -/
def invalidate (done : Bool) (s : Translation) : Bool × Translation :=
  if done then (true, s) else (false, { s with mode := 2 })

/-- `iommu_active` -/
def iommuActive (s : Translation) : Nat := if s.activeBdf = none then 0 else 1

section Grants

variable (P : Platform)

/-- `iommu_grant`: the address the device uses. -/
def iommuGrant (s : Translation) (bdf physical : Nat) (done : Bool) : Except SfError Nat × Translation :=
  if s.mode = 0 then (.ok physical, s)
  else if s.mode ≠ 1 ∨ s.activeBdf ≠ none then (.error .deviceGone, s)
  else if 256 ≤ bdf ∨ P.covered bdf = false then (.error .denied, s)
  else
    let filled := sfVtdTables s.tables P.address bdf physical
    if filled.1 ≠ 0 then (.error .deviceGone, { s with tables := filled.2 })
    else match invalidate done { s with tables := filled.2 } with
      | (false, s) => (.error .deviceGone, s)
      | (true, s) => (.ok sfDmaIova, { s with activeBdf := some bdf })

/-- `iommu_revoke` -/
def iommuRevoke (s : Translation) (bdf : Nat) (done : Bool) : Except SfError Unit × Translation :=
  if s.mode = 0 then (.ok (), s)
  else if s.mode ≠ 1 then (.error .deviceGone, s)
  else match s.activeBdf with
    | none => (.ok (), s)
    | some active =>
      if active ≠ bdf then (.error .denied, s)
      else match invalidate done { s with tables := s.tables.cut bdf } with
        | (false, s) => (.error .deviceGone, s)
        | (true, s) => (.ok (), { s with tables := .zero, activeBdf := none })

inductive Call where
  | grant (bdf : Nat) (done : Bool)
  | revoke (bdf : Nat) (done : Bool)

/-- `device_grant` asks for the arena. -/
def step (s : Translation) : Call → Translation
  | .grant bdf done => (iommuGrant P s bdf P.arena done).2
  | .revoke bdf done => (iommuRevoke s bdf done).2

def run (calls : List Call) : Translation := calls.foldl (step P) .initialised

/-- The unit's answer to the invalidation of a call. -/
def Call.done : Call → Bool
  | .grant _ done => done
  | .revoke _ done => done

/-- The call gets as far as its invalidation. -/
def Call.Invalidates (s : Translation) : Call → Prop
  | .grant bdf _ => s.mode = 1 ∧ s.activeBdf = none ∧ bdf < 256 ∧ P.covered bdf = true
  | .revoke bdf _ => s.mode = 1 ∧ s.activeBdf = some bdf

/-- The unit answers every invalidation that the calls ask it for. -/
def Answered : Translation → List Call → Prop
  | _, [] => True
  | s, call :: calls => (call.Invalidates P s → call.done = true) ∧ Answered (step P s call) calls

/-- What the tables let a device do, whatever the rest of memory holds. -/
def permits (s : Translation) (other : Nat → Nat) (source : Fin 65536) (iova : Nat) (access : Access) : Option Nat :=
  translate (fetch P.address s.tables other) P.address source iova access

end Grants

/-! ## What tables let through -/

section Walk

variable {P : Platform} {t : SfVtdTables} {other : Nat → Nat} {b : Nat} {source : Fin 65536} {iova : Nat} {access : Access}

variable (other) in
/-- Entry `i` of table `n`, as the unit reads it. -/
theorem fetch_table {n i : Nat} (hn : n < 5) (hi : i < 512) :
    fetch P.address t other (P.address + n * 4096 + 8 * i) = t.table n ⟨i, hi⟩ := by
  have htable : (P.address + n * 4096 + 8 * i - P.address) / 4096 = n := by omega
  have hentry : (P.address + n * 4096 + 8 * i - P.address) / 8 % 512 = i := by omega
  unfold fetch tablesBytes
  rw [if_pos (by omega)]
  simp only [htable, hentry]

section Words

variable {a f c : Nat} (ha : a % 4096 = 0)

include ha

theorem tagged_address (hlt : a < 2 ^ 52) (hf : f < 4096) : (a ||| f) &&& entryMask = a := by
  have hmask : entryMask = Bits.field 12 52 := by decide
  rw [hmask]
  refine Bits.address_and (Nat.dvd_of_mod_eq_zero ha) hlt ?_
  rw [Nat.and_comm]
  exact Bits.and_eq_zero (n := 12) hf (by decide)

theorem tagged_flags (hc : c < 4096) : (a ||| f) &&& c = f &&& c := Bits.low_and (n := 12) (Nat.dvd_of_mod_eq_zero ha) hc

end Words

theorem access_lt (access : Access) : access.bit < 4096 := by cases access <;> decide

theorem access_zero (access : Access) : 0 &&& access.bit = 0 := by cases access <;> decide

/-- A table entry that is not there ends the walk. -/
theorem descend_zero (size : Nat) (next : Nat → Option Nat) : descend 0 access size iova next = none :=
  if_pos (access_zero access)

/-- A pointer to the next table, for both kinds of access. -/
theorem descend_link {a size : Nat} {next : Nat → Option Nat} (ha : a % 4096 = 0) (hlt : a < 2 ^ 52) :
    descend (a ||| 3) access size iova next = next a := by
  unfold descend
  rw [tagged_flags ha (access_lt access), tagged_flags ha (by decide), tagged_address ha hlt (by decide)]
  cases access <;> rfl

/-- A device that the root or the context knows nothing of. -/
theorem translate_blocked {fetch : Nat → Nat} {root source : Nat} (h : fetch (root + 16 * (source / 256)) = 0 ∨
    fetch ((fetch (root + 16 * (source / 256)) &&& entryMask) + 16 * (source % 256)) = 0) :
      translate fetch root source iova access = none := by
  unfold translate
  dsimp only
  split
  · rfl
  rename_i hroot
  rcases h with h | h
  · rw [h] at hroot
    exact absurd (by decide) hroot
  · rw [h]
    rfl

theorem permits_zero (mode : Nat) (active : Option Nat) :
    permits P ⟨.zero, mode, active⟩ other source iova access = none := by
  refine translate_blocked (Or.inl ?_)
  have h := fetch_table (P := P) (t := .zero) other (n := 0) (i := 2 * (source.val / 256)) (by decide) (by omega)
  rw [Nat.zero_mul, Nat.add_zero, ← Nat.mul_assoc] at h
  exact h

/-- The context that the unit gets to for a device on the first bus. -/
theorem published_root (hroot : t.root = (publish P.address b P.arena).root) (hsource : source.val < 256) :
    fetch P.address t other (P.address + 16 * (source.val / 256)) = (P.address + 4096) ||| 1 := by
  have h := fetch_table (P := P) (t := t) other (n := 0) (i := 0) (by decide) (by decide)
  rw [Nat.div_eq_of_lt hsource]
  exact h.trans (congrFun hroot 0)

theorem published_root_other (hroot : t.root = (publish P.address b P.arena).root) (hsource : ¬ source.val < 256) :
    fetch P.address t other (P.address + 16 * (source.val / 256)) = 0 := by
  have h := fetch_table (P := P) (t := t) other (n := 0) (i := 2 * (source.val / 256)) (by decide) (by omega)
  rw [Nat.zero_mul, Nat.add_zero, ← Nat.mul_assoc] at h
  rw [h]
  exact (congrFun hroot _).trans (if_neg (by change ¬ 2 * (source.val / 256) = 0; omega))

variable (other) in
theorem fetch_context (hroot : t.root = (publish P.address b P.arena).root) (hsource : source.val < 256) (n : Nat)
    (hn : n < 2) :
    fetch P.address t other ((fetch P.address t other (P.address + 16 * (source.val / 256)) &&& entryMask) + 16 *
      (source.val % 256) + 8 * n) =
      t.context ⟨2 * source.val + n, by omega⟩ := by
  have haligned := P.address_aligned
  have hle := P.address_le
  rw [published_root hroot hsource, tagged_address (by omega) (by omega) (by decide), Nat.mod_eq_of_lt hsource]
  have h := fetch_table (P := P) (t := t) other (n := 1) (i := 2 * source.val + n) (by decide) (by omega)
  rw [show P.address + 4096 + 16 * source.val + 8 * n = P.address + 1 * 4096 + 8 * (2 * source.val + n) by omega]
  exact h

/-- Tables in which no context is present. -/
theorem permits_cut {s : Translation} (hroot : s.tables.root = (publish P.address b P.arena).root)
    (hcontext : ∀ i, i.val % 2 = 0 → s.tables.context i = 0) : permits P s other source iova access = none := by
  refine translate_blocked ?_
  by_cases hsource : source.val < 256
  · right
    have h := fetch_context other hroot hsource 0 (by decide)
    rw [Nat.mul_zero, Nat.add_zero] at h
    rw [h]
    exact hcontext _ (by change (2 * source.val + 0) % 2 = 0; omega)
  · exact Or.inl (published_root_other hroot hsource)

/-- The arena, as the device sees it. -/
def Platform.window (P : Platform) (iova : Nat) : Option Nat :=
  if sfDmaIova ≤ iova ∧ iova < sfDmaIova + sfDmaBytes then some (P.arena + (iova - sfDmaIova)) else none

/-- The walk of the three levels. -/
theorem published_walk (hiova : iova < 2 ^ 39) (ht : t = publish P.address b P.arena) :
    (descend (fetch P.address t other (P.address + 2 * 4096 + 8 * (iova / 2 ^ 30))) access (2 ^ 30) iova fun t2 =>
      descend (fetch P.address t other (t2 + 8 * (iova / 2 ^ 21 % 512))) access (2 ^ 21) iova fun t1 =>
        let e := fetch P.address t other (t1 + 8 * (iova / 2 ^ 12 % 512))
        if e &&& access.bit = 0 then none else some ((e &&& entryMask) + iova % 4096)) = P.window iova := by
  have haligned := P.address_aligned
  have hle := P.address_le
  have haligned' := P.arena_aligned
  have hle' := P.arena_le
  unfold tablesBytes at hle
  unfold sfDmaBytes at hle'
  have h3 : fetch P.address t other (P.address + 2 * 4096 + 8 * (iova / 2 ^ 30)) =
      if iova / 2 ^ 30 = 0 then (P.address + 3 * 4096) ||| 3 else 0 := by
    rw [fetch_table other (by decide) (by omega), ht]
    rfl
  have h2 : fetch P.address t other (P.address + 3 * 4096 + 8 * (iova / 2 ^ 21 % 512)) =
      if iova / 2 ^ 21 % 512 = 0x01000000 / 2 ^ 21 then (P.address + 4 * 4096) ||| 3 else 0 := by
    rw [fetch_table other (by decide) (by omega), ht]
    rfl
  have h1 : fetch P.address t other (P.address + 4 * 4096 + 8 * (iova / 2 ^ 12 % 512)) =
      if iova / 2 ^ 12 % 512 < 65536 / 4096 then (P.arena + iova / 2 ^ 12 % 512 * 4096) ||| 3 else 0 := by
    rw [fetch_table other (by decide) (by omega), ht]
    rfl
  unfold Platform.window sfDmaIova sfDmaBytes
  -- the first level reaches 1 GiB
  by_cases hlow : iova / 2 ^ 30 = 0
  swap
  · rw [h3, if_neg hlow, descend_zero, if_neg (by omega)]
  rw [h3, if_pos hlow, descend_link (by omega) (by omega)]
  -- the second the 2 MiB that begin with the arena
  by_cases hmid : iova / 2 ^ 21 % 512 = 0x01000000 / 2 ^ 21
  swap
  · rw [h2, if_neg hmid, descend_zero, if_neg (by omega)]
  rw [h2, if_pos hmid, descend_link (by omega) (by omega)]
  dsimp only
  by_cases hpage : iova / 2 ^ 12 % 512 < 65536 / 4096
  swap
  · rw [h1, if_neg hpage, if_pos (access_zero access), if_neg (by omega)]
  rw [h1, if_pos hpage, tagged_flags (by omega) (access_lt access), tagged_address (by omega) (by omega) (by decide),
    if_neg (by cases access <;> decide), if_pos (by omega)]
  exact congrArg some (by omega)

/-- **Published tables let one device use the arena, and nothing else.** -/
theorem permits_published (mode : Nat) (active : Option Nat) (hb : b < 256) :
    permits P ⟨publish P.address b P.arena, mode, active⟩ other source iova access = if source.val =
      b then P.window iova else none := by
  by_cases hsource : source.val < 256
  swap
  · rw [if_neg (by omega)]
    exact translate_blocked (Or.inl (published_root_other rfl hsource))
  have hlow := fetch_context (P := P) (t := publish P.address b P.arena) other rfl hsource 0 (by decide)
  have hhigh := fetch_context (P := P) (t := publish P.address b P.arena) other rfl hsource 1 (by decide)
  rw [Nat.mul_zero, Nat.add_zero] at hlow
  rw [Nat.mul_one] at hhigh
  by_cases hsb : source.val = b
  swap
  · rw [if_neg hsb]
    refine translate_blocked (Or.inr (hlow.trans ?_))
    simp only [publish]
    rw [if_neg (by omega), if_neg (by omega)]
  have haligned := P.address_aligned
  have hle := P.address_le
  unfold tablesBytes at hle
  have hcontext : (publish P.address b P.arena).context ⟨2 * source.val + 0, by omega⟩ = (P.address + 2 * 4096) ||| 1 :=
    if_pos (by change 2 * source.val + 0 = b * 2; omega)
  have hkind : (publish P.address b P.arena).context ⟨2 * source.val + 1, by omega⟩ = 0x101 :=
    (if_neg (by change ¬ 2 * source.val + 1 = b * 2; omega)).trans (if_pos (by change 2 * source.val + 1 = b * 2 + 1; omega))
  rw [if_pos hsb]
  unfold permits translate
  dsimp only
  rw [hlow, hhigh, hcontext, hkind, published_root rfl hsource, tagged_flags (by omega) (by decide),
    tagged_flags (by omega) (by decide),
    tagged_flags (by omega) (by decide), tagged_address (by omega) (by omega) (by decide), if_neg
      (by decide), if_neg (by decide)]
  by_cases hiova : 2 ^ 39 ≤ iova
  · rw [if_neg (by decide), if_pos hiova]
    unfold Platform.window sfDmaIova sfDmaBytes
    rw [if_neg (by omega)]
  · rw [if_neg (by decide), if_neg hiova]
    exact published_walk (by omega) rfl

/-! ### The tables as they are filled -/

theorem fillPages_eq (t : SfVtdTables) (physical n : Nat) : fillPages t physical n =
    { t with level1 := fun i => if i.val < n then (physical + i.val * 4096) ||| 3 else t.level1 i } := by
  induction n with
  | zero => rfl
  | succ n ih =>
    unfold fillPages at ih ⊢
    rw [List.range_succ, List.foldl_append, ih]
    simp only [List.foldl_cons, List.foldl_nil, SfVtdTables.mk.injEq, true_and]
    funext i
    unfold setEntry
    dsimp only
    by_cases hi : i.val = n
    · rw [if_pos hi, if_pos (by omega), hi]
    rw [if_neg hi]
    by_cases hlt : i.val < n
    · rw [if_pos hlt, if_pos (by omega)]
    · rw [if_neg hlt, if_neg (by omega)]

/-- What is refused leaves the tables as they are. -/
theorem sfVtdTables_refused {t : SfVtdTables} {address bdf physical : Nat}
    (h : (sfVtdTables t address bdf physical).1 ≠ 0) : (sfVtdTables t address bdf physical).2 = t := by
  unfold sfVtdTables at h ⊢
  split
  · rfl
  · rename_i hok
    rw [if_neg hok] at h
    exact absurd rfl h

/-- The assignments lead to the tables of `publish`, whatever was there before. -/
theorem sfVtdTables_eq {t : SfVtdTables} {address bdf physical : Nat}
    (h : (sfVtdTables t address bdf physical).1 = 0) :
    (sfVtdTables t address bdf physical).2 = publish address bdf physical := by
  unfold sfVtdTables at h ⊢
  split at h
  · exact absurd h (SfError.code_ne_zero .invalid)
  rename_i hok
  rw [if_neg hok]
  dsimp only
  rw [fillPages_eq]
  unfold publish
  congr 1
  funext i
  unfold setEntry
  dsimp only
  by_cases hi : i.val = bdf * 2
  · rw [if_neg (by omega), if_pos hi, if_pos hi]
  · rw [if_neg hi, if_neg hi]
    rfl

/-- Tables that are filled were asked for at addresses that can be used. -/
theorem platform_of_sfVtdTables {t : SfVtdTables} {address bdf physical : Nat}
    (h : (sfVtdTables t address bdf physical).1 = 0) :
    bdf < 256 ∧ ∃ P : Platform, P.address = address ∧ P.arena = physical := by
  unfold sfVtdTables at h
  split at h
  · exact absurd h (SfError.code_ne_zero .invalid)
  rename_i hok
  obtain ⟨hlow, ha, ha', hp, hp', hb⟩ := by simpa only [not_or, not_not, Nat.not_le, Nat.not_lt] using hok
  have halign : ∀ x, (x &&& (2 ^ 12 - 1) = 0) → x % 4096 = 0 := fun x hx => by rwa [Nat.and_two_pow_sub_one_eq_mod] at hx
  rw [Nat.and_or_distrib_right, Nat.or_eq_zero_iff] at hlow
  refine ⟨hb, ⟨address, physical, fun _ => false, halign _ hlow.1, ?_, halign _ hlow.2, ?_⟩, rfl, rfl⟩
  · omega
  · omega

/-- **The tables translate exactly the grant.** What is refused leaves the tables as they are. -/
theorem sfVtdTables_exact (t : SfVtdTables) (address bdf physical : Nat) :
    ((sfVtdTables t address bdf physical).1 ≠ 0 → (sfVtdTables t address bdf physical).2 = t) ∧
    ((sfVtdTables t address bdf physical).1 = 0 → ∀ other (source : Fin 65536) iova access,
      translate (fetch address (sfVtdTables t address bdf physical).2 other) address source iova access =
        if source.val = bdf ∧ sfDmaIova ≤ iova ∧ iova < sfDmaIova + sfDmaBytes then some (physical + (iova - sfDmaIova))
        else none) := by
  refine ⟨sfVtdTables_refused, fun h other source iova access => ?_⟩
  obtain ⟨hb, P, rfl, rfl⟩ := platform_of_sfVtdTables h
  rw [sfVtdTables_eq h]
  refine (permits_published 0 none hb).trans ?_
  by_cases hs : source.val = bdf <;> simp [Platform.window, hs]

end Walk

/-- Tables for device 40 are accepted, and it reaches the arena through them. -/
theorem sfVtdTables_exact_sample : (sfVtdTables .zero 0x300000 40 0x400000).1 = 0 ∧ ∀ other access,
    translate (fetch 0x300000 (sfVtdTables .zero 0x300000 40 0x400000).2 other) 0x300000 40 (sfDmaIova + 5) access =
      some 0x400005 := by
  have hok : (sfVtdTables .zero 0x300000 40 0x400000).1 = 0 := by decide
  exact ⟨hok, fun other access => (sfVtdTables_exact .zero 0x300000 40 0x400000).2 hok other 40 (sfDmaIova + 5) access⟩

/-! ## Runs -/

section Runs

variable {P : Platform} {s : Translation}

/-- The state after a grant or a revocation: what is in memory and what is known of it. -/
inductive Published (P : Platform) : Translation → Prop
  | nothing : Published P ⟨.zero, 1, none⟩
  | granted (b : Nat) (hb : b < 256) : Published P ⟨publish P.address b P.arena, 1, some b⟩
  /-- The invalidation of a grant has failed. -/
  | refused (b : Nat) (hb : b < 256) : Published P ⟨publish P.address b P.arena, 2, none⟩
  /-- The invalidation of a revocation has failed. -/
  | cut (b : Nat) (hb : b < 256) : Published P ⟨(publish P.address b P.arena).cut b, 2, some b⟩

theorem sfVtdTables_arena (t : SfVtdTables) {b : Nat} (hb : b < 256) :
    sfVtdTables t P.address b P.arena = (0, publish P.address b P.arena) := by
  have h₁ := P.address_le
  have h₂ := P.arena_le
  have halign : ∀ a, a % 4096 = 0 → a &&& 4095 = 0 := fun a ha =>
    Bits.and_eq_zero (n := 12) (by decide) (Nat.dvd_of_mod_eq_zero ha)
  have hzero : (P.address ||| P.arena) &&& 4095 = 0 := by
    rw [Nat.and_or_distrib_right, halign _ P.address_aligned, halign _ P.arena_aligned, Nat.or_zero]
  have hok : (sfVtdTables t P.address b P.arena).1 = 0 := by
    unfold sfVtdTables
    unfold tablesBytes at h₁ ⊢
    unfold sfDmaBytes at h₂ ⊢
    rw [if_neg (by rw [hzero]; omega)]
  exact Prod.ext hok (sfVtdTables_eq hok)

/-- A grant when nothing is granted. -/
theorem iommuGrant_nothing (bdf : Nat) (done : Bool) :
    iommuGrant P ⟨.zero, 1, none⟩ bdf P.arena done =
      if 256 ≤ bdf ∨ P.covered bdf = false then (.error .denied, ⟨.zero, 1, none⟩)
      else if done then (.ok sfDmaIova, ⟨publish P.address bdf P.arena, 1, some bdf⟩)
      else (.error .deviceGone, ⟨publish P.address bdf P.arena, 2, none⟩) := by
  unfold iommuGrant
  dsimp only
  rw [if_neg (by decide), if_neg (by decide)]
  refine ite_congr rfl (fun _ => rfl) fun hbdf => ?_
  rw [sfVtdTables_arena _ (by omega), if_neg (not_not.2 rfl)]
  cases done <;> rfl

/-- A revocation when `b` is granted. -/
theorem iommuRevoke_granted (t : SfVtdTables) (b bdf : Nat) (done : Bool) :
    iommuRevoke ⟨t, 1, some b⟩ bdf done =
      if b ≠ bdf then (.error .denied, ⟨t, 1, some b⟩)
      else if done then (.ok (), ⟨.zero, 1, none⟩) else (.error .deviceGone, ⟨t.cut bdf, 2, some b⟩) := by
  unfold iommuRevoke
  dsimp only
  rw [if_neg (by decide), if_neg (by decide)]
  refine ite_congr rfl (fun _ => rfl) fun _ => ?_
  cases done <;> rfl

theorem Published.grant (h : Published P s) (bdf : Nat) (done : Bool) : Published P (iommuGrant P s bdf P.arena done).2 := by
  cases h with
  | nothing =>
    rw [iommuGrant_nothing]
    split
    · exact .nothing
    rename_i hbdf
    cases done with
    | false => exact .refused bdf (by omega)
    | true => exact .granted bdf (by omega)
  | granted b hb => exact .granted b hb
  | refused b hb => exact .refused b hb
  | cut b hb => exact .cut b hb

theorem Published.revoke (h : Published P s) (bdf : Nat) (done : Bool) : Published P (iommuRevoke s bdf done).2 := by
  cases h with
  | nothing => exact .nothing
  | granted b hb =>
    rw [iommuRevoke_granted]
    split
    · exact .granted b hb
    rename_i hbdf
    obtain rfl := not_not.1 hbdf
    cases done with
    | false => exact .cut b hb
    | true => exact .nothing
  | refused b hb => exact .refused b hb
  | cut b hb => exact .cut b hb

theorem Published.step (h : Published P s) (call : Call) : Published P (step P s call) := by
  cases call with
  | grant bdf done => exact h.grant bdf done
  | revoke bdf done => exact h.revoke bdf done

theorem published_run (calls : List Call) : Published P (run P calls) :=
  Fold.keeps (I := Published P) calls (fun _ call _ h => h.step call) .nothing

theorem permits_cut_published {b mode : Nat} {active : Option Nat} {other : Nat → Nat} {source : Fin 65536}
    {iova : Nat} {access : Access} :
    permits P ⟨(publish P.address b P.arena).cut b, mode, active⟩ other source iova access = none := by
  refine permits_cut (b := b) rfl fun i hi => ?_
  unfold SfVtdTables.cut
  dsimp only
  split
  · rfl
  · rename_i hne
    exact (if_neg hne).trans (if_neg (by omega))

/-- The unit stays in use for as long as it answers. -/
theorem Published.mode_step (h : Published P s) (call : Call) :
    (Vtd.step P s call).mode = 1 ↔ s.mode = 1 ∧ (call.Invalidates P s → call.done = true) := by
  have hgone : ¬ 2 = 1 := by decide
  cases h with
  | nothing =>
    cases call with
    | revoke bdf done => exact iff_of_true rfl ⟨rfl, nofun⟩
    | grant bdf done =>
      unfold Vtd.step Call.Invalidates
      dsimp only
      rw [iommuGrant_nothing]
      split
      · rename_i hbdf
        refine iff_of_true rfl ⟨rfl, fun hask => ?_⟩
        rcases hbdf with hbdf | hbdf
        · omega
        · exact absurd (hask.2.2.2.symm.trans hbdf) (by decide)
      rename_i hbdf
      cases done with
      | true => exact iff_of_true rfl ⟨rfl, fun _ => rfl⟩
      | false =>
        refine iff_of_false hgone fun h => ?_
        cases h.2 ⟨rfl, rfl, by omega, by simpa using fun hc => hbdf (Or.inr hc)⟩
  | granted b hb =>
    cases call with
    | grant bdf done => exact iff_of_true rfl ⟨rfl, nofun⟩
    | revoke bdf done =>
      unfold Vtd.step Call.Invalidates
      dsimp only
      rw [iommuRevoke_granted]
      split
      · rename_i hne
        exact iff_of_true rfl ⟨rfl, fun hask => absurd (Option.some.inj hask.2) hne⟩
      rename_i hbdf
      obtain rfl := not_not.1 hbdf
      cases done with
      | true => exact iff_of_true rfl ⟨rfl, fun _ => rfl⟩
      | false => exact iff_of_false hgone fun h => by cases h.2 ⟨rfl, rfl⟩
  | refused b hb | cut b hb => cases call <;> exact iff_of_false hgone fun h => hgone h.1

theorem mode_run (calls : List Call) (h : Published P s) :
    (calls.foldl (Vtd.step P) s).mode = 1 ↔ s.mode = 1 ∧ Answered P s calls := by
  induction calls generalizing s with
  | nil => exact (and_iff_left trivial).symm
  | cons call calls ih =>
    rw [List.foldl_cons, ih (h.step call), h.mode_step call, and_assoc]
    rfl

/-- A failed grant either changes nothing or has failed at the invalidation. -/
theorem iommuGrant_error {bdf : Nat} {done : Bool} {e : SfError} {s' : Translation}
    (h : iommuGrant P s bdf P.arena done = (.error e, s')) (hdone : (Call.grant bdf done).Invalidates P s → done = true) :
    s' = s := by
  unfold iommuGrant at h
  split at h
  · cases h
  split at h
  · cases h
    rfl
  rename_i hmode
  split at h
  · cases h
    rfl
  rename_i hbdf
  dsimp only at h
  split at h
  · rename_i hrefused
    cases h
    rw [sfVtdTables_refused hrefused]
  obtain rfl : done = true := hdone ⟨by tauto, by tauto, by omega, by simpa using fun hc => hbdf (Or.inr hc)⟩
  cases h

/-- What the tables let through is what has been granted. A grant that fails changes nothing, so no device has a
mapping after it unless one had been granted before. -/
structure Follows (P : Platform) (s : Translation) : Prop where
  idle : iommuActive s = 0 → ∀ other source iova access, permits P s other source iova access = none
  active : ∀ b, s.activeBdf = some b → ∀ other source iova access,
    permits P s other source iova access = if source.val = b then P.window iova else none
  failed : ∀ bdf done e s', ((Call.grant bdf done).Invalidates P s → done = true) →
    iommuGrant P s bdf P.arena done = (.error e, s') →
    s' = s ∧ (iommuActive s = 0 → ∀ other source iova access, permits P s' other source iova access = none)

theorem follows_iff (h : Published P s) : Follows P s ↔ s.mode = 1 := by
  cases h with
  | nothing =>
    refine iff_of_true ⟨fun _ other source iova access => permits_zero 1 none, nofun, ?_⟩ rfl
    intro bdf done e s' hdone hr
    obtain rfl := iommuGrant_error hr hdone
    exact ⟨rfl, fun _ other source iova access => permits_zero 1 none⟩
  | granted b hb =>
    refine iff_of_true ⟨nofun, fun b' hb' other source iova access => ?_, fun bdf done e s' hdone hr => ?_⟩ rfl
    · obtain rfl := Option.some.inj hb'
      exact permits_published 1 _ hb
    · exact ⟨iommuGrant_error hr hdone, nofun⟩
  | refused b hb =>
    -- the tables of the refused grant are still in memory
    refine iff_of_false (fun hf => ?_) (show ¬ 2 = 1 by decide)
    have hnone := hf.idle rfl (fun _ => 0) ⟨b, by omega⟩ sfDmaIova .read
    rw [permits_published 2 none hb, if_pos rfl] at hnone
    cases hnone
  | cut b hb =>
    -- the grant is still active and its context entry is gone
    refine iff_of_false (fun hf => ?_) (show ¬ 2 = 1 by decide)
    have hsome := hf.active b rfl (fun _ => 0) ⟨b, by omega⟩ sfDmaIova .read
    rw [permits_cut_published, if_pos rfl] at hsome
    cases hsome

/-- **The tables are those of the active grant exactly as long as every invalidation is answered.** -/
theorem tables_follow_grants (calls : List Call) : Follows P (run P calls) ↔ Answered P .initialised calls :=
  (follows_iff (published_run calls)).trans ((mode_run calls .nothing).trans (and_iff_right rfl))

/-- Whatever fails, only one device gets through, and only to the arena. -/
theorem tables_confined (calls : List Call) :
    ∃ b, ∀ other source iova access p, permits P (run P calls) other source iova access = some p →
    source.val = b ∧ P.window iova = some p := by
  have hp := published_run (P := P) calls
  generalize run P calls = s at hp
  cases hp with
  | nothing =>
    refine ⟨0, fun other source iova access p h => ?_⟩
    rw [permits_zero] at h
    cases h
  | granted b hb | refused b hb =>
    refine ⟨b, fun other source iova access p h => ?_⟩
    rw [permits_published _ _ hb] at h
    split at h
    · exact ⟨by assumption, h⟩
    · cases h
  | cut b hb =>
    refine ⟨b, fun other source iova access p h => ?_⟩
    rw [permits_cut_published] at h
    cases h

end Runs

/-! ## The kernel's view -/

section Kernel

variable {P : Platform} {s : Translation} {k : Core.Kernel}

/-- What the rest of the kernel keeps of the unit. -/
def Translation.iommu (P : Platform) (s : Translation) : Core.Iommu := ⟨s.mode, s.activeBdf, P.covered⟩

/-- The unit answers an invalidation when the next word of the hardware is 0. -/
def answered (k : Core.Kernel) : Bool := k.hw.headD 0 = 0

theorem iommuInvalidate_view (k : Core.Kernel) : ∃ k', Core.iommuInvalidate k = (answered k, k') ∧
    k'.iommu = if answered k then k.iommu else { k.iommu with mode := 2 } := by
  unfold Core.iommuInvalidate answered Core.Kernel.hwRead
  dsimp only
  split <;> simp_all

/-- **The kernel model's grant is this one**, without the tables. -/
theorem iommuGrant_view (hk : k.iommu = s.iommu P) (bdf : Nat) :
    (Core.iommuGrant k bdf P.arena).1 = (iommuGrant P s bdf P.arena (answered k)).1 ∧
    (Core.iommuGrant k bdf P.arena).2.iommu = (iommuGrant P s bdf P.arena (answered k)).2.iommu P := by
  obtain ⟨k', hi, hiommu⟩ := iommuInvalidate_view k
  unfold Core.iommuGrant iommuGrant
  simp only [hk, Translation.iommu]
  split
  · exact ⟨rfl, hk⟩
  split
  · exact ⟨rfl, hk⟩
  split
  · exact ⟨rfl, hk⟩
  rename_i hbdf
  rw [sfVtdTables_arena _ (by omega), if_neg (not_not.2 rfl), hi]
  cases hdone : answered k <;> rw [hdone] at hiommu
  · exact ⟨rfl, hiommu.trans (by rw [hk]; rfl)⟩
  refine ⟨rfl, ?_⟩
  change ({ k'.iommu with activeBdf := some bdf } : Core.Iommu) = _
  rw [hiommu, hk]
  rfl

theorem iommuRevoke_view (hk : k.iommu = s.iommu P) (bdf : Nat) :
    ((Core.iommuRevoke k bdf).1 = true ↔ (iommuRevoke s bdf (answered k)).1 = .ok ()) ∧
    (Core.iommuRevoke k bdf).2.iommu = (iommuRevoke s bdf (answered k)).2.iommu P := by
  obtain ⟨k', hi, hiommu⟩ := iommuInvalidate_view k
  unfold Core.iommuRevoke iommuRevoke
  simp only [hk, Translation.iommu]
  split
  · exact ⟨by simp, hk⟩
  split
  · exact ⟨by simp, hk⟩
  cases hb : s.activeBdf with
  | none => exact ⟨by simp, hk⟩
  | some b =>
    dsimp only
    split
    · exact ⟨by simp, hk⟩
    rw [hi]
    cases hdone : answered k <;> rw [hdone] at hiommu
    · exact ⟨by simp [invalidate], hiommu.trans (by rw [hk]; simp [Translation.iommu, invalidate, hb])⟩
    refine ⟨by simp [invalidate], ?_⟩
    change ({ k'.iommu with activeBdf := none } : Core.Iommu) = _
    rw [hiommu, hk]
    rfl

end Kernel

/-! ## A sample -/

def samplePlatform : Platform where
  address := 0x300000
  arena := 0x500000
  covered bdf := bdf = 40
  address_aligned := by decide
  address_le := by decide
  arena_aligned := by decide
  arena_le := by decide

/-- **A grant whose invalidation is not answered fails with its tables in place**, and no grant is active. A revocation whose
invalidation is not answered leaves a grant active that the tables no longer have. A grant that is refused because
another one is active leaves that one mapped. -/
theorem failed_grant_leaves_tables :
    (iommuGrant samplePlatform .initialised 40 samplePlatform.arena false).1 = .error .deviceGone ∧
    iommuActive (run samplePlatform [.grant 40 false]) = 0 ∧
    (∀ other access, permits samplePlatform (run samplePlatform [.grant 40 false]) other 40 sfDmaIova access =
      some samplePlatform.arena) ∧
    (run samplePlatform [.grant 40 true, .revoke 40 false]).activeBdf = some 40 ∧
    (∀ other access, permits samplePlatform
      (run samplePlatform [.grant 40 true, .revoke 40 false]) other 40 sfDmaIova access = none) ∧
    (iommuGrant samplePlatform (run samplePlatform [.grant 40 true]) 41 samplePlatform.arena true).1 =
      .error .deviceGone ∧
    ∀ other access, permits samplePlatform (run samplePlatform [.grant 40 true, .grant 41 true]) other 40 sfDmaIova access =
      some samplePlatform.arena := by
  have hgrant : step samplePlatform .initialised (.grant 40 true) =
      ⟨publish samplePlatform.address 40 samplePlatform.arena, 1, some 40⟩ :=
    congrArg Prod.snd (iommuGrant_nothing (P := samplePlatform) 40 true)
  have hrefused : step samplePlatform .initialised (.grant 40 false) =
      ⟨publish samplePlatform.address 40 samplePlatform.arena, 2, none⟩ :=
    congrArg Prod.snd (iommuGrant_nothing (P := samplePlatform) 40 false)
  refine ⟨rfl, rfl, fun other access => ?_, rfl, fun other access => ?_, rfl, fun other access => ?_⟩
  · rw [run, List.foldl_cons, hrefused]
    exact (permits_published 2 none (by decide)).trans rfl
  · rw [run, List.foldl_cons, hgrant]
    exact permits_cut_published
  · rw [run, List.foldl_cons, hgrant]
    exact (permits_published 1 (some 40) (by decide)).trans rfl

end SpiritFox.Vtd
