import SpiritFox.Package.Image

/-!
# Exact images

What `sf_native_image` leaves in the buffer, byte for byte. The loader is run here statement by statement on the
caller's plan and on memory, so that a return in the middle would show.

- `runNativeImage_eq`: the run computes `sfNativeImage`, and a failing one has changed nothing;
- `place_layout`: the second loop writes the file bytes of each section, and zeros up to its last page;
- `relocationsOk_records`, `relocate_stores`: the third loop is one store for each record of the table, and no two
of them meet.

The main result is `image_exact`.
-/

namespace SpiritFox.Package

open ByteMem Checks Proc List

open SpiritFox.Core (SfLoadPlan SfLoadSegment)

/-! ## The loader on its state -/

/-- A statement of the loader: it works on the plan of the caller and on memory. -/
abbrev Loader := Proc (SfLoadPlan × Mem) SfError

/-- `plan->segments[plan->count++] = x` -/
def append (plan : SfLoadPlan) (x : SfLoadSegment) : SfLoadPlan :=
  { plan with
    count := plan.count + 1
    segments := plan.segments.take plan.count ++ x :: plan.segments.drop (plan.count + 1) }

/-- The second loop. -/
def runPlace (data : List UInt8) (buffer : Nat) : List SfSection → Nat → Loader Unit
  | [], _ => pure ()
  | s :: rest, used =>
    if s.mapped = false then runPlace data buffer rest used
    else do
      update fun (plan, m) => (plan, clear m (buffer + used) s.pages)
      update fun (plan, m) => (plan, blit m (buffer + used) ((data.drop s.offset).take s.bytes))
      update fun (plan, m) => (append plan ⟨s.rva, s.memory, buffer + used, s.flags, 0⟩, m)
      runPlace data buffer rest (used + s.pages)

/-- The third loop. -/
def runRelocate (base : Nat) : Nat → List UInt8 → Loader Unit
  | 0, _ => pure ()
  | n + 1, r => do
    update fun (plan, m) => (plan, match relocated (plan.segments.take plan.count) (sfU64 r) with
      | none => m
      | some s => store m (s.data + sfU64 r - s.rva) 8 ((base + sfU64 (r.drop 8)) % 2 ^ 64))
    runRelocate base n (r.drop 16)

/-- `sf_native_image`, with what it leaves at every return. -/
def runNativeImage (p : SfPackage) (base buffer capacity : Nat) : Loader Unit :=
  if Core.imageBaseValid base = false ∨ (base = 0 ∧ p.nativeProfile ≠ 0) then fail .invalid
  else
    let base := if base = 0 then sfBase else base
    if p.nativeProfile = 1 ∧ base < sfPieMin then fail .invalid
    else if (p.nativeProfile = 0 ∧ base ≠ sfBase) ∨ (sfNativeRelocationsValidate p).isOk = false then fail .badFormat
    else match preflight p.data.length capacity p.sections 0 0 with
      | .error e => fail e
      | .ok count =>
        if count = 0 then fail .badFormat
        else do
          update fun (plan, m) => ({ plan with count := 0, entry := p.entry, imageBase := base }, m)
          runPlace p.data buffer p.sections 0
          runRelocate base p.relocationCount (p.data.drop p.relocationOffset)

/-- The plan with these segments at the front of its table. -/
def filled (plan : SfLoadPlan) (xs : List SfLoadSegment) : SfLoadPlan :=
  { plan with count := xs.length, segments := xs ++ plan.segments.drop xs.length }

theorem append_filled (plan : SfLoadPlan) (xs : List SfLoadSegment) (x : SfLoadSegment) :
    append (filled plan xs) x = filled plan (xs ++ [x]) := by
  have hdrop : (xs ++ plan.segments.drop xs.length).drop (xs.length + 1) = plan.segments.drop (xs.length + 1) := by
    rw [← drop_drop, drop_left, drop_drop]
  simp only [append, filled, take_left, hdrop, length_append, length_singleton, append_assoc,
    singleton_append]

theorem runPlace_eq (data : List UInt8) (buffer : Nat) (plan : SfLoadPlan) : ∀ (sections : List SfSection) (used : Nat)
    (xs : List SfLoadSegment) (m : Mem), runPlace data buffer sections used (filled plan xs, m) =
      (.ok (), filled plan (xs ++ (place data buffer sections used m).1), (place data buffer sections used m).2)
  | [], used, xs, m => by
    rw [place, append_nil]
    rfl
  | s :: rest, used, xs, m => by
    rw [runPlace, place]
    split
    · exact runPlace_eq data buffer plan rest used xs m
    have hrest := runPlace_eq data buffer plan rest (used + s.pages) (xs ++ [⟨s.rva, s.memory, buffer + used, s.flags, 0⟩])
      (blit (clear m (buffer + used) s.pages) (buffer + used) ((data.drop s.offset).take s.bytes))
    rw [← append_filled, append_assoc, singleton_append] at hrest
    exact hrest

theorem runRelocate_eq (base : Nat) (plan : SfLoadPlan) : ∀ (n : Nat) (r : List UInt8) (m : Mem),
    runRelocate base n r (plan, m) = (.ok (), plan, relocate (plan.segments.take plan.count) base n r m)
  | 0, _, _ => rfl
  | n + 1, r, _ => runRelocate_eq base plan n (r.drop 16) _

/-- **The loader writes only after its last check.** -/
theorem runNativeImage_eq (p : SfPackage) (base buffer capacity : Nat) (plan : SfLoadPlan) (m : Mem) :
    runNativeImage p base buffer capacity (plan, m) = match sfNativeImage p base buffer capacity plan m with
      | .ok s => (.ok (), s)
      | .error e => (.error e, plan, m) := by
  unfold runNativeImage sfNativeImage
  by_cases hbase : Core.imageBaseValid base = false ∨ (base = 0 ∧ p.nativeProfile ≠ 0)
  · simp only [if_pos hbase]
    rfl
  simp only [if_neg hbase]
  generalize (if base = 0 then sfBase else base) = base'
  split
  · rfl
  split
  · rfl
  cases preflight p.data.length capacity p.sections 0 0 with
  | error e => rfl
  | ok count =>
    dsimp only
    by_cases hcount : count = 0
    · rw [if_pos hcount]
      subst hcount
      rfl
    rw [if_neg hcount]
    have hplace := runPlace_eq p.data buffer { plan with entry := p.entry, imageBase := base' } p.sections 0 [] m
    rw [nil_append] at hplace
    have hrelocate := runRelocate_eq base'
      (filled { plan with entry := p.entry, imageBase := base' } (place p.data buffer p.sections 0 m).1)
      p.relocationCount (p.data.drop p.relocationOffset) (place p.data buffer p.sections 0 m).2
    have hfront : (filled { plan with entry := p.entry, imageBase := base' }
      (place p.data buffer p.sections 0 m).1).segments.take
        (place p.data buffer p.sections 0 m).1.length = (place p.data buffer p.sections 0 m).1 := take_left
    change _ = (_, _, relocate (take (place p.data buffer p.sections 0 m).1.length _) _ _ _ _) at hrelocate
    rw [hfront] at hrelocate
    refine ((run_bind hplace).trans hrelocate).trans ?_
    simp only [bind, Except.bind, if_neg hcount]
    rfl

/-! ## The layout -/

/-- A mapped section, and where it starts in the buffer. -/
structure Part extends SfSection where
  start : Nat

/-- The mapped sections one after another, each on whole pages. -/
def layoutFrom : Nat → List SfSection → List Part
  | _, [] => []
  | used, s :: rest => if s.mapped = false then layoutFrom used rest else ⟨s, used⟩ :: layoutFrom (used + s.pages) rest

def SfPackage.layout (p : SfPackage) : List Part := layoutFrom 0 p.sections

def Part.segment (buffer : Nat) (x : Part) : SfLoadSegment := ⟨x.rva, x.memory, buffer + x.start, x.flags, 0⟩

variable {x : Part}

/-- A byte of a section before relocation: from the file, and zero behind its end. -/
def SfSection.fileByte (data : List UInt8) (s : SfSection) (i : Nat) : UInt8 :=
  if i < s.bytes then data.getD (s.offset + i) 0 else 0

theorem layoutFrom_sections : ∀ (used : Nat) (sections : List SfSection),
    (layoutFrom used sections).map Part.toSfSection = sections.filter SfSection.mapped
  | _, [] => rfl
  | used, s :: rest => by
    rw [layoutFrom]
    by_cases hs : s.mapped = false
    · rw [if_pos hs, filter_cons_of_neg (by simp [hs]), layoutFrom_sections used rest]
    · rw [if_neg hs, filter_cons_of_pos (by simpa using hs), map_cons, layoutFrom_sections (used + s.pages) rest]

theorem layoutFrom_consecutive {after : List Part} : ∀ {sections : List SfSection} {used : Nat}
    {before : List Part},
    layoutFrom used sections = before ++ x :: after → x.start = used + (before.map fun y => y.pages).sum
  | [], _, before, h => by simp [layoutFrom] at h
  | s :: rest, used, before, h => by
    rw [layoutFrom] at h
    split at h
    · exact layoutFrom_consecutive h
    cases before with
    | nil =>
      obtain ⟨rfl, -⟩ := cons.inj h
      rfl
    | cons y before =>
      obtain ⟨rfl, hrest⟩ := cons.inj h
      rw [layoutFrom_consecutive hrest, map_cons, sum_cons, Nat.add_assoc]

theorem le_start : ∀ {sections : List SfSection} {used : Nat}, x ∈ layoutFrom used sections → used ≤ x.start
  | [], _, h => nomatch h
  | s :: rest, used, h => by
    rw [layoutFrom] at h
    split at h
    · exact le_start h
    rcases mem_cons.1 h with rfl | h
    · exact Nat.le_refl used
    · have := le_start h
      omega

theorem layoutFrom_apart : ∀ (sections : List SfSection) (used : Nat),
    (layoutFrom used sections).Pairwise fun x y => x.start + x.pages ≤ y.start
  | [], _ => .nil
  | s :: rest, used => by
    rw [layoutFrom]
    split
    · exact layoutFrom_apart rest used
    · exact pairwise_cons.2 ⟨fun y hy => le_start hy, layoutFrom_apart rest (used + s.pages)⟩

/-- The first loop has found room for every part. -/
theorem preflight_layout {bytes capacity n : Nat} : ∀ {sections : List SfSection} {used count : Nat}, used ≤ capacity →
    preflight bytes capacity sections used count = .ok n →
    ∀ x ∈ layoutFrom used sections, x.bytes ≤ x.pages ∧ x.start + x.pages ≤ capacity
  | [], _, _, _, _, _, hx => nomatch hx
  | s :: rest, used, count, hused, h, x, hx => by
    rw [preflight] at h
    rw [layoutFrom] at hx
    split at hx
    · rename_i hs
      rw [if_pos hs] at h
      exact preflight_layout hused h x hx
    · rename_i hs
      rw [if_neg hs, guard_eq_ok] at h
      obtain ⟨hroom, hrest⟩ := h
      rcases mem_cons.1 hx with rfl | hx
      · unfold SfSection.pages at *
        dsimp only
        omega
      · exact preflight_layout (by omega) hrest x hx

theorem place_segment (data : List UInt8) (buffer : Nat) : ∀ (sections : List SfSection) (used : Nat) (m : Mem),
    (place data buffer sections used m).1 = (layoutFrom used sections).map (Part.segment buffer)
  | [], _, _ => rfl
  | s :: rest, used, m => by
    rw [place, layoutFrom]
    split
    · exact place_segment data buffer rest used m
    · exact congrArg _ (place_segment data buffer rest (used + s.pages) _)

/-- One round of the second loop, in the part that it writes. -/
theorem placed_byte (data : List UInt8) (s : SfSection) (m : Mem) (a : Nat) {i : Nat} (hi : i < s.pages) :
    blit (clear m a s.pages) a ((data.drop s.offset).take s.bytes) (a + i) = s.fileByte data i := by
  unfold SfSection.fileByte
  have hlength : ((data.drop s.offset).take s.bytes).length = min s.bytes (data.length - s.offset) := by
    rw [length_take, length_drop]
  by_cases hfile : i < ((data.drop s.offset).take s.bytes).length
  · have hbytes : i < s.bytes := by omega
    rw [blit_of_mem hfile, if_pos hbytes]
    simp [getD_eq_getElem?_getD, getElem?_drop, hbytes]
  · rw [blit_of_lt (by omega)]
    have hclear : clear m a s.pages (a + i) = 0 := if_pos (by omega)
    rw [hclear]
    split
    · rw [getD_eq_default _ _ (by omega)]
    · rfl

theorem placed_outside {data : List UInt8} {s : SfSection} (h : s.bytes ≤ s.pages) (m : Mem) {a b : Nat}
    (hb : b < a ∨ a + s.pages ≤ b) : blit (clear m a s.pages) a ((data.drop s.offset).take s.bytes) b = m b := by
  have hlength : ((data.drop s.offset).take s.bytes).length ≤ s.bytes := length_take_le _ _
  rw [blit_of_lt (by omega)]
  exact if_neg (by omega)

/-- **The second loop writes the file bytes and zeros into every part, and nothing else.** -/
theorem place_layout (data : List UInt8) (buffer : Nat) : ∀ {sections : List SfSection} {used : Nat} (m : Mem),
    (∀ x ∈ layoutFrom used sections, x.bytes ≤ x.pages) →
    (∀ x ∈ layoutFrom used sections, ∀ i < x.pages,
      (place data buffer sections used m).2 (buffer + x.start + i) = x.fileByte data i) ∧
    ∀ b, (∀ x ∈ layoutFrom used sections, b < buffer + x.start ∨ buffer + x.start + x.pages ≤ b) →
      (place data buffer sections used m).2 b = m b
  | [], _, _, _ => ⟨nofun, fun _ _ => rfl⟩
  | s :: rest, used, m, hbytes => by
    rw [layoutFrom] at hbytes ⊢
    rw [place]
    split at hbytes
    · rename_i hs
      simp only [if_pos hs]
      exact place_layout data buffer m hbytes
    · rename_i hs
      simp only [if_neg hs]
      obtain ⟨hfirst, hrest⟩ := forall_mem_cons.1 hbytes
      obtain ⟨hin, hout⟩ := place_layout data buffer
        (blit (clear m (buffer + used) s.pages) (buffer + used) ((data.drop s.offset).take s.bytes)) hrest
      refine ⟨forall_mem_cons.2 ⟨fun i hi => ?_, hin⟩, fun b hb => ?_⟩
      · have hi : i < s.pages := hi
        refine (hout _ fun x hx => .inl ?_).trans (placed_byte data s m (buffer + used) hi)
        have := le_start hx
        dsimp only
        omega
      · obtain ⟨hbs, hbrest⟩ := forall_mem_cons.1 hb
        exact (hout b hbrest).trans (placed_outside hfirst m hbs)

/-! ## The records -/

/-- A record of the relocation table. -/
structure Record where
  target : Nat
  addend : Nat

def recordsFrom : Nat → List UInt8 → List Record
  | 0, _ => []
  | n + 1, r => ⟨sfU64 r, sfU64 (r.drop 8)⟩ :: recordsFrom n (r.drop 16)

def SfPackage.records (p : SfPackage) : List Record := recordsFrom p.relocationCount (p.data.drop p.relocationOffset)

/-- The address is one of the eight that the record sets. -/
def Record.Covers (r : Record) (rva : Nat) : Prop := r.target ≤ rva ∧ rva < r.target + 8

/-- A record that the package code accepts, after a target. -/
structure Record.Ok (sections : List SfSection) (previous : Option Nat) (r : Record) : Prop where
  aligned : r.target % 8 = 0
  later : ∀ t ∈ previous, t < r.target
  addend : r.addend < sfImageMax
  word : ∃ s ∈ sections, s.holdsWord r.target = true

/-- What the check of the table establishes. -/
theorem relocationsOk_records {sections : List SfSection} : ∀ {n : Nat} {previous : Option Nat} {r : List UInt8},
    relocationsOk sections n previous r = true →
    (∀ x ∈ recordsFrom n r, x.Ok sections previous) ∧ (recordsFrom n r).Pairwise fun x y => x.target < y.target
  | 0, _, _, _ => ⟨nofun, .nil⟩
  | n + 1, previous, r, h => by
    rw [relocationsOk] at h
    split_ifs at h with hfields hheld
    obtain ⟨hall, hpair⟩ := relocationsOk_records h
    obtain ⟨haligned, hlater, haddend⟩ := not_or.1 hfields |>.imp_right not_or.1
    have hnext : ∀ t ∈ previous, t < sfU64 r := by
      intro t ht
      obtain rfl := ht
      simpa using hlater
    refine ⟨forall_mem_cons.2 ⟨⟨not_not.1 haligned, hnext, Nat.lt_of_not_le haddend, ?_⟩, fun x hx => ?_⟩,
      pairwise_cons.2 ⟨fun x hx => (hall x hx).later _ rfl, hpair⟩⟩
    · exact any_eq_true.1 (Bool.eq_true_of_not_eq_false (not_or.1 hheld).1)
    · have hx' := hall x hx
      exact ⟨hx'.aligned, fun t ht => Nat.lt_trans (hnext t ht) (hx'.later _ rfl), hx'.addend, hx'.word⟩

/-- A package whose relocations pass the check: without the profile it has none, and otherwise their words do not meet. -/
theorem validate_records {p : SfPackage} (h : sfNativeRelocationsValidate p = .ok ()) :
    (∀ r ∈ p.records, r.Ok p.sections none) ∧ p.records.Pairwise fun x y => x.target + 8 ≤ y.target := by
  unfold sfNativeRelocationsValidate at h
  obtain ⟨-, h⟩ := guard_eq_ok.1 h
  split at h
  · obtain ⟨hnone, -⟩ := guard_eq_ok.1 h
    have hcount : p.relocationCount = 0 := by omega
    unfold SfPackage.records
    rw [hcount]
    exact ⟨nofun, .nil⟩
  · obtain ⟨-, h⟩ := guard_eq_ok.1 h
    obtain ⟨hok, -⟩ := guard_eq_ok.1 h
    obtain ⟨hall, hsorted⟩ := relocationsOk_records (Bool.eq_true_of_not_eq_false hok)
    refine ⟨hall, hsorted.imp_of_mem fun hx hy hlt => ?_⟩
    have hx8 := (hall _ hx).aligned
    have hy8 := (hall _ hy).aligned
    omega

/-! ## The stores -/

/-- The word of the record is in this part, which can be written. -/
structure Part.Holds (x : Part) (r : Record) : Prop where
  writable : x.flags = 3
  first : x.rva ≤ r.target
  last : r.target + 8 ≤ x.rva + x.memory

/-- Where the word of a record is in memory. -/
def Part.slot (buffer : Nat) (x : Part) (r : Record) : Nat := buffer + x.start + (r.target - x.rva)

/-- The store that applies a record. -/
def Applied (base buffer : Nat) (parts : List Part) (r : Record) (w : Nat × Nat) : Prop :=
  ∃ x ∈ parts, x.Holds r ∧ w = (x.slot buffer r, base + r.addend)

/-- No two parts hold the same word. -/
def Single (parts : List Part) : Prop := ∀ r, ∀ x ∈ parts, ∀ y ∈ parts, x.Holds r → y.Holds r → x = y

/-- The search among the segments finds the part with the word. -/
theorem relocated_eq {parts : List Part} (hsingle : Single parts) {r : Record} (hx : x ∈ parts) (hr : x.Holds r)
    (buffer : Nat) : relocated (parts.map (Part.segment buffer)) r.target = some (x.segment buffer) := by
  unfold relocated
  have htest : ∀ y : Part, decide ((y.segment buffer).flags = 3 ∧ (y.segment buffer).rva ≤ r.target ∧
      r.target - (y.segment buffer).rva ≤ (y.segment buffer).bytes ∧
      8 ≤ (y.segment buffer).bytes - (r.target - (y.segment buffer).rva)) = true ↔ y.Holds r := by
    intro y
    rw [decide_eq_true_eq]
    unfold Part.segment
    dsimp only
    constructor
    · rintro ⟨hflags, hfirst, hle, hlast⟩
      exact ⟨hflags, hfirst, by omega⟩
    · rintro ⟨hflags, hfirst, hlast⟩
      exact ⟨hflags, hfirst, by omega, by omega⟩
  rw [find?_map]
  cases hfind : parts.find? _ with
  | none => exact absurd ((htest x).2 hr) (find?_eq_none.1 hfind x hx)
  | some y =>
    have hy := find?_some hfind
    rw [hsingle r x hx y (mem_of_find?_eq_some hfind) hr ((htest y).1 hy)]
    rfl

/-- **The third loop is one store for each record.** -/
theorem relocate_stores {parts : List Part} (hsingle : Single parts) (base buffer : Nat) : ∀ {n : Nat} {bs : List UInt8},
    (∀ r ∈ recordsFrom n bs, base + r.addend < 2 ^ 64 ∧ ∃ x ∈ parts, x.Holds r) →
    ∃ ws, List.Forall₂ (Applied base buffer parts) (recordsFrom n bs) ws ∧
      ∀ m, relocate (parts.map (Part.segment buffer)) base n bs m = storeAll 8 m ws
  | 0, _, _ => ⟨[], .nil, fun _ => rfl⟩
  | n + 1, bs, h => by
    obtain ⟨⟨hvalue, x, hx, hholds⟩, hrest⟩ := forall_mem_cons.1 h
    obtain ⟨ws, hws, hrun⟩ := relocate_stores hsingle base buffer hrest
    have hfound := relocated_eq hsingle hx hholds buffer
    have hslot : (x.segment buffer).data + sfU64 bs - (x.segment buffer).rva = x.slot buffer
      ⟨sfU64 bs, sfU64 (bs.drop 8)⟩ := by
      have := hholds.first
      unfold Part.segment Part.slot at *
      dsimp only at *
      omega
    refine ⟨_ :: ws, .cons ⟨x, hx, hholds, rfl⟩ hws, fun m => ?_⟩
    rw [relocate]
    dsimp only at hfound hvalue ⊢
    rw [hfound]
    dsimp only
    rw [hrun, hslot, Nat.mod_eq_of_lt hvalue]
    rfl

/-! ## The image -/

section Image

variable {d : List UInt8} {p : SfPackage} {base buffer capacity : Nat} {plan plan' : SfLoadPlan} {m m' : Mem}
  {r : Record} {x : Part}

/-- What the loader has checked and done when it returns. -/
theorem sfNativeImage_parts (h : sfNativeImage p base buffer capacity plan m = .ok (plan', m')) :
    Core.imageBaseValid base = true ∧ sfNativeRelocationsValidate p = .ok () ∧
    (∃ n, preflight p.data.length capacity p.sections 0 0 = .ok n) ∧
    plan' = filled { plan with entry := p.entry, imageBase := if base = 0 then sfBase else base }
      (place p.data buffer p.sections 0 m).1 ∧
    m' = relocate (place p.data buffer p.sections 0 m).1 plan'.imageBase p.relocationCount (p.data.drop p.relocationOffset)
      (place p.data buffer p.sections 0 m).2 := by
  obtain ⟨hbase, h⟩ := guard_eq_ok.1 h
  obtain ⟨-, h⟩ := guard_eq_ok.1 h
  obtain ⟨hvalid, h⟩ := guard_eq_ok.1 h
  obtain ⟨n, hpre, h⟩ := bind_eq_ok.1 h
  obtain ⟨-, h⟩ := guard_eq_ok.1 h
  obtain ⟨rfl, rfl⟩ := Prod.mk.inj (pure_eq_ok.1 h)
  refine ⟨Bool.eq_true_of_not_eq_false (not_or.1 hbase).1, ?_, ⟨n, hpre⟩, rfl, rfl⟩
  cases hv : sfNativeRelocationsValidate p with
  | error e => exact absurd (by rw [hv]; rfl) (not_or.1 hvalid).2
  | ok u => rfl

/-- The image of a package in the buffer, and the plan for it. -/
structure Image (p : SfPackage) (base buffer capacity : Nat) (plan : SfLoadPlan) (m : Mem) (plan' : SfLoadPlan)
    (m' : Mem) : Prop where
  /-- The plan has one segment for each part; the fields that are not the loader's are those of the caller. -/
  segments : plan' = filled { plan with entry := p.entry, imageBase := if base = 0 then sfBase else base }
    (p.layout.map (Part.segment buffer))
  /-- The parts are the mapped sections. -/
  sections : p.layout.map Part.toSfSection = p.sections.filter SfSection.mapped
  /-- Every part starts where the one before it ends. -/
  consecutive : ∀ before x after, p.layout = before ++ x :: after → x.start = (before.map fun y => y.pages).sum
  apart : p.layout.Pairwise fun x y => x.start + x.pages ≤ y.start
  room : ∀ x ∈ p.layout, x.start + x.pages ≤ capacity
  /-- What no record sets is from the file, or zero. -/
  bytes : ∀ x ∈ p.layout, ∀ i < x.pages, (∀ r ∈ p.records, ¬ r.Covers (x.rva + i)) →
    m' (buffer + x.start + i) = x.fileByte p.data i
  /-- The word of a record is in one part, which can be written. -/
  held : ∀ r ∈ p.records, ∃! x, x ∈ p.layout ∧ x.Holds r
  /-- It is the base and the addend. -/
  words : ∀ r ∈ p.records, ∀ x ∈ p.layout, x.Holds r → slice m' (x.slot buffer r) 8 = toLe 8 (plan'.imageBase + r.addend) ∧
    load m' (x.slot buffer r) 8 = plan'.imageBase + r.addend
  /-- It is an address of the image. -/
  values : ∀ r ∈ p.records, ∀ x ∈ p.layout, x.Holds r →
    plan'.imageBase ≤ load m' (x.slot buffer r) 8 ∧ load m' (x.slot buffer r) 8 < plan'.imageBase + 0x200000
  /-- From the file bytes and zeros, memory was changed by one store for each record, and no two of them meet. -/
  once : ∃ m₁ ws, (∀ x ∈ p.layout, ∀ i < x.pages, m₁ (buffer + x.start + i) = x.fileByte p.data i) ∧
    List.Forall₂ (Applied plan'.imageBase buffer p.layout) p.records ws ∧
    (ws.Pairwise fun v w => v.1 + 8 ≤ w.1 ∨ w.1 + 8 ≤ v.1) ∧ m' = storeAll 8 m₁ ws
  /-- Memory outside the buffer is as it was. -/
  outside : ∀ a, a < buffer ∨ buffer + capacity ≤ a → m' a = m a

/-- Two members of a list whose members keep a relation in order. -/
theorem pairwise_cases {α : Type} {R : α → α → Prop} {l : List α} (h : l.Pairwise R) {x y : α} (hx : x ∈ l) (hy : y ∈ l) :
    x = y ∨ R x y ∨ R y x :=
  List.Pairwise.forall_of_forall_of_flip (R := fun x y => x = y ∨ R x y ∨ R y x) (fun _ _ => .inl rfl)
    (h.imp fun hxy => .inr (.inl hxy)) (h.imp fun hxy => .inr (.inr hxy)) hx hy

/-- The parts of two sections that share no page do not hold the same word. -/
theorem layout_single (h : (p.sections.filter SfSection.mapped).Pairwise fun x y => x.pageEnd ≤ y.rva ∨ y.pageEnd ≤ x.rva) :
    Single p.layout := by
  intro r x hx y hy hxr hyr
  rw [← layoutFrom_sections 0, pairwise_map] at h
  obtain ⟨-, hxfirst, hxlast⟩ := hxr
  obtain ⟨-, hyfirst, hylast⟩ := hyr
  rcases pairwise_cases h hx hy with heq | hapart
  · exact heq
  · unfold SfSection.pageEnd at hapart
    omega

/-- A data section that holds a word is a part that holds it. -/
theorem Record.Ok.held (h : r.Ok p.sections none)
    (hflags : ∀ s ∈ p.sections, s.mapped = true → s.flags = mappedFlags s.type) : ∃ x ∈ p.layout, x.Holds r := by
  obtain ⟨s, hs, hword⟩ := h.word
  obtain ⟨htype, hfirst, hlast⟩ := of_decide_eq_true hword
  have hmapped : s.mapped = true := decide_eq_true (by omega)
  have hmem : s ∈ p.layout.map Part.toSfSection := by
    unfold SfPackage.layout
    rw [layoutFrom_sections]
    exact mem_filter.2 ⟨hs, hmapped⟩
  obtain ⟨x, hx, rfl⟩ := mem_map.1 hmem
  refine ⟨x, hx, ?_, hfirst, ?_⟩
  · rw [hflags _ hs hmapped, htype]
    rfl
  by_contra hover
  rw [span_eq_false.2 (by omega)] at hlast
  cases hlast

/-- A part holds a word in its own memory. -/
theorem Part.Holds.slot_mem (h : x.Holds r) (buffer : Nat) :
    buffer + x.start ≤ x.slot buffer r ∧ x.slot buffer r + 8 ≤ buffer + x.start + x.pages := by
  obtain ⟨-, hfirst, hlast⟩ := h
  unfold Part.slot SfSection.pages
  omega

/-- Two words that different records set do not meet. -/
theorem slots_apart {parts : List Part} (hapart : parts.Pairwise fun x y => x.start + x.pages ≤ y.start) (buffer : Nat)
    {y : Part} {r' : Record} (hx : x ∈ parts) (hy : y ∈ parts) (hxr : x.Holds r) (hyr : y.Holds r')
    (hr : r.target + 8 ≤ r'.target) :
    x.slot buffer r + 8 ≤ y.slot buffer r' ∨ y.slot buffer r' + 8 ≤ x.slot buffer r := by
  have hxslot := hxr.slot_mem buffer
  have hyslot := hyr.slot_mem buffer
  rcases pairwise_cases hapart hx hy with rfl | hparts
  · have hfirst := hxr.first
    unfold Part.slot
    omega
  · omega

/-- A byte of a part that no record covers is outside the words of all parts. -/
theorem uncovered_apart {parts : List Part} (hapart : parts.Pairwise fun x y => x.start + x.pages ≤ y.start) (buffer : Nat)
    {y : Part} {i : Nat} (hx : x ∈ parts) (hy : y ∈ parts) (hyr : y.Holds r) (hi : i < x.pages)
    (hr : ¬ r.Covers (x.rva + i)) :
    buffer + x.start + i < y.slot buffer r ∨ y.slot buffer r + 8 ≤ buffer + x.start + i := by
  have hyslot := hyr.slot_mem buffer
  rcases pairwise_cases hapart hx hy with rfl | hparts
  · have hfirst := hyr.first
    unfold Record.Covers at hr
    unfold Part.slot
    omega
  · omega

theorem base_lt (h : Core.imageBaseValid base = true) : (if base = 0 then sfBase else base) + sfImageMax < 2 ^ 64 := by
  have h := of_decide_eq_true h
  unfold Core.sfDma at h
  unfold sfBase sfImageMax
  split <;> omega

/-- **What the loader leaves when it returns.** -/
theorem image_of_ok (hcanonical : Canonical d p) (hflags : ∀ s ∈ p.sections, s.mapped = true → s.flags = mappedFlags s.type)
    (h : sfNativeImage p base buffer capacity plan m = .ok (plan', m')) : Image p base buffer capacity plan m plan' m' := by
  obtain ⟨hbase, hvalid, ⟨n, hpre⟩, hplan, hmem⟩ := sfNativeImage_parts h
  obtain ⟨hrecords, hsorted⟩ := validate_records hvalid
  have hlayout : ∀ x ∈ p.layout, x.bytes ≤ x.pages ∧ x.start + x.pages ≤ capacity :=
    preflight_layout (Nat.zero_le capacity) hpre
  have hapart : p.layout.Pairwise fun x y => x.start + x.pages ≤ y.start := layoutFrom_apart p.sections 0
  have hsingle := layout_single hcanonical.apart
  rw [place_segment] at hplan hmem
  have himageBase : plan'.imageBase = if base = 0 then sfBase else base := by
    rw [hplan]
    rfl
  have hbound : plan'.imageBase + sfImageMax < 2 ^ 64 := himageBase ▸ base_lt hbase
  have hheld : ∀ r ∈ p.records, ∃ x ∈ p.layout, x.Holds r := fun r hr => (hrecords r hr).held hflags
  have hvalue : ∀ r ∈ p.records, plan'.imageBase + r.addend < 2 ^ 64 := by
    intro r hr
    have := (hrecords r hr).addend
    omega
  obtain ⟨hfile, hrest⟩ := place_layout p.data buffer m fun x hx => (hlayout x hx).1
  obtain ⟨ws, hws, hrun⟩ := relocate_stores hsingle plan'.imageBase buffer fun r hr => ⟨hvalue r hr, hheld r hr⟩
  replace hmem : m' = storeAll 8 (place p.data buffer p.sections 0 m).2 ws := hmem.trans (hrun _)
  have hstores : ws.Pairwise fun v w => v.1 + 8 ≤ w.1 ∨ w.1 + 8 ≤ v.1 := by
    refine forall₂_pairwise hws hsorted ?_
    rintro r r' _ _ ⟨x, hx, hxr, rfl⟩ ⟨y, hy, hyr, rfl⟩ hlt
    exact slots_apart hapart buffer hx hy hxr hyr hlt
  have hwords : ∀ r ∈ p.records, ∀ x ∈ p.layout, x.Holds r →
      slice m' (x.slot buffer r) 8 = toLe 8 (plan'.imageBase + r.addend) := by
    intro r hr x hx hxr
    obtain ⟨w, hw, y, hy, hyr, rfl⟩ := forall₂_exists hws.flip r hr
    obtain rfl := hsingle r x hx y hy hxr hyr
    rw [hmem]
    exact slice_storeAll hstores _ hw
  exact {
    segments := hplan
    sections := layoutFrom_sections 0 p.sections
    consecutive := fun before x after hsplit => by
      have := layoutFrom_consecutive hsplit
      omega
    apart := hapart
    room := fun x hx => (hlayout x hx).2
    bytes := fun x hx i hi huncovered => by
      rw [hmem]
      refine (storeAll_of_apart fun w hw => ?_).trans (hfile x hx i hi)
      obtain ⟨r, hr, y, hy, hyr, rfl⟩ := forall₂_exists hws w hw
      exact uncovered_apart hapart buffer hx hy hyr hi (huncovered r hr)
    held := fun r hr => by
      obtain ⟨x, hx, hxr⟩ := hheld r hr
      exact ⟨x, ⟨hx, hxr⟩, fun y hy => hsingle r y hy.1 x hx hy.2 hxr⟩
    words := fun r hr x hx hxr => ⟨hwords r hr x hx hxr, (load_eq_iff (hvalue r hr)).2 (hwords r hr x hx hxr)⟩
    values := fun r hr x hx hxr => by
      have haddend := (hrecords r hr).addend
      rw [(load_eq_iff (hvalue r hr)).2 (hwords r hr x hx hxr)]
      unfold sfImageMax at haddend
      omega
    once := ⟨_, ws, hfile, hws, hstores, hmem⟩
    outside := fun a ha => by
      rw [hmem]
      refine (storeAll_of_apart fun w hw => ?_).trans (hrest a fun x hx => ?_)
      · obtain ⟨r, hr, y, hy, hyr, rfl⟩ := forall₂_exists hws w hw
        have hslot := hyr.slot_mem buffer
        have hroom := (hlayout y hy).2
        omega
      · have hroom := (hlayout x hx).2
        omega }

/-- Two images of a package, at two bases and in two buffers, differ in the words of the records only, and there by
the difference of the bases. -/
structure Rebased (p : SfPackage) (buffer₁ : Nat) (plan₁ : SfLoadPlan) (m₁ : Mem) (buffer₂ : Nat) (plan₂ : SfLoadPlan)
    (m₂ : Mem) :
    Prop where
  bytes : ∀ x ∈ p.layout, ∀ i < x.pages, (∀ r ∈ p.records, ¬ r.Covers (x.rva + i)) →
    m₁ (buffer₁ + x.start + i) = m₂ (buffer₂ + x.start + i)
  words : ∀ r ∈ p.records, ∀ x ∈ p.layout, x.Holds r →
    load m₁ (x.slot buffer₁ r) 8 + plan₂.imageBase = load m₂ (x.slot buffer₂ r) 8 + plan₁.imageBase

theorem Image.rebased {base₁ base₂ buffer₁ buffer₂ capacity₁ capacity₂ : Nat} {plan₁ plan₁' plan₂ plan₂' : SfLoadPlan}
    {m₁ m₁' m₂ m₂' : Mem} (h₁ : Image p base₁ buffer₁ capacity₁ plan₁ m₁ plan₁' m₁')
    (h₂ : Image p base₂ buffer₂ capacity₂ plan₂ m₂ plan₂' m₂') : Rebased p buffer₁ plan₁' m₁' buffer₂ plan₂' m₂' where
  bytes x hx i hi huncovered := (h₁.bytes x hx i hi huncovered).trans (h₂.bytes x hx i hi huncovered).symm
  words r hr x hx hxr := by
    rw [(h₁.words r hr x hx hxr).2, (h₂.words r hr x hx hxr).2]
    omega

/-- What the loader makes of a package is exact. -/
structure ImageExact (p : SfPackage) : Prop where
  /-- A run that returns leaves the image and its plan. -/
  image : ∀ {base buffer capacity plan m plan' m'}, runNativeImage p base buffer capacity (plan, m) = (.ok (), plan', m') →
    Image p base buffer capacity plan m plan' m'
  /-- Two runs that return leave the same image up to the base. -/
  rebased : ∀ {base₁ buffer₁ capacity₁ plan₁ m₁ plan₁' m₁' base₂ buffer₂ capacity₂ plan₂ m₂ plan₂' m₂'},
    runNativeImage p base₁ buffer₁ capacity₁ (plan₁, m₁) = (.ok (), plan₁', m₁') →
    runNativeImage p base₂ buffer₂ capacity₂ (plan₂, m₂) = (.ok (), plan₂', m₂') →
    Rebased p buffer₁ plan₁' m₁' buffer₂ plan₂' m₂'
  /-- A run that fails leaves the buffer and the plan as they were. -/
  failed : ∀ {base buffer capacity plan m e plan' m'}, runNativeImage p base buffer capacity (plan, m) =
    (.error e, plan', m') →
    plan' = plan ∧ m' = m

end Image

section Exact

variable {sha256 : List UInt8 → Digest} {ed25519Check : List UInt8 → List UInt8 → List UInt8 → Bool}
  {trust : Trust.SfTrustStore}
  {d : List UInt8} {p : SfPackage}

theorem open_flags (h : sfPackageOpenTrusted sha256 ed25519Check trust d = .ok p) :
    ∀ s ∈ p.sections, s.mapped = true → s.flags = mappedFlags s.type := by
  obtain ⟨q, key, hparse, hprofile, -⟩ := open_ok h
  obtain ⟨profile, offset, count, rfl⟩ := nativeProfile_ok hprofile
  have hflags := parse_flags hparse
  exact hflags

theorem run_ok {base buffer capacity : Nat} {plan plan' : SfLoadPlan} {m m' : Mem}
    (h : runNativeImage p base buffer capacity (plan, m) = (.ok (), plan', m')) :
    sfNativeImage p base buffer capacity plan m = .ok (plan', m') := by
  rw [runNativeImage_eq] at h
  cases hrun : sfNativeImage p base buffer capacity plan m with
  | error e =>
    rw [hrun] at h
    cases h
  | ok s =>
    rw [hrun] at h
    exact congrArg Except.ok (Prod.mk.inj h).2

/-- **The images of accepted packages are exact**, byte for byte, at every base and in every buffer. -/
theorem image_exact (h : sfPackageOpenTrusted sha256 ed25519Check trust d = .ok p) : ImageExact p where
  image hrun := image_of_ok (open_canonical h) (open_flags h) (run_ok hrun)
  rebased hrun₁ hrun₂ := Image.rebased (image_of_ok (open_canonical h) (open_flags h) (run_ok hrun₁))
    (image_of_ok (open_canonical h) (open_flags h) (run_ok hrun₂))
  failed := by
    intro base buffer capacity plan m e plan' m' hrun
    rw [runNativeImage_eq] at hrun
    cases himage : sfNativeImage p base buffer capacity plan m with
    | ok s =>
      rw [himage] at hrun
      cases hrun
    | error e =>
      rw [himage] at hrun
      obtain ⟨-, rfl, rfl⟩ := Prod.mk.inj hrun |>.imp_right Prod.mk.inj
      exact ⟨rfl, rfl⟩

end Exact

/-- An application with one byte of text and two words of data, the second of which is relocated to the text. -/
def sampleApplication : List UInt8 :=
  let u (n v : Nat) : List UInt8 := ByteMem.toLe n v
  appMagic ++ u 2 1 ++ u 2 0 ++ u 4 96 ++ u 8 4224 ++ u 2 2 ++ u 2 1 ++ u 2 1 ++ u 2 0 ++ u 4 0 ++ u 4 3 ++
    u 8 96 ++ u 8 288 ++
    u 8 157 ++ u 8 4120 ++ u 4 104 ++ u 4 0 ++ u 8 0 ++ u 8 0 ++
  u 4 1 ++ u 4 5 ++ u 8 4096 ++ u 8 1 ++ u 8 1 ++ u 8 0 ++ u 8 4096 ++ u 16 0 ++
  u 4 3 ++ u 4 3 ++ u 8 0 ++ u 8 0 ++ u 8 16 ++ u 8 4096 ++ u 8 4096 ++ u 16 0 ++
  u 4 4 ++ u 4 0 ++ u 8 4104 ++ u 8 16 ++ u 8 16 ++ u 8 0 ++ u 8 8 ++ u 16 0 ++
  ([0xa8, 0x66] ++ appKey ++ [0x61, 97, 0x67] ++ abiKey ++ [1, 0x67] ++ versionKey ++ [0x61, 49, 0x6a] ++ runtimeKey ++
    [0x61, 114, 0x6e] ++ profileKey ++ [0x6b] ++ relativeProfile ++ [0x6e] ++ capsKey ++ [0x80, 0x6f] ++ limitsKey ++
    [0xa1, 0x66] ++ memoryKey ++ [0x18, 64, 0x74] ++ relocationsKey ++ [0xa3, 0x65] ++ bytesKey ++ [16, 0x66] ++ offsetKey ++
    [0, 0x67] ++ sectionKey ++ [2]) ++
  List.replicate 3651 0 ++ [0x90] ++ List.replicate 7 0 ++ u 8 4104 ++ u 8 0 ++
  List.replicate 32 0 ++ u 2 1 ++ u 2 0 ++ u 4 64 ++ List.replicate 64 0

def sampleApplicationOpen : Except SfError SfPackage :=
  sfPackageOpenTrusted (fun _ => Vector.replicate 32 0) (fun _ _ _ => true) [⟨[], 2, 0⟩] sampleApplication

/-- The sample has a record and is loaded at two bases. -/
def sampleLoaded : Except SfError Bool := do
  let p ← sampleApplicationOpen
  let load base := (runNativeImage p base 0x600000 8192 (samplePlan, zeros)).1.isOk
  pure (p.relocationCount == 1 && load 0x44000000 && load 0x44200000)

theorem sampleLoaded_ok : sampleLoaded = .ok true := by decide +kernel

theorem image_exact_sample : ∃ p, sampleApplicationOpen = .ok p ∧ p.relocationCount = 1 ∧
    (runNativeImage p 0x44000000 0x600000 8192 (samplePlan, zeros)).1.isOk = true ∧ ImageExact p := by
  obtain ⟨p, hopen, hloaded⟩ := bind_eq_ok.1 sampleLoaded_ok
  have hall := pure_eq_ok.1 hloaded
  simp only [Bool.and_eq_true, beq_iff_eq] at hall
  exact ⟨p, hopen, hall.1.1, hall.1.2, image_exact hopen⟩

end SpiritFox.Package
