import SpiritFox.Package.Container
import SpiritFox.Kernel.Isolation

/-!
# Images

`sf_native_image` of `services/native_image.c` lays the mapped sections of a package out in a staging buffer,
applies the relocations and writes the load plan. The kernel checks the plan again (`valid_plan`) and makes the task
from it.

- `place_segments`: the segments of the plan are the mapped sections, each in its own part of the buffer;
- `image_valid`: a plan that the loader made is one that the kernel accepts;
- `spawn_lacks`: what a spawn with an accepted plan can fail for.

The main result is `loader_kernel_agreement`.
-/

namespace SpiritFox.Package

open ByteMem Checks Proc List

open SpiritFox.Core (SfLoadPlan SfLoadSegment Kernel Layout TaskId KProc)

variable {capacity buffer : Nat} {L : Layout} {k : Kernel} {parent : Option TaskId} {x : SfLoadSegment}

/-! ## The loader -/

def sfBase : Nat := 0x40000000

def sfPieMin : Nat := 0x44000000

/-- The memory that a section takes in the buffer. -/
def SfSection.pages (s : SfSection) : Nat := (s.memory + 4095) / 4096 * 4096

/-- The first loop: everything is checked before anything is written. -/
def preflight (bytes capacity : Nat) : List SfSection → Nat → Nat → Except SfError Nat
  | [], _, count => pure count
  | s :: rest, used, count =>
    if s.mapped = false then preflight bytes capacity rest used count
    else if s.memory = 0 ∨ sfImageMax < s.memory ∨ s.memory < s.bytes ∨ bytes < s.offset ∨ bytes - s.offset < s.bytes ∨
        capacity - used < s.pages ∨ count = 8 then throw .noSpace
    else preflight bytes capacity rest (used + s.pages) (count + 1)

/-- The second loop: `memset`, `memcpy` and the segment. -/
def place (data : List UInt8) (buffer : Nat) : List SfSection → Nat → Mem → List SfLoadSegment × Mem
  | [], _, m => ([], m)
  | s :: rest, used, m =>
    if s.mapped = false then place data buffer rest used m
    else
      let m := blit (clear m (buffer + used) s.pages) (buffer + used) ((data.drop s.offset).take s.bytes)
      let (segments, m) := place data buffer rest (used + s.pages) m
      (⟨s.rva, s.memory, buffer + used, s.flags, 0⟩ :: segments, m)

/-- The segment whose word a relocation sets. -/
def relocated (segments : List SfLoadSegment) (target : Nat) : Option SfLoadSegment :=
  segments.find? fun s => s.flags = 3 ∧ s.rva ≤ target ∧ target - s.rva ≤ s.bytes ∧ 8 ≤ s.bytes - (target - s.rva)

/-- The third loop, over the relocations. -/
def relocate (segments : List SfLoadSegment) (base : Nat) : Nat → List UInt8 → Mem → Mem
  | 0, _, m => m
  | n + 1, r, m =>
    let m := match relocated segments (sfU64 r) with
      | none => m
      | some s => store m (s.data + sfU64 r - s.rva) 8 ((base + sfU64 (r.drop 8)) % 2 ^ 64)
    relocate segments base n (r.drop 16) m

/-- `sf_native_image`: the plan, with the fields that the loader owns replaced, and the memory. -/
def sfNativeImage (p : SfPackage) (base buffer capacity : Nat) (plan : SfLoadPlan) (m : Mem) :
    Except SfError (SfLoadPlan × Mem) :=
  if Core.imageBaseValid base = false ∨ (base = 0 ∧ p.nativeProfile ≠ 0) then throw .invalid
  else
    let base := if base = 0 then sfBase else base
    if p.nativeProfile = 1 ∧ base < sfPieMin then throw .invalid
    else if (p.nativeProfile = 0 ∧ base ≠ sfBase) ∨ (sfNativeRelocationsValidate p).isOk = false then throw .badFormat
    else do
      let count ← preflight p.data.length capacity p.sections 0 0
      if count = 0 then throw .badFormat
      else
        let (segments, m) := place p.data buffer p.sections 0 m
        let m := relocate segments base p.relocationCount (p.data.drop p.relocationOffset) m
        pure ({ plan with
          count := segments.length
          entry := p.entry
          imageBase := base
          segments := segments ++ plan.segments.drop segments.length }, m)

/-! ## The plan -/

/-- Segment `x` is section `s` in a part of the buffer. -/
structure Placed (buffer capacity : Nat) (s : SfSection) (x : SfLoadSegment) : Prop where
  rva : x.rva = s.rva
  bytes : x.bytes = s.memory
  flags : x.flags = s.flags
  reserved : x.reserved = 0
  room : buffer ≤ x.data ∧ x.data + x.bytes ≤ buffer + capacity

/-- The segments are the mapped sections in order, and there are as many as were counted. -/
theorem place_segments (data : List UInt8) (buffer : Nat) {bytes n : Nat} :
    ∀ {sections : List SfSection} {used count : Nat} {m : Mem}, used ≤ capacity →
      preflight bytes capacity sections used count = .ok n →
      List.Forall₂ (Placed buffer capacity) (sections.filter SfSection.mapped) (place data buffer sections used m).1 ∧
        n = count + (place data buffer sections used m).1.length ∧ (count ≤ 8 → n ≤ 8)
  | [], used, count, m, _, h => by
    obtain rfl := pure_eq_ok.1 h
    exact ⟨.nil, rfl, id⟩
  | s :: rest, used, count, m, hused, h => by
    rw [preflight] at h
    by_cases hs : s.mapped = false
    · rw [if_pos hs] at h
      rw [filter_cons_of_neg (by simp [hs]), place, if_pos hs]
      exact place_segments data buffer hused h
    · rw [if_neg hs, guard_eq_ok] at h
      obtain ⟨hroom, hrest⟩ := h
      have hpages : s.memory ≤ s.pages := by
        unfold SfSection.pages
        omega
      obtain ⟨hplaced, hn, hle⟩ := place_segments data buffer
        (m := blit (clear m (buffer + used) s.pages) (buffer + used) ((data.drop s.offset).take s.bytes)) (by omega) hrest
      rw [filter_cons_of_pos (by simpa using hs), place, if_neg hs]
      refine ⟨.cons ⟨rfl, rfl, rfl, rfl, ?_⟩ hplaced, ?_, fun hc => hle (by omega)⟩
      · dsimp only
        omega
      · rw [length_cons]
        omega

/-- A part of a range that a task can read can be read. -/
theorem userRange_sub {q : TaskId} {v n v' n' : Nat} (h : Core.userRange L k q v n false = true)
    (hlo : v ≤ v') (hhi : v' + n' ≤ v + n) (hn : n' ≠ 0) : Core.userRange L k q v' n' false = true := by
  unfold Core.userRange at h ⊢
  split_ifs at h with hout hn0
  · omega
  rw [if_neg (by omega), if_neg hn, all_eq_true]
  intro i hi
  rw [mem_range] at hi
  have hpage := all_eq_true.1 h (v' / 4096 - v / 4096 + i) (mem_range.2 (by omega))
  have hsame : v / 4096 + (v' / 4096 - v / 4096 + i) = v' / 4096 + i := by omega
  rw [hsame] at hpage
  exact hpage

/-- The buffer can be read by the parent, or at boot lies above the kernel. -/
def Staging (L : Layout) (k : Kernel) (parent : Option TaskId) (buffer capacity : Nat) : Prop :=
  Core.sourceOk L k parent ⟨0, capacity, buffer, 0, 0⟩ = true

theorem staging_sub
    (h : Staging L k parent buffer capacity)
    (hroom : buffer ≤ x.data ∧ x.data + x.bytes ≤ buffer + capacity) (hx : x.bytes ≠ 0) :
    Core.sourceOk L k parent x = true ∧ x.data + x.bytes < 2 ^ 64 := by
  cases parent with
  | some q =>
    have hrange : Core.userRange L k q buffer capacity false = true := h
    refine ⟨userRange_sub hrange hroom.1 hroom.2 hx, ?_⟩
    unfold Core.userRange at hrange
    split_ifs at hrange <;> omega
  | none =>
    have hrange := of_decide_eq_true h
    dsimp only at hrange
    exact ⟨decide_eq_true (by omega), by omega⟩

/-- Segments that fit, can be read and keep apart pass the kernel's checks. -/
theorem segmentsOk_of_fits : ∀ {before rest : List SfLoadSegment},
    (∀ x ∈ rest, (x.Fits ∧ x.reserved = 0) ∧ Core.sourceOk L k parent x = true ∧ x.data + x.bytes < 2 ^ 64) →
    rest.Pairwise SfLoadSegment.Apart → (∀ o ∈ before, ∀ x ∈ rest, o.Apart x) → Core.segmentsOk L k parent before rest = true
  | _, [], _, _, _ => rfl
  | before, x :: rest, hrest, hpair, hbefore => by
    obtain ⟨⟨⟨hfits, hreserved⟩, hsource, hend⟩, hlater⟩ := forall_mem_cons.1 hrest
    obtain ⟨hfirst, hpair'⟩ := pairwise_cons.1 hpair
    rw [Core.segmentsOk, Bool.and_eq_true]
    constructor
    · have hbound := hfits.bound
      have hbytes := hfits.bytes
      refine decide_eq_true ⟨hfits.aligned, hend, hbytes, by omega, hreserved, by omega, by omega, hfits.flags, hsource, ?_⟩
      rw [all_eq_true]
      intro o ho
      have happart := hbefore o ho x mem_cons_self
      unfold SfLoadSegment.Apart at happart
      exact decide_eq_true (by omega)
    · apply segmentsOk_of_fits hlater hpair'
      intro o ho y hy
      rcases mem_append.1 ho with ho | ho
      · exact hbefore o ho y (mem_cons_of_mem x hy)
      · rw [mem_singleton.1 ho]
        exact hfirst y hy

theorem Placed.fits {s : SfSection} (h : Placed buffer capacity s x)
    (hs : s.rva % 4096 = 0 ∧ s.memory ≠ 0 ∧ s.bytes ≤ s.memory ∧ s.pageEnd ≤ sfImageMax ∧
      (s.flags = 5 ∨ s.flags = 1 ∨ s.flags = 3)) :
    x.Fits := by
  obtain ⟨hrva, hmem, -, hend, hflags⟩ := hs
  unfold SfSection.pageEnd sfImageMax at hend
  refine ⟨h.rva ▸ hrva, h.bytes ▸ hmem, ?_, ?_⟩
  · rw [h.rva, h.bytes]
    omega
  rw [h.flags]
  unfold Core.MapFlags
  omega

theorem Placed.pageEnd {s : SfSection} (h : Placed buffer capacity s x) :
    x.pageEnd = s.pageEnd := by
  unfold SfLoadSegment.pageEnd SfSection.pageEnd
  rw [h.rva, h.bytes]

theorem forall₂_exists {α β : Type} {R : α → β → Prop} {as : List α} {bs : List β} (h : List.Forall₂ R as bs) :
    ∀ b ∈ bs, ∃ a ∈ as, R a b := by
  induction h with
  | nil => exact nofun
  | cons hab _ ih =>
    rw [forall_mem_cons]
    refine ⟨⟨_, mem_cons_self, hab⟩, fun b hb => ?_⟩
    obtain ⟨a, ha, hr⟩ := ih b hb
    exact ⟨a, mem_cons_of_mem _ ha, hr⟩

/-- What holds of the pairs of one list holds of the pairs of the other. -/
theorem forall₂_pairwise {α β : Type} {R : α → β → Prop} {S : α → α → Prop} {T : β → β → Prop} {as : List α} {bs : List β}
    (h : List.Forall₂ R as bs) (hp : as.Pairwise S) (hT : ∀ {a a' b b'}, R a b → R a' b' → S a a' → T b b') :
    bs.Pairwise T := by
  induction h with
  | nil => exact .nil
  | cons hab hrest ih =>
    obtain ⟨hfirst, hp'⟩ := pairwise_cons.1 hp
    refine pairwise_cons.2 ⟨fun b' hb' => ?_, ih hp'⟩
    obtain ⟨a', ha', hr⟩ := forall₂_exists hrest b' hb'
    exact hT hab hr (hfirst a' ha')

/-- Sections that keep apart are placed as segments that keep apart. -/
theorem placed_apart {sections : List SfSection} {segments : List SfLoadSegment}
    (h : List.Forall₂ (Placed buffer capacity) sections segments)
    (hp : sections.Pairwise fun x y => x.pageEnd ≤ y.rva ∨ y.pageEnd ≤ x.rva) : segments.Pairwise SfLoadSegment.Apart := by
  refine forall₂_pairwise h hp fun hs ht hapart => ?_
  unfold SfLoadSegment.Apart
  rw [hs.pageEnd, ht.pageEnd, hs.rva, ht.rva]
  exact hapart

/-- What the manager fills in: arguments that pass their check, and no device. -/
structure Completed (plan : SfLoadPlan) : Prop where
  size : plan.size = Core.sfLoadPlanBytes
  arguments : Core.argumentsOk plan.arguments = true
  device : plan.grantDevice = 0 ∧ plan.deviceRights = 0

/-- What the loader has done when it returns. -/
theorem sfNativeImage_ok {p : SfPackage} {base : Nat} {plan plan' : SfLoadPlan} {m m' : Mem}
    (h : sfNativeImage p base buffer capacity plan m = .ok (plan', m')) : ∃ segments base',
      List.Forall₂ (Placed buffer capacity) (p.sections.filter SfSection.mapped) segments ∧ segments.length ≠ 0 ∧
        segments.length ≤ 8 ∧
      Core.imageBaseValid base' = true ∧ plan' = { plan with
        count := segments.length
        entry := p.entry
        imageBase := base'
        segments := segments ++ plan.segments.drop segments.length } := by
  obtain ⟨hbase, h⟩ := guard_eq_ok.1 h
  obtain ⟨-, h⟩ := guard_eq_ok.1 h
  obtain ⟨-, h⟩ := guard_eq_ok.1 h
  obtain ⟨n, hpre, h⟩ := bind_eq_ok.1 h
  obtain ⟨hn, h⟩ := guard_eq_ok.1 h
  obtain ⟨hplaced, hcount, hle⟩ := place_segments p.data buffer (m := m) (Nat.zero_le capacity) hpre
  have hplan := pure_eq_ok.1 h
  refine ⟨_, if base = 0 then sfBase else base, hplaced, by omega, by omega, ?_, (congrArg Prod.fst hplan).symm⟩
  split
  · decide
  · simpa using (not_or.1 hbase).1

section Valid

variable {sha256 : List UInt8 → Digest} {ed25519Check : List UInt8 → List UInt8 → List UInt8 → Bool}
  {trust : Trust.SfTrustStore}
  {d : List UInt8} {p : SfPackage} {L : Layout} {k : Kernel} {parent : Option TaskId} {base buffer capacity : Nat}
  {plan plan' : SfLoadPlan} {m m' : Mem}

/-- **What the loader makes of an accepted package, the kernel accepts.** -/
theorem image_valid (hcanonical : Canonical d p) (himage : sfNativeImage p base buffer capacity plan m = .ok (plan', m'))
    (hplan : Completed plan) (hstaging : Staging L k parent buffer capacity) : Core.validPlan L k plan' parent = true := by
  obtain ⟨segments, base', hplaced, hne, hle, hbase, rfl⟩ := sfNativeImage_ok himage
  have htake : (segments ++ plan.segments.drop segments.length).take segments.length = segments := take_left
  have hfits : ∀ x ∈ segments, (x.Fits ∧ x.reserved = 0) ∧ Core.sourceOk L k parent x = true ∧
    x.data + x.bytes < 2 ^ 64 := by
    intro x hx
    obtain ⟨s, hs, hsx⟩ := forall₂_exists hplaced x hx
    obtain ⟨hs, hm⟩ := mem_filter.1 hs
    have hfit := hsx.fits (hcanonical.mapped s hs hm)
    exact ⟨⟨hfit, hsx.reserved⟩, staging_sub hstaging hsx.room hfit.bytes⟩
  have hentry : segments.any (fun x => x.flags = 5 ∧ x.rva ≤ p.entry ∧ p.entry - x.rva < x.bytes) = true := by
    obtain ⟨s, hs, hm, hflags, hlo, hhi⟩ := hcanonical.entry
    obtain ⟨x, hx, hsx⟩ := forall₂_exists hplaced.flip s (mem_filter.2 ⟨hs, hm⟩)
    have hbytes := (hcanonical.mapped s hs hm).2.2.1
    refine any_eq_true.2 ⟨x, hx, decide_eq_true ⟨hsx.flags.trans hflags, ?_, ?_⟩⟩
    · rw [hsx.rva]
      exact hlo
    · rw [hsx.rva, hsx.bytes]
      omega
  refine decide_eq_true ⟨hplan.size, hne, hle, hbase, hplan.arguments, ?_, ?_, fun _ => hplan.device.2, ?_, ?_⟩
  · rw [hplan.device.1]
    decide
  · rw [hplan.device.2]
    decide
  · rw [htake]
    exact segmentsOk_of_fits hfits (placed_apart hplaced hcanonical.apart) nofun
  · rw [htake]
    exact hentry

end Valid

/-! ## The spawn -/

/-- What a spawn with an accepted plan fails for: the limits of the call itself, no slot, no pid, or a construction
that stopped where there were no more pages or capability slots, or where the authority over an endpoint or the
device was refused. -/
inductive Lacks (L : Layout) (parent : Option TaskId) (plan : SfLoadPlan) (pages : Nat) (k : Kernel) : SfError → Prop
  | quota (h : 4096 < pages) : Lacks L parent plan pages k .invalid
  | boot (h : parent = none ∧ plan.imageBase ≠ 0 ∧ plan.imageBase ≠ sfBase) : Lacks L parent plan pages k .invalid
  | slot (h : ∀ j, (k.tasks j).state ≠ .empty ∧ (k.tasks j).state ≠ .dead) : Lacks L parent plan pages k .noSpace
  | pid (h : Core.pidAvailable k.nextPid = false) : Lacks L parent plan pages k .noSpace
  | construction {j : TaskId} {k₁ : Kernel} {e : SfError} (hvacant : (k.tasks j).state = .empty ∨ (k.tasks j).state = .dead)
      (h : Core.construct L parent j plan (Core.occupy k j k.nextPid pages) = (.error e, k₁))
      (hr : Core.Refused parent j plan k₁ e) : Lacks L parent plan pages k e

/-- The spaces, after the birth of a task: its pages are those of its plan. -/
def Populated (L : Layout) (parent : Option TaskId) (plan : SfLoadPlan) (pid : Nat) (k : Kernel) : Prop :=
  ∃ j σ, (k.tasks j).pid = pid ∧ Core.Born L σ parent j plan k

/-- The loader and the kernel agree in a state. -/
structure LoaderAgreement (L : Layout) (k : Kernel) : Prop where
  /-- What the loader makes of an accepted package, the kernel accepts. -/
  accepted : ∀ {sha256 ed25519Check trust d p base buffer capacity plan plan' m m' parent},
    sfPackageOpenTrusted sha256 ed25519Check trust d = .ok p →
      sfNativeImage p base buffer capacity plan m = .ok (plan', m') →
    Completed plan → Staging L k parent buffer capacity → Core.validPlan L k plan' parent = true
  /-- The pages of an accepted plan are distinct, from 0x40000000 up to 0x80000000, and a construction maps no others. -/
  pages : ∀ {plan parent}, Core.validPlan L k plan parent = true →
    (Core.planPages L plan).Nodup ∧
    (∀ n ∈ Core.planPages L plan, 0x40000000 ≤ n * 4096 ∧ n * 4096 + 4096 ≤ 0x80000000) ∧
    ∀ modern, (Core.bornPages L parent plan modern).Sublist (Core.planPages L plan)
  /-- A spawn with an accepted plan maps the pages of the plan, or lacks something. -/
  spawned : ∀ {plan parent pages r k'}, Core.validPlan L k plan parent = true →
    (∀ q, parent = some q → (k.tasks q).state = .ready) →
    Core.taskNewLimited L parent plan pages k = (r, k') →
    (∃ pid, r = .ok pid ∧ Populated L parent plan pid k') ∨ ∃ e, r = .error e ∧ Lacks L parent plan pages k e

theorem spawn_lacks {k' : Kernel} {plan : SfLoadPlan} {pages : Nat} {e : SfError}
    (hvalid : Core.validPlan L k plan parent = true) (h : Core.SpawnFails L parent plan pages k e k') :
    Lacks L parent plan pages k e := by
  cases h with
  | invalid h =>
    rcases h with h | h | h
    · exact .quota h
    · rw [hvalid] at h
      cases h
    · exact .boot h
  | slot h => exact .slot h
  | pid h => exact .pid h
  | construction hvacant h hr => exact .construction hvacant h hr

/-- **The loader and the kernel agree in every reachable state.** -/
theorem loader_kernel_agreement {L : Layout} {k : Kernel} (h : Core.Reach L k) : LoaderAgreement L k where
  accepted hopen himage hplan hstaging := image_valid (open_canonical hopen) himage hplan hstaging
  pages := by
    intro plan parent hvalid
    obtain ⟨hnodup, hrange⟩ := Core.planPages_nodup hvalid
    refine ⟨hnodup, fun n hn => ?_, Core.bornPages_sublist parent⟩
    have := hrange n hn
    omega
  spawned := by
    intro plan parent pages r k' hvalid hparent hrun
    obtain ⟨σ, hσ⟩ := Core.reach_spaced h
    have hspawn := Core.triple_taskNewLimited hσ
      (fun q hq => ⟨hparent q hq, hσ.space (.inl (hparent q hq))⟩) plan pages k rfl
    rw [hrun] at hspawn
    cases r with
    | ok pid =>
      obtain ⟨j, hpid, hborn⟩ := hspawn
      exact .inl ⟨pid, rfl, j, _, hpid, hborn⟩
    | error e => exact .inr ⟨e, rfl, spawn_lacks hvalid hspawn.1⟩

/-- A plan with no arguments and no device. -/
def samplePlan : SfLoadPlan := ⟨832, 0, 0, 0, 0, 0, 0, 0, 0, 0, [], ⟨0, 0, 0, 0, []⟩⟩

/-- The image of the sample, staged above the kernel. -/
def sampleImage : Except SfError (SfLoadPlan × Mem) :=
  sampleOpen >>= fun p => sfNativeImage p sfBase 0x600000 8192 samplePlan zeros

theorem sampleImage_spawns : (sampleImage.toOption.map fun x =>
    (Core.taskNewLimited Core.sampleLayout none x.1 4096 Core.sampleStart).1.toOption) = some (some 1) := by
  decide +kernel

/-- The kernel makes PID 1 out of the sample, with the pages of its plan. -/
theorem loader_kernel_agreement_sample : ∃ plan m k', sampleImage = .ok (plan, m) ∧
    Core.validPlan Core.sampleLayout Core.sampleStart plan none = true ∧ (Core.planPages Core.sampleLayout plan).Nodup ∧
    Core.taskNewLimited Core.sampleLayout none plan 4096 Core.sampleStart = (.ok 1, k') ∧
    Populated Core.sampleLayout none plan 1 k' := by
  have hspawns := sampleImage_spawns
  cases h : sampleImage with
  | error e =>
    rw [h] at hspawns
    cases hspawns
  | ok x =>
    rw [h] at hspawns
    obtain ⟨p, hopen, himage⟩ := bind_eq_ok.1 h
    have hplan : Completed samplePlan := ⟨rfl, by decide, rfl, rfl⟩
    have hstaging : Staging Core.sampleLayout Core.sampleStart none 0x600000 8192 := by
      unfold Staging
      decide
    have hagree := loader_kernel_agreement Core.reach_sampleStart
    have hvalid := hagree.accepted hopen himage hplan hstaging
    rcases hrun : Core.taskNewLimited Core.sampleLayout none x.1 4096 Core.sampleStart with ⟨r, k'⟩
    simp only [Except.toOption, Option.map_some, hrun, Option.some.injEq] at hspawns
    rcases hagree.spawned hvalid nofun hrun with ⟨pid, rfl, hborn⟩ | ⟨e, rfl, -⟩
    · obtain rfl := Option.some.inj hspawns
      exact ⟨x.1, x.2, k', rfl, hvalid, (hagree.pages hvalid).1, hrun, hborn⟩
    · cases hspawns

end SpiritFox.Package
