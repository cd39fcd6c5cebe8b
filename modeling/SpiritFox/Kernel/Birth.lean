import SpiritFox.Kernel.Calm

/-!
# The address space of a new task

`task_new_limited` maps the segments of a plan, the stack, the argument page, the bundle, the registers and the
arena of a device, in this order. No two of these pages are the same (`planPages_nodup`), so a mapping never finds
its page taken; a construction that fails has run out of pages, or was refused a capability or the device
(`triple_raise`). Whatever comes of it, the spaces of the other tasks stay.
-/

namespace SpiritFox.Core

open ByteMem Proc List

/-! ## The pages of a plan -/

def imageBase (p : SfLoadPlan) : Nat := if p.imageBase = 0 then 0x40000000 else p.imageBase

/-- The pages of `n` mappings from `start` on, by number. -/
def pagesFrom (start n : Nat) : List Nat := (List.range n).map fun i => (start + 4096 * i) / 4096

def segmentPages (base : Nat) (s : SfLoadSegment) : List Nat := pagesFrom (base + s.rva) ((s.bytes + 4095) / 4096)

/-- The stack is mapped from its top down. -/
def stackPages : List Nat := (List.range 16).map fun i => (sfStack - 4096 * (i + 1)) / 4096

/-- All the pages that a task made from the plan can have, in the order in which they are mapped. -/
def planPages (L : Layout) (p : SfLoadPlan) : List Nat :=
  (p.segments.take p.count).flatMap (segmentPages (imageBase p)) ++ stackPages ++ [sfArgs / 4096] ++
    pagesFrom sfBundle ((L.bundleBytes + 4095) / 4096) ++ pagesFrom sfDeviceMmio 4 ++ pagesFrom sfDma 16

section Pages

variable {L : Layout} {k : Kernel} {p : SfLoadPlan} {parent : Option TaskId} {m : Nat}

theorem mem_pagesFrom {start n : Nat} (h : m ∈ pagesFrom start n) (ha : start % 4096 = 0) :
    start / 4096 ≤ m ∧ m < start / 4096 + n := by
  obtain ⟨i, hi, rfl⟩ := mem_map.1 h
  have := mem_range.1 hi
  omega

theorem pagesFrom_nodup {start n : Nat} (ha : start % 4096 = 0) : (pagesFrom start n).Nodup := by
  refine List.Nodup.map_on (fun i _ i' _ h => ?_) nodup_range
  omega

theorem mem_stackPages (h : m ∈ stackPages) : 0x41000 ≤ m ∧ m < 0x41010 := by
  obtain ⟨i, hi, rfl⟩ := mem_map.1 h
  have := mem_range.1 hi
  unfold sfStack
  omega

theorem stackPages_nodup : stackPages.Nodup := by decide

/-- The part of the address space that images are loaded to. -/
def imagePage (m : Nat) : Prop := (0x40000 ≤ m ∧ m < 0x40200) ∨ (0x44000 ≤ m ∧ m < 0x50000)

/-- A segment that the image region can take. -/
structure SfLoadSegment.Fits (s : SfLoadSegment) : Prop where
  aligned : s.rva % 4096 = 0
  bytes : s.bytes ≠ 0
  bound : s.rva + s.bytes ≤ 0x200000
  flags : MapFlags s.flags

/-- The pages of one segment end before those of the other begin. -/
def SfLoadSegment.Apart (o s : SfLoadSegment) : Prop := o.pageEnd ≤ s.rva ∨ s.pageEnd ≤ o.rva

theorem segmentOk_fits {before : List SfLoadSegment} {s : SfLoadSegment} (h : segmentOk L k parent before s = true) :
    s.Fits ∧ sourceOk L k parent s = true ∧ ∀ o ∈ before, o.Apart s := by
  unfold segmentOk at h
  simp only [decide_eq_true_eq] at h
  obtain ⟨h1, _, h3, _, _, h6, h7, h8, h9, h10⟩ := h
  refine ⟨⟨h1, h3, by omega, h8⟩, h9, fun o ho => ?_⟩
  have hno := all_eq_true.1 h10 o ho
  simp only [decide_eq_true_eq, not_and, Nat.not_lt] at hno
  rcases Nat.lt_or_ge s.rva o.pageEnd with hlt | hge
  · exact Or.inr (hno hlt)
  · exact Or.inl hge

theorem segmentsOk_fits {before rest : List SfLoadSegment} (h : segmentsOk L k parent before rest = true) :
    (∀ s ∈ rest, s.Fits ∧ sourceOk L k parent s = true ∧ ∀ o ∈ before, o.Apart s) ∧ rest.Pairwise SfLoadSegment.Apart := by
  induction rest generalizing before with
  | nil => exact ⟨nofun, List.Pairwise.nil⟩
  | cons s rest ih =>
    simp only [segmentsOk, Bool.and_eq_true] at h
    have hs := segmentOk_fits h.1
    obtain ⟨hrest, hpair⟩ := ih h.2
    refine ⟨fun s' hs' => ?_, List.Pairwise.cons (fun s' hs' => (hrest s' hs').2.2 s (by simp)) hpair⟩
    rcases mem_cons.1 hs' with rfl | hs'
    · exact hs
    · exact ⟨(hrest s' hs').1, (hrest s' hs').2.1, fun o ho => (hrest s' hs').2.2 o (mem_append_left _ ho)⟩

theorem imageBase_cases (h : imageBaseValid p.imageBase = true) : imageBase p % 4096 = 0 ∧
    (imageBase p = 0x40000000 ∨ 0x44000000 ≤ imageBase p ∧ imageBase p ≤ 0x50000000 - 0x200000) := by
  unfold imageBaseValid sfDma at h
  simp only [decide_eq_true_eq] at h
  unfold imageBase
  split
  · exact ⟨by decide, Or.inl rfl⟩
  · omega

theorem mem_segmentPages {base : Nat} {s : SfLoadSegment} (hb : base % 4096 = 0) (hs : s.Fits)
    (h : m ∈ segmentPages base s) :
    (base + s.rva) / 4096 ≤ m ∧ m < (base + s.pageEnd) / 4096 := by
  have ha := hs.aligned
  have hm := mem_pagesFrom h (by omega)
  unfold SfLoadSegment.pageEnd
  omega

/-- The segments of a valid plan keep apart. -/
theorem segmentPages_nodup {base : Nat} (hb : base % 4096 = 0) {segments : List SfLoadSegment}
    (hfits : ∀ s ∈ segments, s.Fits)
    (hpair : segments.Pairwise SfLoadSegment.Apart) : (segments.flatMap (segmentPages base)).Nodup := by
  refine nodup_flatMap.2 ⟨fun s hs => ?_, ?_⟩
  · have ha := (hfits s hs).aligned
    exact pagesFrom_nodup (by omega)
  refine hpair.imp_of_mem fun {o s} ho hs happart => ?_
  change (segmentPages base o).Disjoint (segmentPages base s)
  rw [disjoint_left]
  intro m hm hm'
  have h₁ := mem_segmentPages hb (hfits o ho) hm
  have h₂ := mem_segmentPages hb (hfits s hs) hm'
  have ha := (hfits s hs).aligned
  have ha' := (hfits o ho).aligned
  unfold SfLoadSegment.Apart SfLoadSegment.pageEnd at happart
  unfold SfLoadSegment.pageEnd at h₁ h₂
  omega

/-- What a valid plan says about its segments. -/
theorem validPlan_segments (h : validPlan L k p parent = true) : (imageBase p % 4096 = 0 ∧
    (imageBase p = 0x40000000 ∨ 0x44000000 ≤ imageBase p ∧ imageBase p ≤ 0x50000000 - 0x200000)) ∧
    (∀ s ∈ p.segments.take p.count, s.Fits ∧ sourceOk L k parent s = true) ∧
    (p.segments.take p.count).Pairwise SfLoadSegment.Apart ∧ p.arguments.bytes ≤ 512 ∧ p.grantDevice ≤ 65536 := by
  unfold validPlan at h
  simp only [decide_eq_true_eq] at h
  obtain ⟨_, _, _, hbase, hargs, hdev, _, _, hsegs, _⟩ := h
  obtain ⟨hfits, hpair⟩ := segmentsOk_fits hsegs
  refine ⟨imageBase_cases hbase, fun s hs => ⟨(hfits s hs).1, (hfits s hs).2.1⟩, hpair, ?_, hdev⟩
  unfold argumentsOk payloadOk at hargs
  simp only [decide_eq_true_eq] at hargs
  obtain ⟨_, _, _, hpay⟩ := hargs
  split at hpay
  · cases hpay
  · omega

theorem mem_imagePages (h : validPlan L k p parent = true)
    (hm : m ∈ (p.segments.take p.count).flatMap (segmentPages (imageBase p))) : imagePage m := by
  obtain ⟨⟨hb, hbase⟩, hfits, _⟩ := validPlan_segments h
  obtain ⟨s, hs, hms⟩ := mem_flatMap.1 hm
  have hfit := (hfits s hs).1
  have hmem := mem_segmentPages hb hfit hms
  have hbound := hfit.bound
  unfold SfLoadSegment.pageEnd at hmem
  unfold imagePage
  omega

/-- **The pages of a valid plan are distinct, and lie in the user part of the address space.** -/
theorem planPages_nodup (h : validPlan L k p parent = true) :
    (planPages L p).Nodup ∧ ∀ m ∈ planPages L p, 0x40000 ≤ m ∧ m < 0x80000 := by
  obtain ⟨⟨hb, _⟩, hfits, hpair, _⟩ := validPlan_segments h
  have hmax := L.bundle_max
  have hsegs := segmentPages_nodup hb (fun s hs => (hfits s hs).1) hpair
  have himage : ∀ m ∈ (p.segments.take p.count).flatMap (segmentPages (imageBase p)), imagePage m :=
    fun m => mem_imagePages h
  have hstack : ∀ m ∈ stackPages, 0x41000 ≤ m ∧ m < 0x41010 := fun m => mem_stackPages
  have hbundle : ∀ m ∈ pagesFrom sfBundle ((L.bundleBytes + 4095) / 4096), 0x60000 ≤ m ∧ m < 0x60400 := fun m hm => by
    have := mem_pagesFrom hm (by decide)
    unfold sfBundle at this
    omega
  have hregs : ∀ m ∈ pagesFrom sfDeviceMmio 4, 0x51000 ≤ m ∧ m < 0x51004 := fun m hm => by
    have := mem_pagesFrom hm (by decide)
    unfold sfDeviceMmio at this
    omega
  have harena : ∀ m ∈ pagesFrom sfDma 16, 0x50000 ≤ m ∧ m < 0x50010 := fun m hm => by
    have := mem_pagesFrom hm (by decide)
    unfold sfDma at this
    omega
  have hargs : sfArgs / 4096 = 0x42000 := by decide
  unfold planPages
  constructor
  · simp only [nodup_append, mem_append, mem_singleton, hargs]
    refine ⟨⟨⟨⟨⟨hsegs, stackPages_nodup, ?_⟩, nodup_singleton _, ?_⟩, pagesFrom_nodup (by decide), ?_⟩,
      pagesFrom_nodup (by decide), ?_⟩, pagesFrom_nodup (by decide), ?_⟩
    all_goals
      intro m hm m' hm' heq
      grind [imagePage]
  · intro m hm
    simp only [mem_append, mem_singleton, hargs] at hm
    grind [imagePage]

end Pages

/-! ## Under construction -/

section Raise

variable {L : Layout} {σ : TaskId → Option (Space L)} {j : TaskId} {l : List Nat} {data : List PageId} {k k' : Kernel}
  {v rights w physical bdf : Nat} {r : Except SfError Unit} {α : Type} {s : SfLoadSegment} {q : TaskId}
  {E : SfError → Kernel → Prop} {page : PageId} {e : SfError} {modern : Bool}

/-- `j` is under construction: the pages of `l` are mapped and no others, and those of `data` are its own. -/
def Raised (L : Layout) (σ : TaskId → Option (Space L)) (j : TaskId) (l : List Nat) (data : List PageId)
    (k : Kernel) : Prop :=
  ∃ s, Holds L σ j s k ∧ (∀ v, s.mapped v ≠ none ↔ v / 4096 ∈ l) ∧ ∀ i ∈ data, s.role i = some .data

/-- What a construction leaves when it is given up: whatever space `j` has, the others have theirs. -/
structure Broken (L : Layout) (σ : TaskId → Option (Space L)) (j : TaskId) (k : Kernel) : Prop where
  state : (k.tasks j).state = .empty
  isolated : ∃ τ, Isolated L k (Function.update σ j τ)

/-- The construction has run out of pages. -/
def Starved (L : Layout) (σ : TaskId → Option (Space L)) (j : TaskId) (e : SfError) (k : Kernel) : Prop :=
  Broken L σ j k ∧ e = .noSpace ∧ Short j k

theorem Raised.broken (h : Raised L σ j l data k) : Broken L σ j k := by
  obtain ⟨s, hs, _⟩ := h
  exact ⟨hs.state, some s, hs.isolated⟩

theorem Raised.calm (h : Raised L σ j l data k) (hc : Calm k k') : Raised L σ j l data k' := by
  obtain ⟨s, hs, hl, hd⟩ := h
  exact ⟨s, hs.calm hc, hl, hd⟩

theorem Raised.subset (h : Raised L σ j l data k) {data' : List PageId} (hsub : data' ⊆ data) : Raised L σ j l data' k := by
  obtain ⟨s, hs, hl, hd⟩ := h
  exact ⟨s, hs, hl, fun i hi => hd i (hsub hi)⟩

/-- The kernel writes to a page of the task. -/
theorem Raised.write (h : Raised L σ j l data k) {i : PageId} (hi : i ∈ data) {m : Mem}
    (hm : DiffIn k.mem m (poolPage L i) 4096) :
    Raised L σ j l data { k with mem := m } := by
  obtain ⟨s, hs, hl, hd⟩ := h
  exact ⟨s, hs.data (hd i hi) hm, hl, hd⟩

/-- A page that was not mapped is mapped, or there was no page for a table. -/
theorem raised_of_mapped {s s' : Space L} {x : Mapping L}
    (hl : ∀ v, s.mapped v ≠ none ↔ v / 4096 ∈ l)
    (hd : ∀ i ∈ data, s.role i = some .data) (hs' : Holds L σ j s' k') (hm : Mapped j s s' v x k' r)
    (hfresh : v / 4096 ∉ l) :
    (∃ u, r = .ok u ∧ Raised L σ j (l ++ [v / 4096]) data k') ∨ ∃ e, r = .error e ∧ Starved L σ j .noSpace k' := by
  rcases r with e | u
  · obtain ⟨_, ⟨_, hshort⟩ | ⟨_, hmapped⟩⟩ := hm
    · exact Or.inr ⟨e, rfl, ⟨hs'.state, some s', hs'.isolated⟩, rfl, hshort⟩
    · exact absurd ((hl v).1 hmapped) hfresh
  · refine Or.inl ⟨u, rfl, s', hs', fun v' => ?_, fun i hi => hm.2.role i _ (hd i hi)⟩
    rw [hm.2.mapped v', mem_append, mem_singleton, ← hl v']
    split <;> simp [*]

theorem Raised.map (h : Raised L σ j l data k) {x : Mapping L} {flags : Nat} (hv : 0x40000000 ≤ v ∧ v < 0x80000000)
    (hva : v % 4096 = 0) (hflags : MapFlags flags) (hx : x.access = Access.ofFlags flags) (hdevice : x.device = false)
    (hrole : ∀ i, x.target = .page i → i ∈ data) (hgranted : x.target.Granted k j) (hfresh : v / 4096 ∉ l)
    (hr : spaceMap L k j v x.target.address flags = (r, k')) :
    (∃ u, r = .ok u ∧ Raised L σ j (l ++ [v / 4096]) data k') ∨ ∃ e, r = .error e ∧ Starved L σ j .noSpace k' := by
  obtain ⟨s, hs, hl, hd⟩ := h
  obtain ⟨s', hs', hm⟩ := hs.map hv hva hflags hx hdevice (fun i hi => hd i (hrole i hi)) hgranted hr
  exact raised_of_mapped hl hd hs' hm hfresh

theorem Raised.mapMmio (h : Raised L σ j l data k) {t : Target L} (hv : 0x40000000 ≤ v ∧ v < 0x80000000)
    (hva : v % 4096 = 0) (hpage : ∀ i, t ≠ .page i) (hbundle : ∀ n, t ≠ .bundle n) (hgranted : t.Granted k j)
    (hfresh : v / 4096 ∉ l) (hr : spaceMapMmio L k j v t.address = (r, k')) :
    (∃ u, r = .ok u ∧ Raised L σ j (l ++ [v / 4096]) data k') ∨ ∃ e, r = .error e ∧ Starved L σ j .noSpace k' := by
  obtain ⟨s, hs, hl, hd⟩ := h
  obtain ⟨s', hs', hm⟩ := hs.mapMmio hv hva hpage (fun n hn => absurd hn (hbundle n)) hgranted hr
  exact raised_of_mapped hl hd hs' hm hfresh

/-- A step that maps one page and reads every failure as "no space". -/
theorem triple_mapStep {a : α} {f : Kernel → Except SfError Unit × Kernel} {P : Kernel → Prop}
    {Q : α → Kernel → Prop}
    (h : ∀ k r k', P k → f k = (r, k') → (∃ u, r = .ok u ∧ Q a k') ∨ ∃ e, r = .error e ∧ Starved L σ j .noSpace k') :
    Triple P (fun k => match f k with | (.error _, k) => (.error .noSpace, k) | (.ok _, k) => (.ok a, k) : KProc α) Q
      (Starved L σ j) := by
  intro k hk
  rcases hf : f k with ⟨r, k'⟩
  dsimp only
  rw [hf]
  rcases h k r k' hk hf with ⟨u, rfl, hq⟩ | ⟨e, rfl, hs⟩
  · exact hq
  · exact hs

/-- A new page of the task, mapped at `v`. -/
theorem triple_mapNew {flags : Nat} (hv : 0x40000000 ≤ v ∧ v < 0x80000000) (hva : v % 4096 = 0) (hflags : MapFlags flags)
    (hfresh : v / 4096 ∉ l) : Triple (Raised L σ j l data) (mapNew L j v flags)
      (fun page => Raised L σ j (l ++ [v / 4096]) (page :: data)) (Starved L σ j) := by
  refine triple_bind (Q := fun page => Raised L σ j l (page :: data)) (triple_callSome fun k h => ?_) fun page =>
    triple_mapStep fun k r k' h hr => ?_
  · obtain ⟨s, hs, hl, hd⟩ := h
    rcases ha : pageAlloc L k (k.tasks j).pid with ⟨_ | i, k'⟩
    · refine ⟨nofun, fun _ => ?_⟩
      obtain rfl := pageAlloc_none ha
      exact ⟨⟨hs.state, some s, hs.isolated⟩, rfl, hs.isolated.short hs.state hs.pid_ne hs.pid_le (by rw [ha])⟩
    · refine ⟨fun page hpage => ?_, nofun⟩
      obtain rfl := Option.some.inj hpage
      obtain ⟨hs', hrole, hown⟩ := hs.alloc (pageAlloc_some ha)
      refine ⟨s.claim i hrole, hs'.claim hrole hown, hl, fun i' hi' => ?_⟩
      rcases mem_cons.1 hi' with rfl | hi'
      · exact Function.update_self _ _ _
      · exact (Space.extends_claim hrole).role i' _ (hd i' hi')
  · have hpage : ∀ i, (Target.page page : Target L) = .page i → i ∈ page :: data := fun i hi => by
      obtain rfl := Target.page.inj hi
      exact mem_cons_self
    exact h.map (x := ⟨.page page, Access.ofFlags flags, false, nofun⟩) hv hva hflags rfl rfl hpage trivial hfresh hr

/-! ## The image -/

theorem length_copyInLoop (L : Layout) (k : Kernel) (j : TaskId) (rounds src n : Nat) :
    (copyInLoop L k j rounds src n).length ≤ n := by
  induction rounds generalizing src n with
  | zero => exact Nat.zero_le n
  | succ rounds ih =>
    unfold copyInLoop
    split
    · exact Nat.zero_le n
    have hrest := ih (src + chunk src n) (n - chunk src n)
    have hchunk : chunk src n ≤ n := Nat.min_le_right _ _
    rw [length_append, length_slice]
    omega

/-- The parent has the bytes of the segment in its map. -/
def Sourced (σ : TaskId → Option (Space L)) (parent : Option TaskId) (j : TaskId) (s : SfLoadSegment) : Prop :=
  ∀ q, parent = some q → q ≠ j ∧ ∃ sq, σ q = some sq ∧ sq.Covers s.data s.bytes false

variable {parent : Option TaskId}

/-- A copy from the parent does not fail. -/
theorem Raised.copyIn (h : Raised L σ j l data k) (hs : Sourced σ parent j s)
    (hq : parent = some q)
    {o n : Nat} (hn : n ≠ 0) (ho : o + n ≤ s.bytes) : ∃ bytes, copyIn L k q (s.data + o) n = some bytes ∧
    bytes.length ≤ n := by
  obtain ⟨hne, sq, hsq, hc⟩ := hs q hq
  obtain ⟨s', hs', _⟩ := h
  have hsq' : Function.update σ j (some s') q = some sq := by rw [Function.update_of_ne hne, hsq]
  have hrange := userRange_of_covers (hs'.isolated.cr3 q sq hsq') (hs'.isolated.represents q sq hsq') hn
    (fun a h₁ h₂ => hc a (by omega) (by omega) : sq.Covers (s.data + o) n false)
  refine ⟨copyInLoop L k q n (s.data + o) n, ?_, length_copyInLoop L k q n _ n⟩
  unfold SpiritFox.Core.copyIn
  rw [if_pos hrange]

theorem triple_loadPage {base i : Nat} (hs : Sourced σ parent j s) (hfits : s.Fits)
    (hb : base % 4096 = 0) (hv : 0x40000000 ≤ base ∧ base + 0x200000 ≤ 0x80000000) (hi : 4096 * i < s.bytes)
    (hfresh : (base + s.rva + 4096 * i) / 4096 ∉ l) : Triple (Raised L σ j l data) (loadPage L parent j base s i)
      (fun _ => Raised L σ j (l ++ [(base + s.rva + 4096 * i) / 4096]) data) (Starved L σ j) := by
  have ha := hfits.aligned
  have hbound := hfits.bound
  refine triple_bind (triple_mapNew (by omega) (by omega) hfits.flags hfresh) fun page k h => ?_
  have hn : min (s.bytes - 4096 * i) 4096 ≠ 0 ∧ 4096 * i + min (s.bytes - 4096 * i) 4096 ≤ s.bytes := by omega
  have hwrite : ∀ bytes : List UInt8, bytes.length ≤ min (s.bytes - 4096 * i) 4096 →
      Raised L σ j (l ++ [(base + s.rva + 4096 * i) / 4096]) data { k with mem := blit k.mem (poolPage L page) bytes } := by
    intro bytes hbytes
    exact (h.write mem_cons_self (DiffIn.refl.blit (Nat.le_refl _) (by omega))).subset (subset_cons_self _ _)
  rcases parent with _ | q
  · exact hwrite _ (by rw [length_slice])
  obtain ⟨bytes, hcopy, hlen⟩ := h.copyIn hs rfl hn.1 hn.2
  dsimp only
  rw [hcopy]
  exact hwrite bytes hlen

/-- A loop whose rounds map the pages `f x`, all of them distinct. -/
theorem triple_pages {I : List Nat → Kernel → Prop} {body : α → KProc PUnit} {f : α → List Nat}
    (xs : List α) (h : ∀ l, ∀ x ∈ xs, (l ++ f x).Nodup → Triple (I l) (body x) (fun _ => I (l ++ f x)) E) (l : List Nat)
    (hnodup : (l ++ xs.flatMap f).Nodup) : Triple (I l) (xs.forM body) (fun _ => I (l ++ xs.flatMap f)) E := by
  induction xs generalizing l with
  | nil =>
    rw [flatMap_nil, append_nil]
    exact triple_pure fun _ hs => hs
  | cons x xs ih =>
    rw [flatMap_cons, ← append_assoc] at hnodup ⊢
    refine triple_bind (h l x mem_cons_self (hnodup.sublist (sublist_append_left _ _))) fun _ => ?_
    exact ih (fun l y hy => h l y (mem_cons_of_mem x hy)) (l ++ f x) hnodup

/-- A loop whose rounds map one page each. -/
theorem triple_pageLoop {I : List Nat → Kernel → Prop} {body : Nat → KProc PUnit} {f : Nat → Nat}
    (n : Nat)
    (h : ∀ l, ∀ i < n, f i ∉ l → Triple (I l) (body i) (fun _ => I (l ++ [f i])) E) {l : List Nat}
    (hnodup : (l ++ (range n).map f).Nodup) :
    Triple (I l) ((range n).forM body) (fun _ => I (l ++ (range n).map f)) E := by
  rw [map_eq_flatMap] at hnodup ⊢
  refine triple_pages _ (fun l i hi hnodup => h l i (mem_range.1 hi) fun hmem => ?_) l hnodup
  exact (nodup_append.1 hnodup).2.2 _ hmem _ (mem_singleton_self _) rfl

theorem triple_loadSegment {base : Nat} (hs : Sourced σ parent j s) (hfits : s.Fits)
    (hb : base % 4096 = 0)
    (hv : 0x40000000 ≤ base ∧ base + 0x200000 ≤ 0x80000000) (hnodup : (l ++ segmentPages base s).Nodup) :
    Triple (Raised L σ j l data) (loadSegment L parent j base s) (fun _ => Raised L σ j (l ++ segmentPages base s) data)
      (Starved L σ j) := by
  refine triple_pageLoop (I := fun l => Raised L σ j l data) _ (fun l i hlt hnew => ?_) hnodup
  exact triple_loadPage hs hfits hb hv (by omega) hnew

theorem triple_stack (hnodup : (l ++ stackPages).Nodup) : Triple (Raised L σ j l data) ((range 16).forM (stackPage L j))
    (fun _ => Raised L σ j (l ++ stackPages) data) (Starved L σ j) := by
  refine triple_pageLoop (I := fun l => Raised L σ j l data) _ (fun l i hlt hnew => ?_) hnodup
  have hstack : sfStack = 0x41010000 := rfl
  refine triple_bind (triple_mapNew (by omega) (by omega) (Or.inr (Or.inl rfl)) hnew) fun page => ?_
  exact triple_pure fun k h => h.subset (subset_cons_self _ _)

/-! ## Arguments, bundle and capabilities -/

theorem diffIn_writeArgs (args pid : Nat) {a : SfArguments} (ha : a.bytes ≤ 512) (m : Mem) :
    DiffIn m (writeArgs args pid a m) args 4096 := by
  have hlen : (a.data.take a.bytes).length ≤ 512 := by
    rw [length_take]
    omega
  have hhead : DiffIn m (store (store
    (store (store (store (store (store m args 4 (96 + a.bytes)) (args + 4) 2 1) (args + 24) 4 pid)
      (args + 44) 4 1) (args + 48) 4 1) (args + 56) 4 a.count) (args + 64) 4 a.envCount) args 4096 := by
    refine DiffIn.store (DiffIn.store (DiffIn.store (DiffIn.store (DiffIn.store (DiffIn.store (DiffIn.store DiffIn.refl
      ?_ ?_) ?_ ?_) ?_ ?_) ?_ ?_) ?_ ?_) ?_ ?_) ?_ ?_ <;> omega
  unfold writeArgs
  refine DiffIn.blit ?_ (by omega) (by omega)
  split <;> split
  · exact (hhead.store (by omega) (by omega)).store (by omega) (by omega)
  · exact hhead.store (by omega) (by omega)
  · exact hhead.store (by omega) (by omega)
  · exact hhead

theorem triple_writeArgs {a : SfArguments} (hpage : page ∈ data)
    (ha : a.bytes ≤ 512) :
    Triple (Raised L σ j l data) (Proc.update fun k => { k with mem := writeArgs (poolPage L page) (k.tasks j).pid a k.mem })
      (fun _ => Raised L σ j l data) E :=
  triple_update fun _ h => h.write hpage (diffIn_writeArgs _ _ ha _)

theorem triple_mapBundle (hpage : page ∈ data)
    (hnodup : (l ++ pagesFrom sfBundle ((L.bundleBytes + 4095) / 4096)).Nodup) :
    Triple (Raised L σ j l data) (mapBundle L j (poolPage L page))
      (fun _ => Raised L σ j (l ++ pagesFrom sfBundle ((L.bundleBytes + 4095) / 4096)) data) (Starved L σ j) := by
  have hmax := L.bundle_max
  have hbundle : sfBundle = 0x60000000 := rfl
  refine triple_bind (triple_pageLoop (I := fun l => Raised L σ j l data) _ (fun l i hlt hnew => ?_) hnodup) fun _ => ?_
  · refine triple_mapStep fun k r k' h hr => ?_
    exact h.map (x := ⟨.bundle ⟨i, hlt⟩, .read, false, fun _ _ => rfl⟩) (by omega) (by omega)
      (Or.inl rfl) rfl rfl nofun trivial
      hnew hr
  · refine triple_update fun k h => h.write hpage ?_
    exact (DiffIn.refl.store (by omega) (by omega)).store (by omega) (by omega)

/-- The parent has no capability under this handle that it could give with these rights. -/
def Unauthorised (k : Kernel) (parent : TaskId) (h rights : Nat) : Prop :=
  7 < rights ∨ ∀ i e, cap k parent h rightDelegate = some (i, e) → rights &&& ((k.tasks parent).caps i).rights ≠ rights

theorem ipcGrant_none {h : Nat} (hg : ipcGrant k q j h rights = (none, k')) :
    k' = k ∧ (Unauthorised k q h rights ∨ capSlot (k.tasks j) = none) := by
  unfold ipcGrant at hg
  split at hg
  · rename_i hcap
    cases hg
    exact ⟨rfl, Or.inl (Or.inr fun i e hc => by rw [hcap] at hc; cases hc)⟩
  · rename_i i e hcap
    dsimp only at hg
    split at hg
    · rename_i hsub
      cases hg
      refine ⟨rfl, Or.inl (Or.inr fun i' e' hc => ?_)⟩
      rw [hcap] at hc
      cases hc
      exact hsub
    · unfold install at hg
      dsimp only at hg
      cases hslot : capSlot (k.tasks j) with
      | none =>
        rw [hslot] at hg
        cases hg
        exact ⟨rfl, Or.inr rfl⟩
      | some i' =>
        rw [hslot] at hg
        cases hg

/-- What the device and its translation refuse with. -/
def DeviceRefusal (e : SfError) : Prop := e = .busy ∨ e = .deviceGone ∨ e = .denied ∨ e = .badFormat

/-- Why a construction fails, in the state in which it fails. -/
inductive Refused (parent : Option TaskId) (j : TaskId) (p : SfLoadPlan) (k : Kernel) : SfError → Prop
  | pages (h : Short j k) : Refused parent j p k .noSpace
  | authority {q : TaskId} {h rights : Nat} (hq : parent = some q) (hh : h ≠ 0)
      (hg : (h = p.grantManager ∧ rights = rightSend) ∨ (h = p.grantService ∧ rights = p.serviceRights))
      (hu : Unauthorised k q h rights) : Refused parent j p k .noSpace
  | slots (h : capSlot (k.tasks j) = none) : Refused parent j p k .noSpace
  | device {e : SfError} (hd : p.grantDevice ≠ 0) (he : DeviceRefusal e) : Refused parent j p k e

def Failed (L : Layout) (σ : TaskId → Option (Space L)) (parent : Option TaskId) (j : TaskId) (p : SfLoadPlan) (e : SfError)
    (k : Kernel) : Prop :=
  Broken L σ j k ∧ Refused parent j p k e

variable {p : SfLoadPlan}

theorem Starved.failed (h : Starved L σ j e k) : Failed L σ parent j p e k := by
  obtain ⟨hb, rfl, hs⟩ := h
  exact ⟨hb, .pages hs⟩

theorem triple_grantCap {h o : Nat} (hq : parent = some q)
    (hg : (h = p.grantManager ∧ rights = rightSend) ∨ (h = p.grantService ∧ rights = p.serviceRights)) (hpage : page ∈ data)
    (ho : o + 4 ≤ 4096) :
    Triple (Raised L σ j l data) (grantCap q j h rights (poolPage L page + o)) (fun _ => Raised L σ j l data)
      (Failed L σ parent j p) := by
  unfold grantCap
  refine triple_ite (fun _ => triple_pure fun k hk => hk) fun hh =>
    triple_ite (fun hr => triple_fail fun k hk => ?_) fun _ => ?_
  · exact ⟨hk.broken, .authority hq hh hg (Or.inl hr)⟩
  refine triple_bind (Q := fun _ => Raised L σ j l data)
    (triple_callSome fun k hk => ⟨fun _ _ => ?_, fun hnone => ?_⟩) fun n => ?_
  · exact hk.calm (mild_ipcGrant k q j h rights).calm
  · rcases hgrant : ipcGrant k q j h rights with ⟨_ | n, k'⟩
    case some =>
      rw [hgrant] at hnone
      cases hnone
    obtain ⟨rfl, hwhy⟩ := ipcGrant_none hgrant
    rcases hwhy with hu | hs
    · exact ⟨hk.broken, .authority hq hh hg hu⟩
    · exact ⟨hk.broken, .slots hs⟩
  · exact triple_update fun k hk => hk.write hpage (DiffIn.refl.store (by omega) (by omega))

theorem triple_grantCaps (hpage : page ∈ data) : Triple (Raised L σ j l data)
    (grantCaps parent j p (poolPage L page)) (fun _ => Raised L σ j l data) (Failed L σ parent j p) := by
  unfold grantCaps
  split
  · exact triple_pure fun k hk => hk
  rename_i q
  refine triple_bind (triple_grantCap rfl (Or.inl ⟨rfl, rfl⟩) hpage (by decide)) fun _ => ?_
  exact triple_grantCap rfl (Or.inr ⟨rfl, rfl⟩) hpage (by decide)

/-! ## The device -/

/-- The grant of a device ends without one. -/
def NoDevice (L : Layout) (σ : TaskId → Option (Space L)) (j : TaskId) (e : SfError) (k : Kernel) : Prop :=
  Broken L σ j k ∧ (e = .noSpace ∧ Short j k ∨ DeviceRefusal e)

theorem Broken.calm (h : Broken L σ j k) (hc : Calm k k') : Broken L σ j k' := by
  obtain ⟨hstate, τ, hτ⟩ := h
  refine ⟨?_, τ, hτ.calm hc⟩
  rcases hc.state j with heq | ⟨hb, _⟩
  · exact heq.trans hstate
  · rw [hstate] at hb
    cases hb

theorem NoDevice.release (h : NoDevice L σ j e k) : NoDevice L σ j e (deviceRelease k j).2 := by
  refine ⟨h.1.calm (mild_deviceRelease k j).calm, h.2.imp_left fun ⟨he, hs⟩ => ⟨he, ?_⟩⟩
  obtain ⟨hw, iommu, quarantined, fault, io, heq⟩ := deviceRelease_eq k j
  rw [heq]
  unfold Short at hs ⊢
  simpa [Kernel.setTask] using hs

/-- The device is nobody's, and its registers are at `w`. -/
def Vacant (L : Layout) (σ : TaskId → Option (Space L)) (j : TaskId) (l : List Nat) (data : List PageId) (w : Nat)
    (k : Kernel) : Prop :=
  Raised L σ j l data k ∧ k.deviceOwner = 0 ∧ k.devicePt = w

/-- The device is the new task's, and its registers are at `w`. -/
def Taken (L : Layout) (σ : TaskId → Option (Space L)) (j : TaskId) (data : List PageId) (w : Nat) (l : List Nat)
    (k : Kernel) : Prop :=
  Raised L σ j l data k ∧ k.deviceOwner = (k.tasks j).pid ∧ k.devicePt = w

theorem Vacant.asked (h : Vacant L σ j l data w k) (ha : Asked k k') : Vacant L σ j l data w k' := by
  refine ⟨h.1.calm ha.mild.calm, ?_⟩
  obtain ⟨hw, iommu, rfl⟩ := ha
  exact h.2

theorem Taken.asked (h : Taken L σ j data w l k) (ha : Asked k k') : Taken L σ j data w l k' := by
  refine ⟨h.1.calm ha.mild.calm, ?_⟩
  obtain ⟨hw, iommu, rfl⟩ := ha
  exact h.2

section Questions

variable {P : Kernel → Prop} (hP : ∀ {k k'}, P k → Asked k k' → P k')

include hP

theorem triple_configRead {E : SfError → Kernel → Prop} : Triple P configRead (fun _ => P) E :=
  triple_call fun _ hk => hP hk asked_hwRead

theorem triple_virtioCap (cap h found : Nat) :
    Triple P (virtioCap cap h found) (fun _ => P) fun e k => P k ∧ DeviceRefusal e := by
  have hread : Triple P configRead (fun _ => P) fun e k => P k ∧ DeviceRefusal e := triple_configRead hP
  unfold virtioCap
  refine triple_ite (fun _ => triple_fail fun k hk => ⟨hk, by simp [DeviceRefusal]⟩) fun _ => ?_
  refine triple_bind hread fun id => triple_bind hread fun off => triple_bind hread fun n => ?_
  refine triple_ite (fun _ => triple_fail fun k hk => ⟨hk, by simp [DeviceRefusal]⟩) fun _ => ?_
  refine triple_ite (fun _ => triple_pure fun _ hk => hk) fun _ => triple_ite (fun _ => ?_) fun _ => ?_
  · exact triple_bind hread fun _ => triple_pure fun _ hk => hk
  · exact triple_ite (fun _ => triple_pure fun _ hk => hk) fun _ => triple_pure fun _ hk => hk

theorem triple_walkCaps (steps cap found : Nat) :
    Triple P (walkCaps steps cap found) (fun _ => P) fun e k => P k ∧ DeviceRefusal e := by
  induction steps generalizing cap found with
  | zero => exact triple_pure fun _ hk => hk
  | succ steps ih =>
    unfold walkCaps
    refine triple_ite (fun _ => triple_pure fun _ hk => hk) fun _ => ?_
    refine triple_ite (fun _ => triple_fail fun k hk => ⟨hk, by simp [DeviceRefusal]⟩) fun _ => ?_
    refine triple_bind (triple_configRead hP) fun h => ?_
    split
    · exact triple_bind (triple_virtioCap hP _ _ _) fun _ => ih _ _
    · exact triple_bind (triple_pure fun _ hk => hk) fun _ => ih _ _

end Questions

/-- The window of a modern device, which the registers are mapped to. -/
def Window (physical : Nat) : Prop := physical % 16384 = 0 ∧ 0xc0000000 ≤ physical ∧ physical < 2 ^ 48 - 16384

theorem Vacant.refuse (h : Vacant L σ j l data w k) (he : DeviceRefusal e) : NoDevice L σ j e k :=
  ⟨h.1.broken, Or.inr he⟩

theorem triple_modernWindow (bar : Nat) : Triple (Vacant L σ j l data w) (modernWindow bar)
    (fun physical k => Vacant L σ j l data physical k ∧ Window physical) (NoDevice L σ j) := by
  have hread : Triple (Vacant L σ j l data w) configRead (fun _ => Vacant L σ j l data w) (NoDevice L σ j) :=
    triple_configRead .asked
  have hdenied : DeviceRefusal .denied := by simp [DeviceRefusal]
  unfold modernWindow
  refine triple_read_of fun k₀ _ => triple_ite (fun _ => triple_fail fun k hk => hk.refuse hdenied) fun _ => ?_
  refine triple_bind hread fun high => triple_ite (fun _ => triple_fail fun k hk => hk.refuse hdenied) fun hwindow => ?_
  refine triple_bind hread fun first => ?_
  have hwalk : Triple (Vacant L σ j l data w) (walkCaps 48 (first % 256) 0) (fun _ => Vacant L σ j l data w)
    (NoDevice L σ j) :=
    triple_weaken (triple_walkCaps .asked _ _ _) (fun _ hk => hk) (fun _ _ hk => hk) fun _ _ hk => hk.1.refuse hk.2
  refine triple_bind hwalk fun (cap, found) => triple_ite (fun _ => triple_fail fun k hk => hk.refuse hdenied) fun _ => ?_
  unfold spaceDeviceMmio
  refine triple_bind (Q := fun _ k => Vacant L σ j l data _ k ∧ Window _) ?_ fun _ => triple_pure fun k hk => hk
  refine triple_read_of fun k₁ _ => triple_ite (fun _ => triple_fail fun k hk => hk.refuse hdenied) fun _ => ?_
  refine triple_update fun k hk => ⟨⟨hk.1.calm ?_, hk.2.1, rfl⟩, by unfold Window; omega⟩
  exact ⟨rfl, rfl, rfl, Or.inl hk.2.1, rfl, fun _ => rfl, fun _ => rfl, fun _ => rfl, fun _ => Or.inl rfl⟩

/-! ## Its registers and its arena -/

theorem Taken.step {l' : List Nat} (h : Taken L σ j data w l k) (hs : Same k k')
    (hd : k'.deviceOwner = k.deviceOwner ∧ k'.devicePt = k.devicePt) (hr : Raised L σ j l' data k') :
    Taken L σ j data w l' k' :=
  ⟨hr, by rw [hd.1, hs.pid, h.2.1], by rw [hd.2, h.2.2]⟩

theorem triple_mapRegisters (hw : Window w) (hnodup : (l ++ pagesFrom sfDeviceMmio 4).Nodup) :
    Triple (Taken L σ j data w l) ((range 4).forM fun i => fun k =>
      match spaceMapMmio L k j (sfDeviceMmio + 4096 * i) (w + 4096 * i) with
      | (.error _, k) => (.error .noSpace, k)
      | (.ok _, k) => (.ok ⟨⟩, k)) (fun _ => Taken L σ j data w (l ++ pagesFrom sfDeviceMmio 4)) (Starved L σ j) := by
  have hmmio : sfDeviceMmio = 0x51000000 := rfl
  obtain ⟨haligned, hlow, hhigh⟩ := hw
  refine triple_pageLoop (I := Taken L σ j data w) _ (fun l i hlt hnew => ?_) hnodup
  refine triple_mapStep fun k r k' h hr => ?_
  have hsame := same_spaceMapMmio L k j (sfDeviceMmio + 4096 * i) (w + 4096 * i)
  have hdevice := device_spaceMapMmio L k j (sfDeviceMmio + 4096 * i) (w + 4096 * i)
  rw [hr] at hsame hdevice
  refine (h.1.mapMmio (t := .registers (w + 4096 * i) (by omega) (by omega) (by omega)) (by omega) (by omega) nofun nofun ?_
    hnew hr).imp_left fun ⟨u, hu, hraised⟩ => ⟨u, hu, h.step hsame hdevice hraised⟩
  refine ⟨h.2.1, ?_⟩
  rw [h.2.2]
  omega

theorem triple_mapArena (hnodup : (l ++ pagesFrom sfDma 16).Nodup) :
    Triple (Taken L σ j data w l) ((range 16).forM fun i => fun k =>
      match spaceMap L k j (sfDma + 4096 * i) (L.dma + 4096 * i) 3 with
      | (.error _, k) => (.error .noSpace, k)
      | (.ok _, k) => (.ok ⟨⟩, k)) (fun _ => Taken L σ j data w (l ++ pagesFrom sfDma 16)) (Starved L σ j) := by
  have hdma : sfDma = 0x50000000 := rfl
  refine triple_pageLoop (I := Taken L σ j data w) _ (fun l i hlt hnew => ?_) hnodup
  refine triple_mapStep fun k r k' h hr => ?_
  have hsame := same_spaceMap L k j (sfDma + 4096 * i) (L.dma + 4096 * i) 3
  have hdevice := device_spaceMap L k j (sfDma + 4096 * i) (L.dma + 4096 * i) 3
  rw [hr] at hsame hdevice
  exact (h.1.map (x := ⟨.arena ⟨i, hlt⟩, .write, false, nofun⟩) (by omega) (by omega)
    (Or.inr (Or.inl rfl)) rfl rfl nofun h.2.1
    hnew hr).imp_left fun ⟨u, hu, hraised⟩ => ⟨u, hu, h.step hsame hdevice hraised⟩

/-- The pages of a device: its registers, when it is a modern one, and the arena. -/
def devicePages (modern : Bool) : List Nat := (if modern then pagesFrom sfDeviceMmio 4 else []) ++ pagesFrom sfDma 16

theorem triple_mapDevice (hw : modern = true → physical = w ∧ Window w)
    (hnodup : (l ++ devicePages modern).Nodup) : Triple (Taken L σ j data w l) (mapDevice L j modern physical)
      (fun _ => Taken L σ j data w (l ++ devicePages modern)) (Starved L σ j) := by
  unfold devicePages at hnodup ⊢
  cases modern with
  | false =>
    rw [if_neg Bool.false_ne_true, nil_append] at hnodup ⊢
    exact triple_mapArena hnodup
  | true =>
    obtain ⟨rfl, hwindow⟩ := hw rfl
    rw [if_pos rfl, ← append_assoc] at hnodup ⊢
    exact triple_bind (triple_mapRegisters hwindow (hnodup.sublist (sublist_append_left _ _))) fun _ =>
      triple_mapArena hnodup

theorem iommuGrant_error (h : (iommuGrant k bdf physical).1 = .error e) :
    DeviceRefusal e := by
  unfold iommuGrant at h
  split at h
  · cases h
  split at h
  · cases h
    simp [DeviceRefusal]
  split at h
  · cases h
    simp [DeviceRefusal]
  split at h
  · cases h
    simp [DeviceRefusal]
  · cases h

theorem triple_enableDevice : Triple (Taken L σ j data w l) (enableDevice L bdf modern)
    (fun _ => Taken L σ j data w l) (NoDevice L σ j) := by
  have hread : Triple (Taken L σ j data w l) configRead (fun _ => Taken L σ j data w l) (NoDevice L σ j) :=
    triple_configRead .asked
  refine triple_bind (Q := fun _ => Taken L σ j data w l) (fun k hk => ?_) fun address => ?_
  · have hasked := hk.asked (asked_iommuGrant k bdf L.dma)
    rcases hg : iommuGrant k bdf L.dma with ⟨e | address, k'⟩ <;> rw [hg] at hasked
    · exact ⟨hasked.1.broken, Or.inr (iommuGrant_error (k := k) (by rw [hg]))⟩
    · exact hasked
  · refine triple_bind hread fun _ => triple_bind hread fun command => ?_
    refine triple_ite (fun _ => triple_fail fun k hk => ?_) fun _ => triple_pure fun _ hk => hk
    exact ⟨hk.1.broken, Or.inr (by simp [DeviceRefusal])⟩

theorem diffIn_grantArgs (m : Mem) (args x y z u v : Nat) :
    DiffIn m (store (store (store (store (store m (args + 72) 8 x) (args + 80) 8 y) (args + 88) 4 z)
      (args + 92) 2 u) (args + 94) 2 v)
      args 4096 := by
  refine DiffIn.store (DiffIn.store (DiffIn.store
    (DiffIn.store (DiffIn.store DiffIn.refl ?_ ?_) ?_ ?_) ?_ ?_) ?_ ?_) ?_ ?_ <;> omega

/-- The device is given to the task, and the arena is cleared. -/
theorem Vacant.take (h : Vacant L σ j l data w k) :
    Taken L σ j data w l { k with deviceOwner := (k.tasks j).pid, mem := clear k.mem L.dma sfDmaBytes } := by
  obtain ⟨⟨s, hs, hl, hd⟩, h0, hw⟩ := h
  have hdisjoint := L.dma_disjoint
  have hs' := hs.outside (m := clear k.mem L.dma sfDmaBytes) (eqOn_clear (by unfold sfDmaBytes; omega))
  refine ⟨⟨s, ⟨hs'.isolated.setDevice (fun j' hj' hown => ?_) _, hs'.state, hs'.pid_le⟩, hl, hd⟩, rfl, hw⟩
  exact hs'.isolated.named j' hj' (hown.symm.trans h0)

theorem Vacant.updateTask (h : Vacant L σ j l data w k) {t : Task} (hpid : t.pid = (k.tasks j).pid)
    (hcr3 : t.cr3 = (k.tasks j).cr3) (hbuffer : t.recvBuffer = (k.tasks j).recvBuffer)
    (hstate : t.state = (k.tasks j).state) :
    Vacant L σ j l data w (k.setTask j t) :=
  ⟨h.1.calm (calm_setTask hpid hcr3 hbuffer (Or.inl hstate)), h.2⟩

theorem triple_takeDevice {io : Nat} (hpage : page ∈ data)
    (hw : modern = true → physical = w ∧ Window w) (hnodup : (l ++ devicePages modern).Nodup) :
    Triple (Vacant L σ j l data w) (takeDevice L j (poolPage L page) bdf rights io physical modern)
      (fun _ => Raised L σ j (l ++ devicePages modern) data) (NoDevice L σ j) := by
  unfold takeDevice updateTask releaseOnError
  refine triple_bind (Q := fun _ => Vacant L σ j l data w)
    (triple_update fun k h => h.updateTask rfl rfl rfl rfl) fun _ => ?_
  refine triple_bind (Q := fun _ => Vacant L σ j l data w) (triple_call fun k h => ?_) fun gone => ?_
  · refine ⟨h.1.calm (mild_deviceRelease k j).calm, ?_⟩
    obtain ⟨hw', iommu, quarantined, fault, io', heq⟩ := deviceRelease_eq k j
    rw [heq]
    exact h.2
  refine triple_ite (fun _ => triple_fail fun k h => h.refuse (by simp [DeviceRefusal])) fun _ => ?_
  refine triple_bind (Q := fun _ => Vacant L σ j l data w)
    (triple_update fun k h => h.updateTask rfl rfl rfl rfl) fun _ => ?_
  refine triple_bind (Q := fun _ => Taken L σ j data w l) (triple_update fun k h => h.take) fun _ => ?_
  refine triple_onError (F := NoDevice L σ j) ?_ fun e k h => h.release
  have hmap : Triple (Taken L σ j data w l) (mapDevice L j modern physical)
    (fun _ => Taken L σ j data w (l ++ devicePages modern))
      (NoDevice L σ j) :=
    triple_weaken (triple_mapDevice hw hnodup) (fun _ h => h) (fun _ _ h => h) fun _ _ h => ⟨h.1, Or.inl h.2⟩
  refine triple_bind hmap fun _ => triple_bind triple_enableDevice fun address => triple_update fun k h => ?_
  exact h.1.write hpage (diffIn_grantArgs _ _ _ _ _ _ _)

theorem triple_deviceGrant {n : Nat} (hpage : page ∈ data) (hn : n ≠ 0 ∧ n ≤ 65536)
    (hnodup : ∀ modern, (l ++ devicePages modern).Nodup) :
    Triple (Raised L σ j l data) (deviceGrant L j n rights (poolPage L page))
      (fun _ k => ∃ modern, Raised L σ j (l ++ devicePages modern) data k) (NoDevice L σ j) := by
  have hmore : ∀ {w physical : Nat} {modern : Bool} (io : Nat), (modern = true → physical = w ∧ Window w) →
      Triple (Vacant L σ j l data w) (takeDevice L j (poolPage L page) (n - 1) rights io physical modern)
        (fun _ k => ∃ modern, Raised L σ j (l ++ devicePages modern) data k) (NoDevice L σ j) := fun io hw =>
    triple_weaken (triple_takeDevice hpage hw (hnodup _)) (fun _ h => h) (fun _ _ h => ⟨_, h⟩) fun _ _ h => h
  unfold deviceGrant
  intro k hk
  refine triple_read (P := fun k' => k' = k) (fun k₀ h₀ => ?_) k rfl
  obtain rfl := h₀
  refine triple_ite (fun h => by omega) fun _ => triple_ite (fun _ => triple_fail fun k' h => ?_) fun hfree => ?_
  · rw [h]
    exact ⟨hk.broken, Or.inr (by simp [DeviceRefusal])⟩
  refine triple_ite (fun _ => triple_fail fun k' h => ?_) fun _ => ?_
  · rw [h]
    exact ⟨hk.broken, Or.inr (by simp [DeviceRefusal])⟩
  have hvacant : Vacant L σ j l data k₀.devicePt k₀ := ⟨hk, by simpa using (not_or.1 hfree).1, rfl⟩
  have hread : Triple (Vacant L σ j l data k₀.devicePt) configRead (fun _ => Vacant L σ j l data k₀.devicePt)
    (NoDevice L σ j) :=
    triple_configRead .asked
  refine triple_weaken ?_ (fun k' h => (h.symm ▸ hvacant : Vacant L σ j l data k₀.devicePt k'))
    (fun _ _ h => h) fun _ _ h => h
  refine triple_bind hread fun identity => ?_
  split
  · rename_i e he
    refine triple_fail fun k' h => h.refuse ?_
    unfold deviceKind at he
    split at he
    · cases he
      simp [DeviceRefusal]
    · split at he <;> cases he
      simp [DeviceRefusal]
  · rename_i modern _
    refine triple_bind hread fun bar => triple_ite (fun hm => ?_) fun hm => ?_
    · refine triple_bind (triple_modernWindow bar) fun physical => ?_
      intro k' h
      exact hmore _ (fun _ => ⟨rfl, h.2⟩) k' h.1
    · refine triple_ite (fun _ => triple_fail fun k' h => h.refuse (by simp [DeviceRefusal])) fun _ => ?_
      exact hmore _ nofun

/-! ## The whole construction -/

/-- The pages of the bundle, where the plan or the boot asks for it. -/
def bundlePages (L : Layout) (parent : Option TaskId) (p : SfLoadPlan) : List Nat :=
  if parent = none ∨ p.grantBundle ≠ 0 then pagesFrom sfBundle ((L.bundleBytes + 4095) / 4096) else []

/-- The pages that a construction maps, those of the device by the kind that is found. -/
def bornPages (L : Layout) (parent : Option TaskId) (p : SfLoadPlan) (modern : Bool) : List Nat :=
  (p.segments.take p.count).flatMap (segmentPages (imageBase p)) ++ stackPages ++ [sfArgs / 4096] ++
    bundlePages L parent p ++ if p.grantDevice = 0 then [] else devicePages modern

/-- The new task can run: it has these pages and no others. -/
def Born (L : Layout) (σ : TaskId → Option (Space L)) (parent : Option TaskId) (j : TaskId) (p : SfLoadPlan)
    (k : Kernel) : Prop :=
  ∃ (s : Space L) (modern : Bool), Isolated L k (Function.update σ j (some s)) ∧
    ∀ v, s.mapped v ≠ none ↔ v / 4096 ∈ bornPages L parent p modern

theorem devicePages_sublist (modern : Bool) :
    (devicePages modern).Sublist (pagesFrom sfDeviceMmio 4 ++ pagesFrom sfDma 16) := by
  unfold devicePages
  cases modern with
  | false => exact sublist_append_right _ _
  | true => exact List.Sublist.refl _

/-- The task has its slot and its pid, and nothing else. -/
structure Bare (L : Layout) (σ : TaskId → Option (Space L)) (j : TaskId) (k : Kernel) : Prop where
  isolated : Isolated L k σ
  state : (k.tasks j).state = .empty
  pid_ne : (k.tasks j).pid ≠ 0
  pid_le : (k.tasks j).pid ≤ 0x7fffffff

/-- The start of a construction, by the table that `space_new` returned. -/
def Founded (L : Layout) (σ : TaskId → Option (Space L)) (j : TaskId) (cr3 : Nat) (k : Kernel) : Prop :=
  cr3 = 0 ∧ Starved L σ j .noSpace k ∨ cr3 ≠ 0 ∧ Raised L σ j [] [] k

theorem triple_spaceNew (hσ : σ j = none) :
    Triple (Bare L σ j) (Proc.call fun k => spaceNew L k (k.tasks j).pid)
      (fun cr3 k => Founded L σ j cr3 (k.setTask j { k.tasks j with cr3 := cr3 })) E := by
  refine triple_call fun k hk => ?_
  rcases hr : spaceNew L k (k.tasks j).pid with ⟨cr3, k'⟩
  have hsame := same_spaceNew L k (k.tasks j).pid
  rw [hr] at hsame
  rcases isolated_spaceNew hk.isolated hσ hk.state hk.pid_ne hk.pid_le hr with ⟨h0, hk', hshort⟩ | ⟨hne, s, hempty, hs⟩
  · refine Or.inl ⟨h0, ⟨?_, none, ?_⟩, rfl, ?_⟩
    · have hstate := hsame.state j
      rw [hk.state] at hstate
      simpa [Kernel.setTask] using hstate
    · rw [show Function.update σ j none = σ by rw [← hσ, Function.update_eq_self]]
      exact hk'.setCr3 hσ cr3
    · unfold Short at hshort ⊢
      simpa [Kernel.setTask] using hshort
  · exact Or.inr ⟨hne, s, hs, fun v => by simp [hempty v], by simp⟩

theorem triple_grantBundle (hpage : page ∈ data) (hnodup : (l ++ bundlePages L parent p).Nodup) :
    Triple (Raised L σ j l data) (grantBundle L parent j p (poolPage L page))
      (fun _ => Raised L σ j (l ++ bundlePages L parent p) data)
      (Starved L σ j) := by
  unfold grantBundle
  unfold bundlePages at hnodup ⊢
  refine triple_ite (fun h => ?_) fun h => ?_
  · rw [if_pos h] at hnodup ⊢
    exact triple_mapBundle hpage hnodup
  · rw [if_neg h, append_nil]
    exact triple_pure fun _ hk => hk

theorem triple_grantDevice (hpage : page ∈ data) (hn : p.grantDevice ≤ 65536)
    (hnodup : ∀ modern, (l ++ devicePages modern).Nodup) : Triple (Raised L σ j l data) (grantDevice L j p (poolPage L page))
      (fun _ k => ∃ modern, Raised L σ j (l ++ if p.grantDevice = 0 then [] else devicePages modern) data k)
      (Failed L σ parent j p) := by
  unfold grantDevice
  refine triple_ite (fun hne => ?_) fun hzero => triple_pure fun k hk => ⟨false, ?_⟩
  swap
  · rwa [if_pos (not_not.1 hzero), append_nil]
  simp only [if_neg hne]
  refine triple_weaken (triple_deviceGrant hpage ⟨hne, hn⟩ hnodup) (fun _ hk => hk) (fun _ _ hk => hk) fun e k hk => ?_
  obtain ⟨hb, ⟨rfl, hs⟩ | he⟩ := hk
  · exact ⟨hb, .pages hs⟩
  · exact ⟨hb, .device hne he⟩

theorem triple_failed {P : Kernel → Prop} {m : KProc α} {Q : α → Kernel → Prop}
    (h : Triple P m Q (Starved L σ j)) :
    Triple P m Q (Failed L σ parent j p) :=
  triple_weaken h (fun _ hk => hk) (fun _ _ hk => hk) fun _ _ hk => hk.failed

theorem pages_sublist (parent : Option TaskId) (l' : List Nat)
    (h : l'.Sublist (pagesFrom sfDeviceMmio 4 ++ pagesFrom sfDma 16)) :
    ((p.segments.take p.count).flatMap (segmentPages (imageBase p)) ++ stackPages ++ [sfArgs / 4096] ++
      bundlePages L parent p ++ l').Sublist
      (planPages L p) := by
  have hbundle : (bundlePages L parent p).Sublist (pagesFrom sfBundle ((L.bundleBytes + 4095) / 4096)) := by
    unfold bundlePages
    split
    · exact List.Sublist.refl _
    · exact nil_sublist _
  unfold planPages
  rw [append_assoc _ (pagesFrom sfDeviceMmio 4)]
  exact ((List.Sublist.refl _).append hbundle).append h

theorem bornPages_sublist (parent : Option TaskId) (modern : Bool) :
    (bornPages L parent p modern).Sublist (planPages L p) := by
  refine pages_sublist parent _ ?_
  split
  · exact nil_sublist _
  · exact devicePages_sublist modern

/-- **What comes of a construction**: the task has the pages of its plan, or it was refused pages, capabilities or
the device. -/
theorem triple_raise {k₀ : Kernel} (hσ : σ j = none) (hvalid : validPlan L k₀ p parent = true)
    (hsource : ∀ s ∈ p.segments.take p.count, Sourced σ parent j s) :
    Triple (Bare L σ j) (construct L parent j p) (fun _ => Born L σ parent j p) (Failed L σ parent j p) := by
  obtain ⟨⟨hb, hbase⟩, hfits, _, hbytes, hdevice⟩ := validPlan_segments hvalid
  have hnodup := (planPages_nodup hvalid).1
  have hall := hnodup.sublist (pages_sublist parent _ (List.Sublist.refl _))
  have hbundle := hall.sublist (sublist_append_left _ _)
  have hargs := hbundle.sublist (sublist_append_left _ _)
  have hstack := hargs.sublist (sublist_append_left _ _)
  have himage := hstack.sublist (sublist_append_left _ _)
  unfold construct
  refine triple_bind (triple_spaceNew hσ) fun cr3 =>
    triple_bind (Q := fun _ => Founded L σ j cr3) (triple_update fun k hk => hk) fun _ => ?_
  refine triple_ite (fun h0 => triple_fail fun k hk => ?_) fun hne => ?_
  · rcases hk with ⟨_, hs⟩ | ⟨hne, _⟩
    · exact hs.failed
    · exact absurd h0 hne
  refine triple_weaken (S := Raised L σ j [] []) ?_ (fun k hk => (hk.resolve_left fun h => hne h.1).2)
    (fun _ _ hk => hk) fun _ _ hk => hk
  have hload : Triple (Raised L σ j [] []) ((p.segments.take p.count).forM (loadSegment L parent j (imageBase p)))
      (fun _ => Raised L σ j ([] ++ (p.segments.take p.count).flatMap (segmentPages (imageBase p))) [])
        (Failed L σ parent j p) :=
    triple_failed (triple_pages (I := fun l => Raised L σ j l []) _
      (fun l s hs hl => triple_loadSegment (hsource s hs) (hfits s hs).1 hb (by omega) hl) [] himage)
  refine triple_bind hload fun _ => triple_bind (triple_failed (triple_stack hstack)) fun _ => ?_
  refine triple_bind (triple_failed (triple_mapNew (by decide) (by decide) (Or.inl rfl)
    (nodup_append.1 hargs |>.2.2 _ · _ (by simp) rfl))) fun page => ?_
  refine triple_bind (triple_writeArgs mem_cons_self hbytes) fun _ => ?_
  refine triple_bind (triple_failed (triple_grantBundle mem_cons_self hbundle)) fun _ => ?_
  refine triple_bind (triple_grantCaps mem_cons_self) fun _ => ?_
  refine triple_bind (triple_grantDevice mem_cons_self hdevice fun modern => ?_) fun _ => triple_update fun k hk => ?_
  · exact hnodup.sublist (pages_sublist _ _ (devicePages_sublist modern))
  obtain ⟨modern, s, hs, hl, _⟩ := hk
  refine ⟨s, modern, hs.isolated.setTask rfl (fun _ => rfl) (fun _ => ?_) nofun, hl⟩
  rw [Function.update_self]
  exact Option.some_ne_none s

end Raise

end SpiritFox.Core
