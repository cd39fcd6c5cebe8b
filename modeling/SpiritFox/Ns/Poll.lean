import SpiritFox.Ns.Contents

/-!
# Polling

`sf_ns_poll` is meant to say whether a read and a write would go ahead. What makes a read wait is `SfNode.Waits`
or the driver of a disk file (`sfNsRead_waits`); what makes a write fail is a full pipe or the driver
(`sfNsWrite_refused`). The main result `poll_agrees` compares both with the mask. A console is reported as readable
although every read of it waits, and a disk file without a driver as writable.
-/

namespace SpiritFox.Ns

open ByteMem

/-- The answers that tell a writer to come back later or not at all. -/
def Refusal (r : Int) : Prop := r = SfError.wouldBlock.code ∨ r = SfError.denied.code ∨ r = SfError.readOnly.code

/-- The driver of a disk file makes this read wait. -/
def Backend.Stalls (b : Backend) (x : SfNode) (offset bytes : Nat) : Prop :=
  x.type = some .disk ∧ ∃ f, b.externalRead = some f ∧ (f x.external offset bytes).1 = SfError.wouldBlock.code

/-- The driver of the node answers this write with `e`; without one a disk file is read-only. -/
def Backend.Refuses (b : Backend) (x : SfNode) (offset : Nat) (data : List UInt8) (e : Int) : Prop :=
  x.type = some .console ∧ (∃ f, b.console = some f ∧ f data = e) ∨
  x.type = some .disk ∧ (b.externalWrite = none ∧ e = SfError.readOnly.code ∨
    ∃ f, b.externalWrite = some f ∧ f x.external offset data = e)

/-- A read of the node has to wait. -/
def SfNode.Waits (x : SfNode) : Prop := x.type = some .console ∨ x.type = some .pipe ∧ x.size = 0 ∧ x.writers ≠ 0

/-! ## The mask -/

/-- The first two of three flags, read from their sum. -/
theorem flags_and (p q r : Prop) [Decidable p] [Decidable q] [Decidable r] :
    (((if p then 1 else 0) + (if q then 2 else 0) + if r then 4 else 0) &&& 1 ≠ 0 ↔ p) ∧
      (((if p then 1 else 0) + (if q then 2 else 0) + if r then 4 else 0) &&& 2 ≠ 0 ↔ q) := by
  by_cases hp : p <;> by_cases hq : q <;> by_cases hr : r <;> simp [hp, hq, hr]

/-- The mask as a sum of independent bits. -/
theorem pollMask_eq (x : SfNode) (mode : Nat) : pollMask x mode =
    (if mode &&& openRead ≠ 0 ∧ (x.type = some .pipe → x.size ≠ 0 ∨ x.writers = 0) then 1 else 0) +
    (if mode &&& openWrite ≠ 0 ∧ if x.type = some .pipe then x.size < dataBytes else x.readonly = false then 2 else 0) +
      if x.type = some .pipe ∧ x.writers = 0 then 4 else 0 := by
  unfold pollMask openRead openWrite
  split <;> rename_i ht <;> simp [ht]

theorem pollMask_readable (x : SfNode) (mode : Nat) :
    pollMask x mode &&& 1 ≠ 0 ↔ mode &&& openRead ≠ 0 ∧ (x.type = some .pipe → x.size ≠ 0 ∨ x.writers = 0) := by
  rw [pollMask_eq]
  exact (flags_and _ _ _).1

theorem pollMask_writable (x : SfNode) (mode : Nat) :
    pollMask x mode &&& 2 ≠ 0 ↔
      mode &&& openWrite ≠ 0 ∧ if x.type = some .pipe then x.size < dataBytes else x.readonly = false := by
  rw [pollMask_eq]
  exact (flags_and _ _ _).2

section Calls

variable {n : SfNamespace} {owner h : Nat} {k : SlotId} {d : DescId} {b : Backend} {r e : Int}

/-! ## Reading -/

theorem stop_eq_iff {α : Type} {e : SfError} : (stop e : Except Int α) = .error r ↔ e.code = r :=
  ⟨Except.error.inj, congrArg _⟩

theorem ofStatus_eq_error (he : e < 0) : ofStatus r = .error e ↔ r = e := by
  unfold ofStatus
  split
  · exact ⟨Except.error.inj, congrArg _⟩
  · exact iff_of_false nofun (by omega)

theorem readExternal_waits (x : SfNode) (offset bytes room : Nat) : readExternal b x offset bytes room = stop .wouldBlock ↔
    ∃ f, b.externalRead = some f ∧ (f x.external offset bytes).1 = SfError.wouldBlock.code := by
  unfold readExternal
  cases hf : b.externalRead with
  | none => exact iff_of_false (mt stop_eq_iff.1 (by decide)) (by simp)
  | some f =>
    simp only [Option.some.injEq, exists_eq_left']
    rw [← ofStatus_eq_error (SfError.code_neg _)]
    cases hr : ofStatus (f x.external offset bytes).1 with
    | error e => exact ⟨fun heq => congrArg _ (Except.error.inj heq), fun heq => congrArg _ (Except.error.inj heq)⟩
    | ok count =>
      refine iff_of_false ?_ nofun
      change (if bytes < count ∨ room < count then _ else _) ≠ _
      split
      · exact mt stop_eq_iff.1 (by decide)
      · exact nofun

/-- When a read has to wait. -/
theorem sfNsRead_waits (hdesc : description n owner h = some (k, d)) {bytes : Nat} (hbytes : bytes ≠ 0) :
    (sfNsRead b owner h bytes n).1 = stop .wouldBlock ↔ (n.descriptions d).mode &&& openRead ≠ 0 ∧
      ((n.node d).Waits ∨ b.Stalls (n.node d) (n.descriptions d).offset bytes) := by
  unfold sfNsRead SfNode.Waits Backend.Stalls
  rw [withDescription_eq hdesc]
  dsimp only
  simp only [hbytes, false_or, if_false]
  split
  · rename_i hmode
    exact iff_of_false (mt stop_eq_iff.1 (by decide)) fun hr => hr.1 hmode
  rename_i hmode
  split <;> rename_i ht
  · exact iff_of_false (mt stop_eq_iff.1 (by decide)) (by simp [ht])
  · exact iff_of_true rfl ⟨hmode, .inl (.inl ht)⟩
  · have hwaits := readExternal_waits (b := b) (n.node d) (n.descriptions d).offset bytes
      (0xffffffff - (n.descriptions d).offset)
    simp only [ht, hmode, Option.some.injEq, reduceCtorEq, false_and, or_self, ne_eq, not_false_eq_true, true_and,
      false_or]
    rw [← hwaits]
    split <;> rename_i hr <;> rw [hr]
  · split <;> rename_i hsize
    · split <;> rename_i hw
      · exact iff_of_false nofun (by simp [ht, hw])
      · exact iff_of_true rfl ⟨hmode, .inl (.inr ⟨ht, hsize, hw⟩)⟩
    · exact iff_of_false nofun (by simp [ht, hsize])
  · rename_i hconsole hdisk
    have hwaits : ¬((n.node d).Waits ∨ b.Stalls (n.node d) (n.descriptions d).offset bytes) := by
      rintro ((hc | ⟨hp, -⟩) | ⟨hs, -⟩)
      · exact hconsole hc
      · exact ht hp
      · exact hdisk hs
    split <;> exact iff_of_false nofun fun hr => hwaits hr.2

/-! ## Writing -/

instance (r : Int) : Decidable (Refusal r) := inferInstanceAs (Decidable (_ ∨ _ ∨ _))

theorem Refusal.lt (he : Refusal e) : e < 0 := by
  rcases he with rfl | rfl | rfl <;> exact SfError.code_neg _

theorem Refusal.ne (he : Refusal e) (hr : ¬Refusal r) : r ≠ e := by
  rintro rfl
  exact hr he

theorem writeDisk_refused (d : DescId) (data : List UInt8) (n : SfNamespace) (he : Refusal e) :
    (writeDisk b d data n).1 = .error e ↔ b.externalWrite = none ∧ e = SfError.readOnly.code ∨
      ∃ f, b.externalWrite = some f ∧ f (n.node d).external (n.descriptions d).offset data = e := by
  unfold writeDisk
  dsimp only
  cases hf : b.externalWrite with
  | none =>
    rw [stop_eq_iff, eq_comm]
    simp
  | some f =>
    simp only [reduceCtorEq, false_and, Option.some.injEq, exists_eq_left', false_or]
    rw [← ofStatus_eq_error he.lt]
    split <;> rename_i hr <;> rw [hr]
    refine iff_of_false ?_ nofun
    split
    · exact mt stop_eq_iff.1 (he.ne (by decide))
    · exact nofun

theorem writeFile_goes (d : DescId) (data : List UInt8) (n : SfNamespace) (he : Refusal e) :
    (writeFile d data n).1 ≠ .error e := by
  unfold writeFile
  dsimp only
  split
  · exact mt stop_eq_iff.1 (he.ne (by decide))
  · exact nofun

theorem writePipe_waits (d : DescId) {data : List UInt8} (hdata : data ≠ []) (n : SfNamespace)
    (hsize : (n.node d).size ≤ dataBytes)
    (e : Int) : (writePipe d data n).1 = .error e ↔ e = SfError.wouldBlock.code ∧ (n.node d).size = dataBytes := by
  have hlength := List.length_pos_iff.2 hdata
  unfold writePipe
  dsimp only
  split
  · rw [stop_eq_iff, eq_comm, and_iff_left]
    omega
  · exact iff_of_false nofun (by omega)

/-- When a write has to wait or is not allowed. -/
theorem sfNsWrite_refused (hn : Bounded n) (hlive : Live n d) (hdesc : description n owner h = some (k, d))
    (hmode : (n.descriptions d).mode &&& openWrite ≠ 0) {data : List UInt8} (hdata : data ≠ []) (he : Refusal e) :
    (sfNsWrite b owner h data n).1 = .error e ↔
      (n.node d).type = some .pipe ∧ e = SfError.wouldBlock.code ∧ (n.node d).size = dataBytes ∨
      b.Refuses (n.node d) (n.descriptions d).offset data e := by
  have hro := hn.writable hlive hmode
  have hbounds : (n.node d).Ram → ¬(dataBytes < (n.descriptions d).offset ∨ dataBytes < (n.node d).size) := by
    intro hram
    have hoffset := hn.cursors hlive hram
    have hsize : (n.node d).size ≤ dataBytes := (hn.fits hram).1
    omega
  unfold sfNsWrite Backend.Refuses
  rw [withDescription_eq hdesc]
  dsimp only
  rw [if_neg hmode, hro, if_neg Bool.false_ne_true, if_neg hdata]
  by_cases hpipe : (n.node d).type = some .pipe
  · have hb := hbounds (.inr hpipe)
    simp only [hpipe, hb, Option.some.injEq, reduceCtorEq, if_false, if_true, true_and, false_and, or_false]
    exact writePipe_waits d hdata n (by omega) e
  by_cases hconsole : (n.node d).type = some .console
  · simp only [hconsole, Option.some.injEq, reduceCtorEq, if_false, if_true, true_and, false_and, or_false, false_or]
    cases hf : b.console with
    | none => exact iff_of_false (mt stop_eq_iff.1 (he.ne (by decide))) (by simp)
    | some f =>
      simp only [Option.some.injEq, exists_eq_left']
      exact ofStatus_eq_error he.lt
  by_cases hdisk : (n.node d).type = some .disk
  · simp only [hdisk, Option.some.injEq, reduceCtorEq, if_false, if_true, true_and, false_and, false_or]
    exact writeDisk_refused d data n he
  refine iff_of_false ?_ (by simp [hpipe, hconsole, hdisk])
  rw [if_neg hconsole, if_neg hdisk, if_neg hpipe]
  split
  · exact mt stop_eq_iff.1 (he.ne (by decide))
  split
  · exact mt stop_eq_iff.1 (he.ne (by decide))
  · exact writeFile_goes d data n he

end Calls

/-! ## Both together -/

/-- **Poll agrees with read and write**, up to the drivers. A read of what is reported as readable waits for a console
and where the driver of a disk file says so, and nowhere else; a read of anything else waits. A write of what is
reported as writable is refused by the driver, or because there is none, and never otherwise; a write of anything
else waits. -/
theorem poll_agrees {s : Service} (hs : Reachable s) {owner h mask : Nat} {k : SlotId} {d : DescId}
    (hdesc : description s.ns owner h = some (k, d)) (hmask : (sfNsPoll owner h s.ns).1 = .ok mask) (b : Backend)
    {bytes : Nat} (hbytes : bytes ≠ 0) {data : List UInt8} (hdata : data ≠ []) :
    (mask &&& 1 ≠ 0 → ((sfNsRead b owner h bytes s.ns).1 = stop .wouldBlock ↔
      (s.ns.node d).type = some .console ∨ b.Stalls (s.ns.node d) (s.ns.descriptions d).offset bytes)) ∧
    (mask &&& 1 = 0 → (s.ns.descriptions d).mode &&& openRead ≠ 0 → (sfNsRead b owner h bytes s.ns).1 = stop .wouldBlock) ∧
    (mask &&& 2 ≠ 0 → ∀ e, Refusal e → ((sfNsWrite b owner h data s.ns).1 = .error e ↔
      b.Refuses (s.ns.node d) (s.ns.descriptions d).offset data e)) ∧
    (mask &&& 2 = 0 → (s.ns.descriptions d).mode &&& openWrite ≠ 0 → (s.ns.node d).readonly = false →
      (sfNsWrite b owner h data s.ns).1 = stop .wouldBlock) := by
  have hn := reachable_bounded hs
  have hlive : Live s.ns d := (reachable_fit hs).good.counted.pos (description_some hdesc).1
  have hpoll : sfNsPoll owner h s.ns = (.ok (pollMask (s.ns.node d) (s.ns.descriptions d).mode), s.ns) :=
    withDescription_eq hdesc
  rw [hpoll] at hmask
  obtain rfl := Except.ok.inj hmask
  have hread := sfNsRead_waits (b := b) hdesc hbytes
  have hwrite (hmode : (s.ns.descriptions d).mode &&& openWrite ≠ 0) {e : Int} (he : Refusal e) :=
    sfNsWrite_refused (b := b) hn hlive hdesc hmode hdata he
  refine ⟨fun hset => ?_, fun hclear hmode => ?_, fun hset e he => ?_, fun hclear hmode hro => ?_⟩
  · obtain ⟨hmode, hpipe⟩ := (pollMask_readable _ _).1 hset
    rw [hread, and_iff_right hmode]
    refine or_congr_left ⟨?_, .inl⟩
    rintro (hconsole | ⟨htype, hsize, hw⟩)
    · exact hconsole
    · rcases hpipe htype with hne | hz
      · exact absurd hsize hne
      · exact absurd hz hw
  · by_contra hgoes
    refine (pollMask_readable _ _).2 ⟨hmode, fun hpipe => ?_⟩ hclear
    by_contra hwaits
    rw [not_or, not_not] at hwaits
    exact hgoes (hread.2 ⟨hmode, .inl (.inr ⟨hpipe, hwaits⟩)⟩)
  · obtain ⟨hmode, hready⟩ := (pollMask_writable _ _).1 hset
    rw [hwrite hmode he, or_iff_right]
    rintro ⟨hpipe, -, hfull⟩
    rw [if_pos hpipe, hfull] at hready
    exact Nat.lt_irrefl _ hready
  · by_contra hgoes
    refine (pollMask_writable _ _).2 ⟨hmode, ?_⟩ hclear
    split
    · rename_i hpipe
      have hsize : (s.ns.node d).size ≤ dataBytes := (hn.fits (.inr hpipe)).1
      refine Nat.lt_of_le_of_ne hsize fun hfull => ?_
      exact hgoes ((hwrite hmode (.inl rfl)).2 (.inl ⟨hpipe, rfl, hfull⟩))
    · exact hro

/-- Callbacks that do what they are asked. -/
def promptBackend : Backend :=
  ⟨some fun data => data.length, some fun _ _ _ => (0, fun _ => 0), some fun _ _ data => data.length,
    some fun _ _ => 0, fun _ => none⟩

/-- The pipe of `pipeNamespace` is empty: it is reported as writable, and a write goes ahead. -/
theorem poll_agrees_pipe : (sfNsPoll 1 257 pipeNamespace).1 = .ok 2 ∧
    ∀ e, Refusal e → (sfNsWrite bareBackend 1 257 [1] pipeNamespace).1 ≠ .error e := by
  have hmask : (sfNsPoll 1 257 pipeNamespace).1 = .ok 2 := by decide +kernel
  have hdesc : description pipeNamespace 1 257 = some (0, 0) := by decide +kernel
  have htype : (pipeNamespace.node 0).type = some .pipe := by decide +kernel
  have hagrees := (poll_agrees pipe_reachable hdesc hmask bareBackend (Nat.succ_ne_zero 0) (List.cons_ne_nil 1 [])).2.2.1
  refine ⟨hmask, fun e he hw => ?_⟩
  rcases (hagrees (by decide) e he).1 hw with ⟨hconsole, -⟩ | ⟨hdisk, -⟩
  · cases htype.symm.trans hconsole
  · cases htype.symm.trans hdisk

/-- A node in the root that is opened at once. -/
def openedNamespace (type : NodeType) (mode : Nat) : SfNamespace :=
  (Request.nsOpen 1 rootPath [47, 99] mode).run promptBackend
    ((Request.nsCreate [47, 99] type.code false).run promptBackend sfNsInit)

theorem opened_reachable (type : NodeType) (mode : Nat) : Reachable ⟨openedNamespace type mode, false⟩ := by
  have hcreated : Reachable ⟨(Request.nsCreate [47, 99] type.code false).run promptBackend sfNsInit, false⟩ :=
    Relation.ReflTransGen.refl.tail (.request promptBackend (.nsCreate [47, 99] type.code false))
  exact hcreated.tail (.request promptBackend (.nsOpen 1 rootPath [47, 99] mode))

/-- A console is reported as readable, and a read of it waits. A disk file is reported as writable, and without a
driver a write of it is refused. -/
theorem poll_console_waits :
    (Reachable ⟨openedNamespace .console openRead, false⟩ ∧
      description (openedNamespace .console openRead) 1 257 = some (0, 0) ∧
      (sfNsPoll 1 257 (openedNamespace .console openRead)).1 = .ok 1 ∧
      (sfNsRead promptBackend 1 257 1 (openedNamespace .console openRead)).1 = stop .wouldBlock) ∧
    (Reachable ⟨openedNamespace .disk openWrite, false⟩ ∧
      description (openedNamespace .disk openWrite) 1 257 = some (0, 0) ∧
      (sfNsPoll 1 257 (openedNamespace .disk openWrite)).1 = .ok 2 ∧
      (sfNsWrite bareBackend 1 257 [1] (openedNamespace .disk openWrite)).1 = stop .readOnly) := by
  refine ⟨⟨opened_reachable _ _, ?_, ?_, ?_⟩, ⟨opened_reachable _ _, ?_, ?_, ?_⟩⟩ <;> decide +kernel

end SpiritFox.Ns
