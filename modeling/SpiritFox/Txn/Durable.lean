import SpiritFox.Txn.Crash

/-!
# Durability over whole runs

A `Session` is a device, a volume and the generation of the last commit that returned 0. A run starts from a formatted
volume; it mounts, on the powered device or after a power loss, with reads that may fail, commits with operations that may
fail, and loses power, with anything unflushed kept or lost.

`Reach G` are the sessions of the runs whose commits are all issued in states with `G`. Without a guard an acknowledged
volume can be lost (`remount_commit_loses_volume`): a commit whose last flush fails leaves its record in the cache, a mount
adopts it from there, and the next commit invalidates the durable record of the other bank first. With the guard
`RecordDurable`, that the record of the mounted bank is not waiting for a flush, every power loss is survived
(`durable_of_recordDurable`).
-/

namespace SpiritFox.Txn

open ByteMem WriteCache Function

structure Session where
  disk : Disk Sector
  volume : SfTxn
  /-- The generation of the last commit that returned 0, or 0. -/
  acked : Nat

section Runs

variable (sha256 : List UInt8 → Digest)

/-- A device that was just formatted, with nothing mounted. -/
def Session.start (image : Nat → Sector) (volume : List UInt8) : Session :=
  ⟨⟨formatted sha256 image volume, []⟩, ⟨false, 0, false, [], FileTable.empty⟩, 0⟩

/-- A mount with the given results of its reads. -/
def Session.mount (s : Session) (read : Nat → Except SfError Sector) : Session :=
  match sfTxnMount sha256 read with
  | .ok t => { s with volume := t }
  | .error _ => { s with volume := { s.volume with ready := false } }

def Session.commit (s : Session) (batch : List (List UInt8 × List UInt8)) (script : List (Outcome Sector)) : Session :=
  let r := sfTxnCommit sha256 s.volume batch ⟨s.disk, script⟩
  ⟨r.2.2.disk, r.2.1, match r.1 with | .ok _ => r.2.1.generation | .error _ => s.acked⟩

def Session.powerLoss (s : Session) (m : Nat → Sector) : Session :=
  { s with disk := ⟨m, []⟩, volume := { s.volume with ready := false } }

/-- Sessions reached by runs that commit only where `G` holds. -/
inductive Reach (G : Session → Prop) : Session → Prop
  | start (image : Nat → Sector) (volume : List UInt8) (hv : volume.length = 16) : Reach G (.start sha256 image volume)
  | mount {s : Session} (hs : Reach G s) (read : Nat → Except SfError Sector)
      (hread : ∀ a x, read a = .ok x → x = s.disk.cache a) : Reach G (s.mount sha256 read)
  | commit {s : Session} (hs : Reach G s) (hG : G s) (batch : List (List UInt8 × List UInt8))
      (script : List (Outcome Sector)) : Reach G (s.commit sha256 batch script)
  | powerLoss {s : Session} (hs : Reach G s) (m : Nat → Sector) (hm : Crash (Torn sha256) s.disk m) :
      Reach G (s.powerLoss m)

/-- The commit record of the bank the volume is mounted on has no unflushed write. -/
def RecordDurable (s : Session) : Prop := s.volume.ready = true → s.disk.Clean (recordLba s.volume.bank)

/-- A mount on the powered device. -/
theorem Reach.remount {sha256 : List UInt8 → Digest} {G : Session → Prop} {s : Session} {t : SfTxn}
    (hs : Reach sha256 G s) (hm : mountMedia sha256 s.disk.cache = .ok t) : Reach sha256 G { s with volume := t } := by
  have h := hs.mount (fun a => .ok (s.disk.cache a)) fun a x hx => (Except.ok.inj hx).symm
  have hm' : sfTxnMount sha256 (fun a => .ok (s.disk.cache a)) = .ok t := hm
  unfold Session.mount at h
  rwa [hm'] at h

/-! ## The invariant of guarded runs -/

/-- A mounted volume is the live bank, or the other one as the cache has it. -/
def Mounted (d : Disk Sector) (v : List UInt8) (b : Bool) (g : Nat) (files : FileTable) (t : SfTxn) : Prop :=
  t.volume = v ∧ ((t.bank = b ∧ t.generation = g ∧ t.files = files) ∨
    (t.bank = !b ∧ g < t.generation ∧ snapshotAt sha256 v d.cache (!b) = some (t.generation, t.files)))

/-- One bank is durable and at least as new as every acknowledged commit. -/
def Session.Inv (s : Session) : Prop :=
  ∃ v b g files, Good sha256 s.disk v b g files (fun g' _ => g' ≠ g) ∧ s.acked ≤ g ∧
    (s.volume.ready = true → Mounted sha256 s.disk v b g files s.volume)

variable {sha256} {s : Session}

theorem inv_start (image : Nat → Sector) {volume : List UInt8} (hv : volume.length = 16) :
    (Session.start sha256 image volume).Inv sha256 := by
  have hgood := good_of_mount (d := ⟨formatted sha256 image volume, []⟩) rfl (mountMedia_formatted sha256 image hv)
  exact ⟨_, _, _, _, hgood.mono fun _ _ h => Nat.ne_of_lt h, Nat.zero_le _, fun h => by cases h⟩

theorem inv_mount (h : s.Inv sha256) {read : Nat → Except SfError Sector}
    (hread : ∀ a x, read a = .ok x → x = s.disk.cache a) : (s.mount sha256 read).Inv sha256 := by
  obtain ⟨v, b, g, files, hgood, hack, _⟩ := h
  unfold Session.mount
  cases hm : sfTxnMount sha256 read with
  | error e => exact ⟨v, b, g, files, hgood, hack, fun h => by cases h⟩
  | ok t =>
    have hmedia := sfTxnMount_reads sha256 hread hm
    obtain ⟨t', ht', _, hv, hcase⟩ := hgood.mount (fun _ _ h => h) (crash_cache _ _)
    obtain rfl := Except.ok.inj (hmedia.symm.trans ht')
    refine ⟨v, b, g, files, hgood, hack, fun _ => ⟨hv, hcase.imp_right fun ⟨hb, _, hlt⟩ => ⟨hb, hlt, ?_⟩⟩⟩
    obtain ⟨_, _, _, hsnap, _⟩ := (mountMedia_ok_iff sha256).1 hmedia
    rw [hv, hb] at hsnap
    exact hsnap

theorem inv_powerLoss (h : s.Inv sha256) {m : Nat → Sector} (hm : Crash (Torn sha256) s.disk m) :
    (s.powerLoss m).Inv sha256 := by
  obtain ⟨v, b, g, files, hgood, hack, _⟩ := h
  obtain ⟨hok, hid, hlive, hother⟩ := hgood.crash hm
  have hclean : ∀ a, (⟨m, []⟩ : Disk Sector).Clean a := clean_of_no_pending rfl
  refine ⟨v, b, g, files, ⟨hclean _, hok, hid, hclean _, fun i _ => hclean _, hlive, Or.inr ⟨fun i _ => hclean _, ?_⟩⟩,
    hack, fun h => by cases h⟩
  intro x hl g' files' hx
  obtain rfl := left_clean (hclean _) hl
  exact hother g' files' hx

/-- Under the guard, the mounted bank is the one to rely on. -/
theorem good_mounted {v : List UInt8} {b : Bool} {g : Nat} {files : FileTable}
    (hgood : Good sha256 s.disk v b g files (fun g' _ => g' ≠ g)) (hm : Mounted sha256 s.disk v b g files s.volume)
    (hclean : s.disk.Clean (recordLba s.volume.bank)) :
    g ≤ s.volume.generation ∧ Good sha256 s.disk s.volume.volume s.volume.bank s.volume.generation s.volume.files
      (fun g' _ => g' ≠ s.volume.generation) := by
  obtain ⟨hv, ⟨hb, hg, hf⟩ | ⟨hb, hlt, hsnap⟩⟩ := hm
  · rw [hv, hb, hg, hf]
    exact ⟨Nat.le_refl g, hgood⟩
  rw [hb] at hclean
  unfold snapshotAt at hsnap
  rw [cache_clean hclean] at hsnap
  -- its record is valid, so the bank behind it is settled
  rcases hgood.other with hinv | ⟨hbank, _⟩
  · rw [snapshot_of_not_recordOk (hinv _ (Or.inl rfl))] at hsnap
    cases hsnap
  rw [show bankMem s.disk.cache (!b) = bankMem s.disk.durable (!b) from
    bankMem_congr fun i hi => cache_clean (hbank i hi)] at hsnap
  rw [hv, hb]
  exact ⟨Nat.le_of_lt hlt, (hgood.swap hclean hbank hsnap).mono fun g' _ h => by omega⟩

theorem inv_commit (h : s.Inv sha256) (hG : RecordDurable s) (batch : List (List UInt8 × List UInt8))
    (script : List (Outcome Sector)) : (s.commit sha256 batch script).Inv sha256 := by
  obtain ⟨v, b, g, files, hgood, hack, hmounted⟩ := h
  unfold Session.commit sfTxnCommit
  cases hstage : stage s.volume batch with
  | error e => exact ⟨v, b, g, files, hgood, hack, hmounted⟩
  | ok next =>
    obtain ⟨hready, hmax, _⟩ := stage_ok hstage
    obtain ⟨hle, hgood'⟩ := good_mounted hgood (hmounted hready) (hG hready)
    have hlt := snapshot_lt sha256 hgood'.live
    have hrun := perform_commitOps (f := ⟨s.disk, script⟩) next hgood' (by omega) (fun _ _ h => h)
      (Nat.succ_ne_self _)
    cases hr : (perform (tornOk sha256) (commitOps sha256 s.volume next) ⟨s.disk, script⟩).1 with
    | false =>
      simp only [hr, Bool.false_eq_true, ↓reduceIte]
      exact ⟨_, _, _, _, hrun.1 hr, Nat.le_trans hack hle, fun h => by cases h⟩
    | true =>
      simp only [hr, ↓reduceIte]
      refine ⟨_, _, _, _, (hrun.2 hr).2.mono fun g' _ h => ?_, Nat.le_refl _, fun _ => ⟨rfl, Or.inl ⟨rfl, rfl, rfl⟩⟩⟩
      omega

theorem inv_of_reach (h : Reach sha256 RecordDurable s) : s.Inv sha256 := by
  induction h with
  | start image volume hv => exact inv_start image hv
  | mount _ read hread ih => exact inv_mount ih hread
  | commit _ hG batch script ih => exact inv_commit ih hG batch script
  | powerLoss _ m hm ih => exact inv_powerLoss ih hm

/-- **Durability.** In every run that commits only while the record of the mounted bank has no unflushed write, every power
loss leaves a medium that mounts with a snapshot at least as new as the last commit that returned 0. -/
theorem durable_of_recordDurable (h : Reach sha256 RecordDurable s) {m : Nat → Sector} (hm : Crash (Torn sha256) s.disk m) :
    ∃ t, mountMedia sha256 m = .ok t ∧ s.acked ≤ t.generation := by
  obtain ⟨v, b, g, files, hgood, hack, _⟩ := inv_of_reach h
  obtain ⟨t, hmount, _, _, ⟨_, hg, _⟩ | ⟨_, _, hlt⟩⟩ := hgood.mount (fun _ _ h => h) hm
  · exact ⟨t, hmount, by omega⟩
  · exact ⟨t, hmount, by omega⟩

/-- A formatted volume, mounted and updated without a failure. -/
theorem durable_of_recordDurable_formatted :
    let sha256 : List UInt8 → Digest := fun _ => Vector.replicate 32 0
    let s : Session := ⟨⟨formatted sha256 (fun _ => zeroSector) (List.replicate 16 0), []⟩,
      ⟨true, 1, false, List.replicate 16 0, FileTable.empty⟩, 0⟩
    RecordDurable s ∧ ∃ t, mountMedia sha256 (s.commit sha256 [([47, 97], [1])] []).disk.cache = .ok t ∧
      (s.commit sha256 [([47, 97], [1])] []).acked ≤ t.generation := by
  intro sha256 s
  have hs : Reach sha256 RecordDurable s :=
    (Reach.start (fun _ => zeroSector) (List.replicate 16 0) (by decide)).remount (mountMedia_formatted sha256 _ (by decide))
  have hG : RecordDurable s := fun _ => clean_of_no_pending rfl _
  exact ⟨hG, durable_of_recordDurable (hs.commit hG _ _) (crash_cache _ _)⟩

end Runs

/-! ## A run that loses the volume -/

section Loss

variable (sha256 : List UInt8 → Digest)

/-- The operations of a commit before its last flush. -/
def unflushedOps (t : SfTxn) (next : FileTable) : List (Op Sector) :=
  let buffer := encode sha256 (t.generation + 1) next
  let record := commitRecord sha256 t.volume (t.generation + 1) (!t.bank) (sha256 (slice buffer 0 bufferBytes))
  [(recordLba (!t.bank), zeroSector)].map (fun w => Op.write w.1 w.2) ++ ([Op.flush] ++
    ((bankWrites (!t.bank) buffer).map (fun w => Op.write w.1 w.2) ++ ([Op.flush] ++
      [(recordLba (!t.bank), record)].map (fun w => Op.write w.1 w.2))))

theorem commitOps_eq (t : SfTxn) (next : FileTable) :
    commitOps sha256 t next = unflushedOps sha256 t next ++ [Op.flush] := by
  simp only [commitOps, unflushedOps, List.append_assoc]

/-- The disk a commit leaves whose last flush fails: the new record is the only pending write, and no record of its bank is
durable. -/
theorem run_unflushedOps (t : SfTxn) (next : FileTable) (d : Disk Sector) :
    ∃ m : Nat → Sector, m (recordLba (!t.bank)) = zeroSector ∧
      bankMem m (!t.bank) = encode sha256 (t.generation + 1) next ∧
      (∀ a, a ≠ recordLba (!t.bank) → (∀ i < sfTxnBankSectors, a ≠ bankLba (!t.bank) i) → m a = d.cache a) ∧
      d.run (unflushedOps sha256 t next) = ⟨m, [(recordLba (!t.bank), commitRecord sha256 t.volume (t.generation + 1)
        (!t.bank) (sha256 (slice (encode sha256 (t.generation + 1) next) 0 bufferBytes)))]⟩ := by
  refine ⟨applyAll (bankWrites (!t.bank) (encode sha256 (t.generation + 1) next))
    (update d.cache (recordLba (!t.bank)) zeroSector), ?_, ?_, fun a ha hb => ?_, ?_⟩
  · rw [applyAll_other _ _ fun s hs => ?_, update_self]
    obtain ⟨i, _, he, _⟩ := mem_bankWrites.1 hs
    exact bankLba_ne_record _ _ _ he.symm
  · exact bankMem_applyAll (fun a => encode_zero sha256 _ next) _ _
  · rw [applyAll_other _ _ fun s hs => ?_, update_of_ne ha]
    obtain ⟨i, hi, he, _⟩ := mem_bankWrites.1 hs
    exact hb i hi he
  · simp only [unflushedOps, run_append, run_writes, run_flush, Disk.flush, Disk.cache, applyAll_append, List.nil_append]
    congr 1

variable {sha256} {s : Session} {batch : List (List UInt8 × List UInt8)} {next : FileTable}

theorem commit_last_flush_fails (hstage : stage s.volume batch = .ok next) :
    s.commit sha256 batch (List.replicate (unflushedOps sha256 s.volume next).length .ok ++ [.fail []]) =
      ⟨s.disk.run (unflushedOps sha256 s.volume next), { s.volume with ready := false }, s.acked⟩ := by
  unfold Session.commit sfTxnCommit
  simp only [hstage, commitOps_eq, perform_append, perform_ok, perform, Faulty.op, Bool.false_eq_true, ↓reduceIte]

theorem commit_first_flush_fails (hstage : stage s.volume batch = .ok next) :
    s.commit sha256 batch [.ok, .fail []] =
      ⟨s.disk.write (recordLba (!s.volume.bank)) zeroSector, { s.volume with ready := false }, s.acked⟩ := by
  unfold Session.commit sfTxnCommit
  simp only [hstage, commitOps, List.map_cons, List.map_nil, List.cons_append, List.nil_append, perform, Faulty.op,
    List.tail_cons, Bool.false_eq_true, ↓reduceIte]

/-- The powered device after a first commit whose last flush failed mounts as the new snapshot, from the cache. -/
theorem mountMedia_unflushed (sha256 : List UInt8 → Digest) (image : Nat → Sector) {v : List UInt8}
    (hv : v.length = 16) (next : FileTable) :
    mountMedia sha256 ((⟨formatted sha256 image v, []⟩ : Disk Sector).run
      (unflushedOps sha256 ⟨true, 1, false, v, FileTable.empty⟩ next)).cache = .ok ⟨true, 2, true, v, next⟩ := by
  obtain ⟨m, _, hbank, hsame, hrun⟩ :=
    run_unflushedOps sha256 ⟨true, 1, false, v, FileTable.empty⟩ next ⟨formatted sha256 image v, []⟩
  obtain ⟨hok, _, hid, hlive, _⟩ := (mountMedia_ok_iff sha256).1 (mountMedia_formatted sha256 image hv)
  rw [hrun]
  simp only [Bool.not_false, Nat.reduceAdd] at hbank hsame ⊢
  have hnew := snapshot_commitRecord sha256 hv true (g := 2) (by decide) (by decide) next
  revert hnew
  generalize commitRecord sha256 v 2 true _ = record
  intro hnew
  have hcache : ∀ a, a ≠ recordLba true → update m (recordLba true) record a = m a :=
    fun a ha => update_of_ne ha _ _
  have hheader : update m (recordLba true) record sfTxnHeader = formatted sha256 image v sfTxnHeader := by
    rw [hcache _ (recordLba_ne_header _).symm]
    exact hsame _ (recordLba_ne_header _).symm fun i _ => (bankLba_ne_header _ _).symm
  have hsnap : snapshotAt sha256 v (update m (recordLba true) record) true = some (2, next) := by
    unfold snapshotAt
    rw [update_self, bankMem_congr fun i _ => hcache _ (bankLba_ne_record _ _ _), hbank]
    exact hnew
  have hold : snapshotAt sha256 v (update m (recordLba true) record) false = some (1, FileTable.empty) := by
    have hrec : m (recordLba false) = formatted sha256 image v (recordLba false) :=
      hsame _ (recordLba_ne_not false) fun i _ => (bankLba_ne_record _ _ _).symm
    have hmem : bankMem (update m (recordLba true) record) false = bankMem (formatted sha256 image v) false := by
      refine bankMem_congr fun i hi => ?_
      rw [hcache _ (bankLba_ne_record _ _ _)]
      exact hsame _ (bankLba_ne_record _ _ _) fun j hj => bankLba_ne_not (b := false) hi hj
    unfold snapshotAt
    rw [hcache _ (recordLba_ne_not false), hrec, hmem]
    exact hlive
  rw [cache_single, mountMedia_ok_iff, hheader]
  refine ⟨hok, rfl, hid, hsnap, fun g files hs => ?_⟩
  rw [show (!true) = false from rfl, hold] at hs
  cases hs
  exact Nat.lt_succ_self 1

/-- Without a valid record nothing mounts. -/
theorem mountMedia_zero_records {m : Nat → Sector} (h : ∀ b, m (recordLba b) = zeroSector) (t : SfTxn) :
    mountMedia sha256 m ≠ .ok t := by
  intro hm
  obtain ⟨_, _, _, hsnap, _⟩ := (mountMedia_ok_iff sha256).1 hm
  unfold snapshotAt at hsnap
  rw [h, snapshot_of_not_recordOk (recordOk_zeroSector sha256 _ _)] at hsnap
  cases hsnap

/-- **A remounted volume can be lost.** The first commit's last flush fails, so its record is only in the cache; the powered
device is mounted again and adopts it; the next commit invalidates the old record, and a power loss keeps that write and
drops the other. No bank is left. -/
theorem remount_commit_loses_volume (sha256 : List UInt8 → Digest) :
    ∃ s, Reach sha256 (fun _ => True) s ∧ ∃ m, Crash (Torn sha256) s.disk m ∧ ∀ t, mountMedia sha256 m ≠ .ok t := by
  obtain ⟨v, hv⟩ : ∃ v : List UInt8, v.length = 16 := ⟨List.replicate 16 0, rfl⟩
  have ha : Admissible FileTable.empty [([47, 97], [])] :=
    ⟨by decide, by decide, by decide, by decide, by decide, by decide⟩
  obtain ⟨next, hstage, hupd⟩ := stage_admissible (t := ⟨true, 1, false, v, FileTable.empty⟩) rfl
    (show 1 < 2 ^ 64 - 1 by decide) ha
  have hget : next.get? [47, 97] = some [] := hupd _
  have ha' : Admissible next [([47, 97], [])] :=
    { ha with fits := by rw [List.filter_cons_of_neg (by simp [hget])]; exact next.length_le }
  obtain ⟨next', hstage', _⟩ := stage_admissible (t := ⟨true, 2, true, v, next⟩) rfl
    (show 2 < 2 ^ 64 - 1 by decide) ha'
  obtain ⟨m, hzero, _, _, hrun⟩ := run_unflushedOps sha256 ⟨true, 1, false, v, FileTable.empty⟩ next
    ⟨formatted sha256 (fun _ => zeroSector) v, []⟩
  -- mount, commit with a failing last flush, mount again, commit with a failing first flush
  have h₁ : Reach sha256 (fun _ => True)
      ⟨⟨formatted sha256 (fun _ => zeroSector) v, []⟩, ⟨true, 1, false, v, FileTable.empty⟩, 0⟩ :=
    (Reach.start (fun _ => zeroSector) v hv).remount (mountMedia_formatted sha256 _ hv)
  have h₂ := h₁.commit trivial [([47, 97], [])]
    (List.replicate (unflushedOps sha256 ⟨true, 1, false, v, FileTable.empty⟩ next).length .ok ++ [.fail []])
  rw [commit_last_flush_fails hstage] at h₂
  dsimp only at h₂
  have hm := mountMedia_unflushed sha256 (fun _ => zeroSector) hv next
  rw [hrun] at h₂ hm
  have h₃ := h₂.remount hm
  have h₄ := h₃.commit trivial [([47, 97], [])] [.ok, .fail []]
  rw [commit_first_flush_fails hstage'] at h₄
  refine ⟨_, h₄, update m (recordLba false) zeroSector, fun a => ?_, mountMedia_zero_records fun b => ?_⟩
  · by_cases ha : a = recordLba false
    · subst ha
      rw [update_self]
      exact Or.inr (Or.inl (List.mem_append_right _ (List.mem_singleton.2 rfl)))
    · exact Or.inl (update_of_ne ha _ _)
  · cases b with
    | false => exact update_self _ _ _
    | true => exact (update_of_ne (recordLba_ne_not true) _ _).trans hzero

/-- Unguarded runs are not durable. -/
theorem not_durable_of_remount :
    ¬ ∀ (sha256 : List UInt8 → Digest) (s : Session), Reach sha256 (fun _ => True) s →
      ∀ m, Crash (Torn sha256) s.disk m → ∃ t, mountMedia sha256 m = .ok t ∧ s.acked ≤ t.generation := by
  intro h
  obtain ⟨s, hs, m, hm, hlost⟩ := remount_commit_loses_volume fun _ => Vector.replicate 32 0
  obtain ⟨t, ht, _⟩ := h _ s hs m hm
  exact hlost t ht

end Loss

end SpiritFox.Txn
