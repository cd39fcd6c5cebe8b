import SpiritFox.Txn.Volume

/-!
# Crash atomicity of a commit

`Good` is the invariant of a device while one bank is relied on: that bank and its record are settled on the medium, and
whatever a power loss can leave of the other bank either has no valid record, or is a settled bank whose snapshot is one
of an allowed set `P`. Its lemmas follow the phases of `sf_txn_commit`:

- `Good.write_zero`, `Good.flush`: invalidating the other record keeps it;
- `Good.write_bank`: while the other record is invalid its bank may be overwritten;
- `Good.write_record`: the new record adds one snapshot to the allowed set;
- `Good.swap`: a settled other bank can take over;

and `perform_commitOps` assembles them for a run of the operations that fails anywhere or nowhere. `Good.mount` says what a
mount finds after a power loss. The main result is `sfTxnCommit_atomic`.
-/

namespace SpiritFox.Txn

open ByteMem WriteCache

/-! ## The invariant -/

section Invariant

variable (sha256 : List UInt8 → Digest)

/-- Contents a write cut short may leave in a sector. -/
def Torn (a : Nat) (s : Sector) : Prop := tornOk sha256 a s = true

/-- No power loss leaves a valid record of bank `o`. -/
def Invalid (d : Disk Sector) (v : List UInt8) (o : Bool) : Prop :=
  ∀ s, Left (Torn sha256) d (recordLba o) s → recordOk sha256 v o s = false

/-- Bank `o` is settled, and every record a power loss leaves for it gives a snapshot in `P` or none. -/
def Settled (d : Disk Sector) (v : List UInt8) (o : Bool) (P : Nat → FileTable → Prop) : Prop :=
  (∀ i < sfTxnBankSectors, d.Clean (bankLba o i)) ∧ ∀ s, Left (Torn sha256) d (recordLba o) s →
    ∀ g files, snapshot sha256 v o s (bankMem d.durable o) = some (g, files) → P g files

/-- Bank `b` is durably `(g, files)`, and the other bank is invalid or allowed by `P`. -/
structure Good (d : Disk Sector) (v : List UInt8) (b : Bool) (g : Nat) (files : FileTable)
    (P : Nat → FileTable → Prop) : Prop where
  header_clean : d.Clean sfTxnHeader
  header_ok : headerOk sha256 (d.durable sfTxnHeader) = true
  header_id : volumeId (d.durable sfTxnHeader) = v
  record_clean : d.Clean (recordLba b)
  bank_clean : ∀ i < sfTxnBankSectors, d.Clean (bankLba b i)
  live : snapshotAt sha256 v d.durable b = some (g, files)
  other : Invalid sha256 d v (!b) ∨ Settled sha256 d v (!b) P

variable {sha256} {d d' : Disk Sector} {v : List UInt8} {b : Bool} {g : Nat} {files : FileTable}
  {P Q : Nat → FileTable → Prop}

theorem Good.mono (h : Good sha256 d v b g files P) (hPQ : ∀ g files, P g files → Q g files) :
    Good sha256 d v b g files Q :=
  { h with other := h.other.imp_right fun ⟨hc, hs⟩ => ⟨hc, fun s hl g files hsn => hPQ _ _ (hs s hl g files hsn)⟩ }

theorem Good.length_volume (h : Good sha256 d v b g files P) : v.length = 16 := by
  rw [← h.header_id, volumeId, length_slice]

theorem snapshot_of_not_recordOk {o : Bool} {s : Sector} (h : recordOk sha256 v o s = false) (m : Mem) :
    snapshot sha256 v o s m = none := by
  unfold snapshot
  rw [if_neg (by simp [h])]

/-- A torn record is not a record. -/
theorem recordOk_of_torn {o : Bool} {s : Sector} (h : Torn sha256 (recordLba o) s) : recordOk sha256 v o s = false := by
  refine recordOk_torn sha256 ?_
  unfold Torn tornOk at h
  rw [if_pos (by cases o <;> simp)] at h
  simpa using h

/-! ## What a mount finds -/

/-- Every power loss keeps the live bank, and leaves an allowed snapshot or none in the other. -/
theorem Good.crash (h : Good sha256 d v b g files P) {m : Nat → Sector} (hm : Crash (Torn sha256) d m) :
    headerOk sha256 (m sfTxnHeader) = true ∧ volumeId (m sfTxnHeader) = v ∧
      snapshotAt sha256 v m b = some (g, files) ∧
      ∀ g' files', snapshotAt sha256 v m (!b) = some (g', files') → P g' files' := by
  have hheader : m sfTxnHeader = d.durable sfTxnHeader := left_clean h.header_clean (hm _)
  have hrecord : m (recordLba b) = d.durable (recordLba b) := left_clean h.record_clean (hm _)
  have hbank : bankMem m b = bankMem d.durable b := bankMem_congr fun i hi => left_clean (h.bank_clean i hi) (hm _)
  refine ⟨by rw [hheader]; exact h.header_ok, by rw [hheader]; exact h.header_id, ?_, fun g' files' hs => ?_⟩
  · unfold snapshotAt
    rw [hrecord, hbank]
    exact h.live
  · unfold snapshotAt at hs
    rcases h.other with hinv | ⟨hclean, hset⟩
    · rw [snapshot_of_not_recordOk (hinv _ (hm _))] at hs
      cases hs
    have hother : bankMem m (!b) = bankMem d.durable (!b) := bankMem_congr fun i hi => left_clean (hclean i hi) (hm _)
    rw [hother] at hs
    exact hset _ (hm _) g' files' hs

/-- **After any power loss a mount succeeds**, with the live snapshot or with a newer allowed one. -/
theorem Good.mount (h : Good sha256 d v b g files P) (hP : ∀ g' files', P g' files' → g' ≠ g) {m : Nat → Sector}
    (hm : Crash (Torn sha256) d m) :
    ∃ t, mountMedia sha256 m = .ok t ∧ t.ready = true ∧ t.volume = v ∧
      ((t.bank = b ∧ t.generation = g ∧ t.files = files) ∨
        (t.bank = !b ∧ P t.generation t.files ∧ g < t.generation)) := by
  obtain ⟨hok, hid, hlive, hother⟩ := h.crash hm
  -- the other bank is chosen exactly when it is newer
  by_cases hnew : ∃ g' files', snapshotAt sha256 v m (!b) = some (g', files') ∧ g < g'
  · obtain ⟨g', files', hs, hlt⟩ := hnew
    refine ⟨⟨true, g', !b, v, files'⟩, ?_, rfl, rfl, Or.inr ⟨rfl, hother _ _ hs, hlt⟩⟩
    refine (mountMedia_ok_iff sha256).2 ⟨hok, rfl, hid.symm, hs, fun g'' files'' hs' => ?_⟩
    rw [Bool.not_not, hlive] at hs'
    cases hs'
    exact hlt
  · refine ⟨⟨true, g, b, v, files⟩, ?_, rfl, rfl, Or.inl ⟨rfl, rfl, rfl⟩⟩
    refine (mountMedia_ok_iff sha256).2 ⟨hok, rfl, hid.symm, hlive, fun g' files' hs => ?_⟩
    have hne := hP _ _ (hother _ _ hs)
    have hle : ¬ g < g' := fun hlt => hnew ⟨g', files', hs, hlt⟩
    show g' < g
    omega

/-! ## The phases of a commit -/

/-- The live bank is untouched by whatever leaves its sectors clean and unchanged. -/
theorem Good.keep (h : Good sha256 d v b g files P)
    (hkeep : ∀ a, d.Clean a → a = sfTxnHeader ∨ a = recordLba b ∨ (∃ i < sfTxnBankSectors, a = bankLba b i) →
      d'.Clean a ∧ d'.durable a = d.durable a)
    (hother : Invalid sha256 d' v (!b) ∨ Settled sha256 d' v (!b) Q) : Good sha256 d' v b g files Q := by
  obtain ⟨hc, hd⟩ := hkeep _ h.header_clean (Or.inl rfl)
  obtain ⟨hrc, hrd⟩ := hkeep _ h.record_clean (Or.inr (Or.inl rfl))
  have hbank := fun i hi => hkeep _ (h.bank_clean i hi) (Or.inr (Or.inr ⟨i, hi, rfl⟩))
  refine ⟨hc, by rw [hd]; exact h.header_ok, by rw [hd]; exact h.header_id, hrc, fun i hi => (hbank i hi).1, ?_, hother⟩
  unfold snapshotAt
  rw [hrd, bankMem_congr fun i hi => (hbank i hi).2]
  exact h.live

theorem Good.flush (h : Good sha256 d v b g files P) : Good sha256 d.flush v b g files P := by
  refine h.keep (fun a ha _ => ⟨clean_flush d a, cache_clean ha⟩) ?_
  have hleft : ∀ s, Left (Torn sha256) d.flush (recordLba (!b)) s → Left (Torn sha256) d (recordLba (!b)) s := by
    intro s hl
    obtain rfl := left_clean (clean_flush d _) hl
    exact left_cache _ d _
  rcases h.other with hinv | ⟨hclean, hset⟩
  · exact Or.inl fun s hl => hinv s (hleft s hl)
  have hbank : bankMem d.flush.durable (!b) = bankMem d.durable (!b) :=
    bankMem_congr fun i hi => cache_clean (hclean i hi)
  refine Or.inr ⟨fun i _ => clean_flush d _, fun s hl g' files' hs => ?_⟩
  rw [hbank] at hs
  exact hset s (hleft s hl) g' files' hs

/-- A sector that a list of writes does not go to. -/
theorem not_mem_single {a c : Nat} (h : a ≠ c) (s : Sector) : ∀ t, (a, t) ∉ [(c, s)] := by
  intro t ht
  exact h (Prod.mk.inj (List.mem_singleton.1 ht)).1

section Phases

variable {f : Faulty Sector}

variable (s : Sector)

/-- What may be left of the other record after a write to it. -/
theorem left_record {t : Sector}
    (hl : Left (Torn sha256) (perform (tornOk sha256) ([(recordLba (!b), s)].map fun w => Op.write w.1 w.2) f).2.disk
      (recordLba (!b)) t) :
    Left (Torn sha256) f.disk (recordLba (!b)) t ∨ t = s ∨ recordOk sha256 v (!b) t = false := by
  rcases perform_left (tornOk sha256) _ f hl with hold | ⟨u, hu, hnew⟩
  · exact Or.inl hold
  · obtain rfl := (Prod.mk.inj (List.mem_singleton.1 hu)).2
    exact Or.inr (hnew.imp_right recordOk_of_torn)

theorem Good.keep_record (h : Good sha256 f.disk v b g files P)
    (hother : let d' := (perform (tornOk sha256) ([(recordLba (!b), s)].map fun w => Op.write w.1 w.2) f).2.disk
      Invalid sha256 d' v (!b) ∨ Settled sha256 d' v (!b) Q) :
    Good sha256 (perform (tornOk sha256) ([(recordLba (!b), s)].map fun w => Op.write w.1 w.2) f).2.disk v b g files Q := by
  refine h.keep (fun a ha hcase => perform_clean (tornOk sha256) _ f ha (not_mem_single ?_ s)) hother
  rcases hcase with rfl | rfl | ⟨i, _, rfl⟩
  · exact (recordLba_ne_header _).symm
  · exact recordLba_ne_not b
  · exact bankLba_ne_record _ _ _

theorem clean_bank_record (sha256 : List UInt8 → Digest) (hc : ∀ i < sfTxnBankSectors, f.disk.Clean (bankLba (!b) i)) :
    let d' := (perform (tornOk sha256) ([(recordLba (!b), s)].map fun w => Op.write w.1 w.2) f).2.disk
    (∀ i < sfTxnBankSectors, d'.Clean (bankLba (!b) i)) ∧ bankMem d'.durable (!b) = bankMem f.disk.durable (!b) := by
  have hkeep := fun i hi => perform_clean (tornOk sha256) [(recordLba (!b), s)] f (hc i hi)
    (not_mem_single (bankLba_ne_record (!b) (!b) i) s)
  exact ⟨fun i hi => (hkeep i hi).1, bankMem_congr fun i hi => (hkeep i hi).2⟩

/-- Invalidating the other record, with any outcome, keeps the invariant. -/
theorem Good.write_zero (h : Good sha256 f.disk v b g files P) :
    Good sha256 (perform (tornOk sha256) ([(recordLba (!b), zeroSector)].map fun w => Op.write w.1 w.2) f).2.disk
      v b g files P := by
  refine h.keep_record zeroSector ?_
  rcases h.other with hinv | ⟨hclean, hset⟩
  · refine Or.inl fun t hl => ?_
    rcases left_record (v := v) zeroSector hl with hold | rfl | hno
    · exact hinv t hold
    · exact recordOk_zeroSector sha256 v (!b)
    · exact hno
  · obtain ⟨hclean', hbank⟩ := clean_bank_record zeroSector sha256 hclean
    refine Or.inr ⟨hclean', fun t hl g' files' hs => ?_⟩
    rw [hbank] at hs
    rcases left_record (v := v) zeroSector hl with hold | rfl | hno
    · exact hset t hold g' files' hs
    · rw [snapshot_of_not_recordOk (recordOk_zeroSector sha256 v (!b))] at hs; cases hs
    · rw [snapshot_of_not_recordOk hno] at hs; cases hs

/-- Writing a new record over an invalid one adds the snapshot it vouches for. -/
theorem Good.write_record (h : Good sha256 f.disk v b g files P) (hinv : Invalid sha256 f.disk v (!b))
    (hclean : ∀ i < sfTxnBankSectors, f.disk.Clean (bankLba (!b) i))
    (hs : ∀ g' files', snapshot sha256 v (!b) s (bankMem f.disk.durable (!b)) = some (g', files') → Q g' files') :
    Good sha256 (perform (tornOk sha256) ([(recordLba (!b), s)].map fun w => Op.write w.1 w.2) f).2.disk v b g files Q := by
  obtain ⟨hclean', hbank⟩ := clean_bank_record s sha256 hclean
  refine h.keep_record s (Or.inr ⟨hclean', fun t hl g' files' ht => ?_⟩)
  rw [hbank] at ht
  rcases left_record (v := v) s hl with hold | rfl | hno
  · rw [snapshot_of_not_recordOk (hinv t hold)] at ht; cases ht
  · exact hs g' files' ht
  · rw [snapshot_of_not_recordOk hno] at ht; cases ht

/-- While its record is invalid, the other bank may be overwritten. -/
theorem Good.write_bank (h : Good sha256 f.disk v b g files P) (hinv : Invalid sha256 f.disk v (!b)) (buffer : Mem) :
    let d' := (perform (tornOk sha256) ((bankWrites (!b) buffer).map fun w => Op.write w.1 w.2) f).2.disk
    Good sha256 d' v b g files P ∧ Invalid sha256 d' v (!b) := by
  have hinv' : Invalid sha256
      (perform (tornOk sha256) ((bankWrites (!b) buffer).map fun w => Op.write w.1 w.2) f).2.disk v (!b) := by
    intro t hl
    rcases perform_left (tornOk sha256) _ f hl with hold | ⟨u, hu, _⟩
    · exact hinv t hold
    · obtain ⟨i, _, he, _⟩ := mem_bankWrites.1 hu
      exact absurd he (bankLba_ne_record _ _ _).symm
  refine ⟨h.keep (fun a ha hcase => perform_clean (tornOk sha256) _ f ha fun t ht => ?_) (Or.inl hinv'), hinv'⟩
  obtain ⟨j, hj, he, _⟩ := mem_bankWrites.1 ht
  rcases hcase with rfl | rfl | ⟨i, hi, rfl⟩
  · exact bankLba_ne_header _ _ he.symm
  · exact bankLba_ne_record _ _ _ he.symm
  · exact bankLba_ne_not hi hj he

end Phases

/-- A settled other bank can be the one that is relied on. -/
theorem Good.swap (h : Good sha256 d v b g files P) (hrec : d.Clean (recordLba (!b)))
    (hbank : ∀ i < sfTxnBankSectors, d.Clean (bankLba (!b) i)) {g' : Nat} {files' : FileTable}
    (hs : snapshotAt sha256 v d.durable (!b) = some (g', files')) :
    Good sha256 d v (!b) g' files' (fun g'' files'' => g'' = g ∧ files'' = files) := by
  refine ⟨h.header_clean, h.header_ok, h.header_id, hrec, hbank, hs, Or.inr ?_⟩
  rw [Bool.not_not]
  refine ⟨h.bank_clean, fun s hl g'' files'' hsn => ?_⟩
  obtain rfl := left_clean h.record_clean hl
  have hlive := h.live
  unfold snapshotAt at hlive
  rw [hlive] at hsn
  cases hsn
  exact ⟨rfl, rfl⟩

/-- What the operations of a commit leave: the old snapshot, with the new one allowed, or durably the new one. -/
def CommitResult (sha256 : List UInt8 → Digest) (t : SfTxn) (next : FileTable) (Q : Nat → FileTable → Prop)
    (r : Bool × Faulty Sector) : Prop :=
  (r.1 = false → Good sha256 r.2.disk t.volume t.bank t.generation t.files Q) ∧
    (r.1 = true → r.2.disk.pending = [] ∧ Good sha256 r.2.disk t.volume (!t.bank) (t.generation + 1) next
      (fun g files => g = t.generation ∧ files = t.files))

section Run

variable {t : SfTxn} {next : FileTable} {f : Faulty Sector}

theorem CommitResult.failed {r : Bool × Faulty Sector} (hr : r.1 = false)
    (h : Good sha256 r.2.disk t.volume t.bank t.generation t.files Q) : CommitResult sha256 t next Q r :=
  ⟨fun _ => h, fun ht => by rw [hr] at ht; cases ht⟩

/-- A flush, and what follows it on the flushed disk. -/
theorem CommitResult.flush {ps : List (Op Sector)}
    (h : Good sha256 f.disk t.volume t.bank t.generation t.files Q)
    (hok : ∀ f' : Faulty Sector, f'.disk = f.disk.flush →
      CommitResult sha256 t next Q (perform (tornOk sha256) ps f')) :
    CommitResult sha256 t next Q (perform (tornOk sha256) ([Op.flush] ++ ps) f) := by
  refine perform_append_cases (tornOk sha256) (fun hfail => ?_) fun hdone => ?_
  · rcases perform_flush (tornOk sha256) f with ⟨h₁, _⟩ | ⟨_, h₂⟩
    · rw [h₁] at hfail; cases hfail
    · exact CommitResult.failed hfail (by rw [h₂]; exact h)
  · rcases perform_flush (tornOk sha256) f with ⟨_, h₂⟩ | ⟨h₁, _⟩
    · exact hok _ h₂
    · rw [h₁] at hdone; cases hdone

/-- The last phase: a new record over an invalid one, and its flush. -/
theorem commit_record {record : Sector}
    (h : Good sha256 f.disk t.volume t.bank t.generation t.files P) (hinv : Invalid sha256 f.disk t.volume (!t.bank))
    (hclean : ∀ i < sfTxnBankSectors, f.disk.Clean (bankLba (!t.bank) i))
    (hsnap : snapshot sha256 t.volume (!t.bank) record (bankMem f.disk.durable (!t.bank)) = some (t.generation + 1, next))
    (hQ : Q (t.generation + 1) next) :
    CommitResult sha256 t next Q (perform (tornOk sha256)
      ([(recordLba (!t.bank), record)].map (fun w => Op.write w.1 w.2) ++ [Op.flush]) f) := by
  have hgood := h.write_record record (Q := Q) hinv hclean fun g' files' hs => by
    rw [hsnap] at hs; cases hs; exact hQ
  obtain ⟨hclean', hbank⟩ := clean_bank_record record sha256 hclean
  refine perform_append_cases (tornOk sha256) (fun hfail => CommitResult.failed hfail hgood) fun hdone => ?_
  rw [← List.append_nil [Op.flush]]
  refine CommitResult.flush hgood fun f' hf' => ⟨fun hno => (by cases hno), fun _ => ?_⟩
  -- everything is flushed, so the new bank is settled with its record
  have hcache := perform_cache (tornOk sha256) _ f hdone
  have hrecord : f'.disk.durable (recordLba (!t.bank)) = record := by
    rw [hf', Disk.flush, hcache]
    exact Function.update_self _ _ _
  have hbank' : bankMem f'.disk.durable (!t.bank) = bankMem f.disk.durable (!t.bank) := by
    rw [← hbank, hf']
    exact bankMem_congr fun i hi => cache_clean (hclean' i hi)
  have hpend : f'.disk.pending = [] := by rw [hf']; rfl
  refine ⟨hpend, Good.swap (hf' ▸ hgood.flush) (clean_of_no_pending hpend _) (fun i _ => clean_of_no_pending hpend _) ?_⟩
  unfold snapshotAt
  rw [hrecord, hbank']
  exact hsnap

/-- **The operations of a commit**, failing anywhere or nowhere. -/
theorem perform_commitOps (next : FileTable)
    (h : Good sha256 f.disk t.volume t.bank t.generation t.files P)
    (hg : t.generation + 1 < 2 ^ 64) (hPQ : ∀ g files, P g files → Q g files) (hQ : Q (t.generation + 1) next) :
    CommitResult sha256 t next Q (perform (tornOk sha256) (commitOps sha256 t next) f) := by
  -- invalidate the record of the other bank
  have h₁ := h.write_zero
  refine perform_append_cases (tornOk sha256) (fun hfail => .failed hfail (h₁.mono hPQ)) fun hdone => ?_
  have hzero := perform_cache (tornOk sha256) _ f hdone
  revert h₁ hzero
  generalize (perform (tornOk sha256) _ f).2 = f₁
  intro h₁ hzero
  refine CommitResult.flush (h₁.mono hPQ) fun f₂ hf₂ => ?_
  have h₂ : Good sha256 f₂.disk t.volume t.bank t.generation t.files P := hf₂ ▸ h₁.flush
  have hinv₂ : Invalid sha256 f₂.disk t.volume (!t.bank) := by
    intro s hl
    rw [hf₂] at hl
    obtain rfl := left_clean (clean_flush _ _) hl
    rw [Disk.flush, hzero]
    exact (congrArg _ (Function.update_self _ _ _)).trans (recordOk_zeroSector sha256 _ _)
  -- overwrite the bank
  obtain ⟨h₃, hinv₃⟩ := h₂.write_bank hinv₂ (encode sha256 (t.generation + 1) next)
  refine perform_append_cases (tornOk sha256) (fun hfail => .failed hfail (h₃.mono hPQ)) fun hdone₃ => ?_
  have hbank := perform_cache (tornOk sha256) _ f₂ hdone₃
  revert h₃ hinv₃ hbank
  generalize (perform (tornOk sha256) _ f₂).2 = f₃
  intro h₃ hinv₃ hbank
  refine CommitResult.flush (h₃.mono hPQ) fun f₄ hf₄ => ?_
  have hmem : bankMem f₄.disk.durable (!t.bank) = encode sha256 (t.generation + 1) next := by
    rw [hf₄, Disk.flush, hbank, bankMem_applyAll fun a => encode_zero sha256 (t.generation + 1) next]
  have hinv₄ : Invalid sha256 f₄.disk t.volume (!t.bank) := by
    intro s hl
    rw [hf₄] at hl
    obtain rfl := left_clean (clean_flush _ _) hl
    exact hinv₃ _ (left_cache _ _ _)
  -- and write its record
  have h₄ : Good sha256 f₄.disk t.volume t.bank t.generation t.files P := hf₄ ▸ h₃.flush
  have hclean₄ : ∀ i < sfTxnBankSectors, f₄.disk.Clean (bankLba (!t.bank) i) := fun i _ => hf₄ ▸ clean_flush _ _
  refine commit_record h₄ hinv₄ hclean₄ ?_ hQ
  rw [hmem]
  exact snapshot_commitRecord sha256 h.length_volume _ hg (Nat.succ_pos _) next

end Run

/-- A volume mounted from a medium with nothing pending is relied on, and the other bank is older. -/
theorem good_of_mount {t : SfTxn} (hd : d.pending = []) (hm : mountMedia sha256 d.durable = .ok t) :
    Good sha256 d t.volume t.bank t.generation t.files (fun g _ => g < t.generation) := by
  obtain ⟨hok, _, hid, hlive, hother⟩ := (mountMedia_ok_iff sha256).1 hm
  have hclean := clean_of_no_pending hd
  refine ⟨hclean _, hok, hid.symm, hclean _, fun i _ => hclean _, hlive, Or.inr ⟨fun i _ => hclean _, ?_⟩⟩
  intro s hl g' files' hs
  obtain rfl := left_clean (hclean _) hl
  exact hother g' files' hs

end Invariant

/-! ## Atomicity -/

/-- What a mount finds after a commit and a power loss. -/
theorem CommitResult.mount {sha256 : List UInt8 → Digest} {t : SfTxn} {next : FileTable} {r : Bool × Faulty Sector}
    (h : CommitResult sha256 t next (fun g files => g < t.generation ∨ (g = t.generation + 1 ∧ files = next)) r)
    {m : Nat → Sector} (hm : Crash (Torn sha256) r.2.disk m) :
    ∃ t', mountMedia sha256 m = .ok t' ∧ ((t'.generation = t.generation ∧ t'.files = t.files) ∨
        (t'.generation = t.generation + 1 ∧ t'.files = next)) ∧
      (r.1 = true → t'.generation = t.generation + 1 ∧ t'.files = next) := by
  cases hr : r.1 with
  | false =>
    obtain ⟨t', hmount, _, _, ⟨_, hsame⟩ | ⟨_, hQ, hlt⟩⟩ := (h.1 hr).mount (fun g' files' hQ => by omega) hm
    · exact ⟨t', hmount, Or.inl hsame, fun hno => by cases hno⟩
    rcases hQ with hQ | hQ
    · omega
    · exact ⟨t', hmount, Or.inr hQ, fun hno => by cases hno⟩
  | true =>
    obtain ⟨t', hmount, _, _, ⟨_, hnew⟩ | ⟨_, hQ, hlt⟩⟩ := (h.2 hr).2.mount (fun g' files' hQ => by omega) hm
    · exact ⟨t', hmount, Or.inr hnew, fun _ => hnew⟩
    · omega

/-- **A commit is atomic.** Take a volume mounted from durable media and an admissible batch. Whatever operation of
the commit fails, and wherever the power goes (after any number `n` of its operations, in the middle of one being a
failure of it), every medium the power loss can leave mounts, as the old snapshot or as the new one with the whole
batch; and as the new one if the commit returned 0. -/
theorem sfTxnCommit_atomic (sha256 : List UInt8 → Digest) {d : Disk Sector} {t : SfTxn}
    {batch : List (List UInt8 × List UInt8)} (hd : d.pending = []) (hm : mountMedia sha256 d.durable = .ok t)
    (hg : t.generation < 2 ^ 64 - 1) (ha : Admissible t.files batch) :
    ∃ next, stage t batch = .ok next ∧ Updated t.files batch next ∧
      (∀ script n m, Crash (Torn sha256) (perform (tornOk sha256) ((commitOps sha256 t next).take n) ⟨d, script⟩).2.disk m →
        ∃ t', mountMedia sha256 m = .ok t' ∧ ((t'.generation = t.generation ∧ t'.files = t.files) ∨
          (t'.generation = t.generation + 1 ∧ t'.files = next))) ∧
      (∀ script m, Crash (Torn sha256) (sfTxnCommit sha256 t batch ⟨d, script⟩).2.2.disk m →
        ∃ t', mountMedia sha256 m = .ok t' ∧ ((t'.generation = t.generation ∧ t'.files = t.files) ∨
          (t'.generation = t.generation + 1 ∧ t'.files = next)) ∧
        ((sfTxnCommit sha256 t batch ⟨d, script⟩).1 = .ok () → t'.generation = t.generation + 1 ∧ t'.files = next)) := by
  obtain ⟨_, hready, _⟩ := (mountMedia_ok_iff sha256).1 hm
  obtain ⟨next, hstage, hupd⟩ := stage_admissible hready hg ha
  have hrun := fun script => perform_commitOps (f := ⟨d, script⟩) next
    (Q := fun g files => g < t.generation ∨ (g = t.generation + 1 ∧ files = next)) (good_of_mount hd hm) (by omega)
    (fun _ _ h => Or.inl h) (Or.inr ⟨rfl, rfl⟩)
  refine ⟨next, hstage, hupd, fun script n m hcrash => ?_, fun script m hcrash => ?_⟩
  · obtain ⟨script', hcut⟩ := perform_take (tornOk sha256) (commitOps sha256 t next) n d script
    rw [hcut] at hcrash
    obtain ⟨t', hmount, hcases, _⟩ := (hrun script').mount hcrash
    exact ⟨t', hmount, hcases⟩
  · have hcommit := hrun script
    unfold sfTxnCommit at hcrash ⊢
    rw [hstage] at hcrash ⊢
    simp only at hcrash ⊢
    cases hr : (perform (tornOk sha256) (commitOps sha256 t next) ⟨d, script⟩).1 with
    | false =>
      rw [hr] at hcrash
      obtain ⟨t', hmount, hcases, _⟩ := hcommit.mount hcrash
      exact ⟨t', hmount, hcases, fun hno => by cases hno⟩
    | true =>
      rw [hr] at hcrash
      obtain ⟨t', hmount, hcases, hnew⟩ := hcommit.mount hcrash
      exact ⟨t', hmount, hcases, fun _ => hnew hr⟩

/-- Creating `/a` on a formatted volume: wherever the commit is cut, the medium mounts with `/a` absent or whole. -/
theorem sfTxnCommit_atomic_formatted :
    let sha256 : List UInt8 → Digest := fun _ => Vector.replicate 32 0
    let t : SfTxn := ⟨true, 1, false, List.replicate 16 0, FileTable.empty⟩
    let d : Disk Sector := ⟨formatted sha256 (fun _ => zeroSector) (List.replicate 16 0), []⟩
    mountMedia sha256 d.durable = .ok t ∧
      ∀ script m, Crash (Torn sha256) (sfTxnCommit sha256 t [([47, 97], [1])] ⟨d, script⟩).2.2.disk m →
        ∃ t', mountMedia sha256 m = .ok t' ∧ (t'.files.get? [47, 97] = none ∨ t'.files.get? [47, 97] = some [1]) := by
  intro sha256 t d
  have hm : mountMedia sha256 d.durable = .ok t := mountMedia_formatted sha256 _ (by decide)
  have ha : Admissible t.files [([47, 97], [1])] :=
    ⟨by decide, by decide, by decide, by decide, by decide, by decide⟩
  obtain ⟨next, _, hupd, _, hcommit⟩ := sfTxnCommit_atomic sha256 (t := t) rfl hm (by decide) ha
  refine ⟨hm, fun script m hcrash => ?_⟩
  obtain ⟨t', hmount, ⟨_, hold⟩ | ⟨_, hnew⟩, _⟩ := hcommit script m hcrash
  · exact ⟨t', hmount, Or.inl (by rw [hold]; rfl)⟩
  · exact ⟨t', hmount, Or.inr (by rw [hnew, hupd]; rfl)⟩

end SpiritFox.Txn
