import SpiritFox.Persist.Effects

/-!
# The record and the package slots

`Sound` is the invariant of the medium over every run: the record names slots that hold packages with the recorded
digests, of one application, and a candidate is newer than the confirmed package it was compared with.
`change_sound` keeps it, and says what a change does to the confirmed package: nothing, or the confirmation of the
candidate by a finished trial.

The main result is `slots_consistent`.
-/

namespace SpiritFox.Persist

open Txn Trust Update Version

section Slots

variable (sha256 : List UInt8 → Digest) (code : PackageCode) (store : SfTrustStore) {path data : List UInt8}
  {op : PersistOp}

/-- The slot holds `data`: a package with this digest, of this application and version. -/
def Holds (files : FileTable) (slot : Option Slot) (hash : Digest) (id data : List UInt8) (version : SfVersion) : Prop :=
  files.get? (slotPath slot) = some data ∧ sha256 data = hash ∧ AppVersion sha256 code store data id version

structure Sound (files : FileTable) (st : SfUpdate) : Prop where
  record : Record files st
  good : st.good ≠ none → ∃ data version, Holds sha256 code store files st.good st.goodHash st.appId data version
  candidate : st.candidate ≠ none →
    ∃ data version, Holds sha256 code store files st.candidate st.candidateHash st.appId data version ∧
      (st.good ≠ none → ∃ old floor, Holds sha256 code store files st.good st.goodHash st.appId old floor ∧
        Newer floor version)

/-- What a change from `st` to `st'` does to the confirmed package. -/
def Confirms (files next : FileTable) (st : SfUpdate) (op : PersistOp) (st' : SfUpdate) : Prop :=
  (st'.good = st.good ∧ st'.goodHash = st.goodHash ∧ (st.good ≠ none → st'.appId = st.appId ∧
      next.get? (slotPath st.good) = files.get? (slotPath st.good))) ∨
    ((∃ io, op = .finish io true) ∧ st.phase = .trying ∧ st'.good = st.candidate ∧ st'.goodHash = st.candidateHash ∧
      st'.appId = st.appId ∧ next.get? (slotPath st.candidate) = files.get? (slotPath st.candidate))

variable {sha256 code store} {files next : FileTable} {st st' : SfUpdate}

/-! ## Files that a change leaves alone -/

theorem slotPath_ne (slot : Option Slot) : slotPath slot ≠ bootCurrent ∧ slotPath slot ≠ bootRevoked ∧
    slotPath slot ≠ notesUser := by
  rcases slot with _ | _ | _ <;> decide

theorem slotPath_injective {slot slot' : Option Slot} (h : slot ≠ none) (h' : slot' ≠ none)
    (he : slotPath slot = slotPath slot') : slot = slot' := by
  rcases slot with _ | _ | _ <;> rcases slot' with _ | _ | _ <;> first | rfl | contradiction

theorem Updated.tail {p : List UInt8} {rest : List (List UInt8 × List UInt8)}
    (h : Updated files ((path, data) :: rest) next) (hp : p ≠ path) :
    next.get? p = (rest.lookup p).or (files.get? p) := by
  rw [h p, List.lookup_cons, beq_eq_false_iff_ne.2 hp]

theorem Updated.other {p : List UInt8} (h : Updated files [(path, data)] next) (hp : p ≠ path) :
    next.get? p = files.get? p := by
  rw [Updated.tail h hp]
  rfl

theorem Updated.self {rest : List (List UInt8 × List UInt8)}
    (h : Updated files ((path, data) :: rest) next) : next.get? path = some data := by
  rw [h path, List.lookup_cons, beq_self_eq_true]
  rfl

/-- A batch that only writes other files keeps the record. -/
theorem Record.other (h : Record files st) (hu : Updated files [(path, data)] next)
    (hp : path ≠ bootCurrent) : Record next st := by
  unfold Record at *
  rwa [Updated.other hu hp.symm]

theorem record_of_valid (hv : valid st = true) (hg : next.get? bootCurrent = some (updateBytes st)) : Record next st :=
  Or.inr ⟨_, hg, sfUpdateDecode_updateBytes hv⟩

theorem Holds.keep {slot : Option Slot} {hash : Digest} {id : List UInt8} {version : SfVersion}
    (h : Holds sha256 code store files slot hash id data version)
    (hk : next.get? (slotPath slot) = files.get? (slotPath slot)) : Holds sha256 code store next slot hash id data version :=
  ⟨hk.trans h.1, h.2⟩

/-- Files that keep both slots, under a record that names the same packages. -/
theorem Sound.keep (h : Sound sha256 code store files st)
    (hk : ∀ slot, next.get? (slotPath slot) = files.get? (slotPath slot))
    (phase : Phase) (hrec : Record next { st with phase := phase }) :
    Sound sha256 code store next { st with phase := phase } := by
  refine ⟨hrec, fun hg => ?_, fun hc => ?_⟩
  · obtain ⟨data, v, hh⟩ := h.good hg
    exact ⟨data, v, hh.keep (hk _)⟩
  obtain ⟨data, v, hh, hnew⟩ := h.candidate hc
  refine ⟨data, v, hh.keep (hk _), fun hg => ?_⟩
  obtain ⟨old, fl, ho, hn⟩ := hnew hg
  exact ⟨old, fl, ho.keep (hk _), hn⟩

/-! ## Changes -/

/-- A change of the record alone keeps both slots. -/
theorem Sound.record_only (hv : valid st' = true) (hu : Updated files [(bootCurrent, updateBytes st')] next) :
    Record next st' ∧ ∀ slot, next.get? (slotPath slot) = files.get? (slotPath slot) :=
  ⟨record_of_valid hv (Updated.self hu), fun slot => Updated.other hu (slotPath_ne slot).1⟩

theorem confirms_keep (hg : st'.good = st.good) (hh : st'.goodHash = st.goodHash)
    (hid : st.good ≠ none → st'.appId = st.appId)
    (hk : next.get? (slotPath st.good) = files.get? (slotPath st.good)) : Confirms files next st op st' :=
  Or.inl ⟨hg, hh, fun hne => ⟨hid hne, hk⟩⟩

section

variable (h : Sound sha256 code store files st)

include h

/-- Writing any other file keeps the invariant and the record. -/
theorem Sound.other
    (hu : Updated files [(path, data)] next) (hp : path ≠ bootCurrent) (hs : ∀ slot, slotPath slot ≠ path) :
    Sound sha256 code store next st ∧ Confirms files next st op st :=
  have hk := fun slot => Updated.other hu (hs slot)
  ⟨h.keep hk st.phase (h.record.other hu hp), confirms_keep rfl rfl (fun _ => rfl) (hk _)⟩

/-- The end of a trial: the confirmed package is the candidate, or the one before. -/
theorem Sound.finish {success : Bool} (hfin : sfUpdateFinish st success = .ok st')
    (hu : Updated files [(bootCurrent, updateBytes st')] next) : Sound sha256 code store next st' := by
  obtain ⟨_, _, hv, _, hcand, hgood, hhash, hid⟩ := sfUpdateFinish_ok hfin
  obtain ⟨hrec, hk⟩ := Sound.record_only hv hu
  refine ⟨hrec, fun hg => ?_, fun hc => absurd hcand hc⟩
  rw [hid hg, hhash]
  cases success with
  | true =>
    simp only [↓reduceIte] at hgood ⊢
    rw [hgood] at hg ⊢
    obtain ⟨data, v, hh, _⟩ := h.candidate hg
    exact ⟨data, v, hh.keep (hk _)⟩
  | false =>
    simp only [Bool.false_eq_true, ↓reduceIte] at hgood ⊢
    rw [hgood] at hg ⊢
    obtain ⟨data, v, hh⟩ := h.good hg
    exact ⟨data, v, hh.keep (hk _)⟩

/-- An install writes the slot that is not confirmed. -/
theorem Sound.install {id : List UInt8} {version : SfVersion}
    (hchk : InstallChecks sha256 code store files st data id version st')
    (hu : Updated files [(slotPath st'.candidate, data), (bootCurrent, updateBytes st')] next) :
    Sound sha256 code store next st' ∧
      (st.good ≠ none → next.get? (slotPath st.good) = files.get? (slotPath st.good)) := by
  obtain ⟨_, _, _, hv, hst⟩ := sfUpdateStage_ok hchk.staged
  have hcand : st'.candidate = some (otherSlot st.good) := by rw [hst]
  have hrec : next.get? bootCurrent = some (updateBytes st') := by
    rw [Updated.tail hu (slotPath_ne _).1.symm, List.lookup_cons, beq_self_eq_true]
    rfl
  have hkeep : st.good ≠ none → next.get? (slotPath st.good) = files.get? (slotPath st.good) := fun hg => by
    have hne : slotPath st.good ≠ slotPath st'.candidate := fun he =>
      otherSlot_ne st.good (hcand ▸ slotPath_injective hg (by simp [hcand]) he).symm
    rw [Updated.tail hu hne, List.lookup_cons, beq_eq_false_iff_ne.2 (slotPath_ne _).1]
    rfl
  have hdata : next.get? (slotPath st'.candidate) = some data := Updated.self hu
  subst hst
  refine ⟨⟨record_of_valid hv hrec, fun hg => ?_, fun _ => ?_⟩, hkeep⟩
  · obtain ⟨old, fl, hh⟩ := h.good hg
    rw [(hchk.floor hg).1] at hh
    exact ⟨old, fl, hh.keep (hkeep hg)⟩
  · refine ⟨data, version, ⟨hdata, rfl, hchk.app⟩, fun hg => ?_⟩
    obtain ⟨happ, old, fl, hold, hhash, hver, hnew⟩ := hchk.floor hg
    rw [happ] at hver
    exact ⟨old, fl, ⟨(hkeep hg).trans hold, hhash, hver⟩, hnew⟩

/-- **Every change keeps the invariant**, and only a finished trial confirms another package. -/
theorem change_sound
    (hc : Change sha256 code store files st op next) :
    ∃ st', Sound sha256 code store next st' ∧ Confirms files next st op st' ∧ ∀ io, op = .mount io → RolledBack st st' := by
  have hmount : ∀ {st' : SfUpdate}, (∀ io, op ≠ .mount io) → ∀ io, op = .mount io → RolledBack st st' :=
    fun hne io he => absurd he (hne io)
  have hother : ∀ slot, slotPath slot ≠ bootRevoked ∧ slotPath slot ≠ notesUser := fun slot => (slotPath_ne slot).2
  cases op with
  | mount io =>
    obtain ⟨st', hback, hu⟩ := hc
    obtain ⟨_, _, hv, _, _, hgood, hhash, hid⟩ := sfUpdateFinish_ok hback
    refine ⟨st', h.finish hback hu, confirms_keep hgood hhash ?_ ((Sound.record_only hv hu).2 _), fun _ _ => hback⟩
    exact fun hne => hid (hgood ▸ hne)
  | install io load =>
    obtain ⟨data, id, version, st', _, hchk, hu⟩ := hc
    obtain ⟨hsound, hkeep⟩ := h.install hchk hu
    obtain ⟨_, _, _, _, hst⟩ := sfUpdateStage_ok hchk.staged
    refine ⟨st', hsound, Or.inl ⟨by rw [hst], by rw [hst], fun hg => ⟨?_, hkeep hg⟩⟩, hmount (by simp)⟩
    rw [hst, (hchk.floor hg).1]
  | begin io =>
    obtain ⟨st', hbegin, hu⟩ := hc
    obtain ⟨_, _, hv, rfl⟩ := sfUpdateBegin_ok hbegin
    obtain ⟨hrec, hk⟩ := Sound.record_only hv hu
    exact ⟨_, h.keep hk _ hrec, confirms_keep rfl rfl (fun _ => rfl) (hk _), hmount (by simp)⟩
  | finish io success =>
    obtain ⟨st', hfin, hu⟩ := hc
    obtain ⟨_, htry, hv, _, _, hgood, hhash, hid⟩ := sfUpdateFinish_ok hfin
    have hk := (Sound.record_only hv hu).2
    refine ⟨st', h.finish hfin hu, ?_, hmount (by simp)⟩
    cases success with
    | false => exact confirms_keep hgood hhash (fun hne => hid (hgood ▸ hne)) (hk _)
    | true =>
      have hne : st.candidate ≠ none := fun hn => by
        have := (valid_iff.1 h.record.valid).2.2.1.2 hn
        rw [htry] at this
        cases this
      exact Or.inr ⟨⟨io, rfl⟩, htry, hgood, hhash, hid (hgood ▸ hne), hk _⟩
  | revoke io load =>
    obtain ⟨keyId, _, hu⟩ := hc
    obtain ⟨hsound, hconf⟩ := h.other hu (by decide) fun slot => (hother slot).1
    exact ⟨st, hsound, hconf, hmount (by simp)⟩
  | notesWrite io offset bytes =>
    obtain ⟨notes, hu⟩ := hc
    obtain ⟨hsound, hconf⟩ := h.other hu (by decide) fun slot => (hother slot).2
    exact ⟨st, hsound, hconf, hmount (by simp)⟩
  | notesTruncate io bytes =>
    obtain ⟨notes, hu⟩ := hc
    obtain ⟨hsound, hconf⟩ := h.other hu (by decide) fun slot => (hother slot).2
    exact ⟨st, hsound, hconf, hmount (by simp)⟩
  | restart => exact hc.elim

end

/-! ## Runs -/

variable {s : State}

/-- One operation keeps the invariant of the medium. -/
theorem step_sound (hs : Synced s) (h : Sound sha256 code store s.disk.files st) (op : PersistOp) :
    Synced (step sha256 code store s op).2 ∧ ∃ st', Sound sha256 code store (step sha256 code store s op).2.disk.files st' ∧
      Confirms s.disk.files (step sha256 code store s op).2.disk.files st op st' := by
  obtain ⟨hsync, _, _, hdisk | ⟨next, hc, hdisk, _⟩⟩ := step_effect hs h.record op
  · rw [hdisk]
    exact ⟨hsync, st, h, confirms_keep rfl rfl (fun _ => rfl) rfl⟩
  obtain ⟨st', hsound, hconf, _⟩ := change_sound h hc
  rw [hdisk]
  exact ⟨hsync, st', hsound, hconf⟩

theorem start_sound : Sound sha256 code store (start store).disk.files SfUpdate.zero :=
  ⟨Or.inl ⟨rfl, rfl⟩, fun h => absurd rfl h, fun h => absurd rfl h⟩

/-- Every run from an empty volume keeps the invariant. -/
theorem run_sound {G : State → PersistOp → Prop} (h : Run sha256 code store G (start store) s) :
    Synced s ∧ ∃ st, Sound sha256 code store s.disk.files st := by
  induction h with
  | refl => exact ⟨nofun, _, start_sound⟩
  | step _ op _ ih =>
    obtain ⟨hs, st, hsound⟩ := ih
    obtain ⟨hs', st', hsound', _⟩ := step_sound hs hsound op
    exact ⟨hs', st', hsound'⟩

/-- The state after a list of operations. -/
def replay (sha256 : List UInt8 → Digest) (code : PackageCode) (store : SfTrustStore) (ops : List PersistOp)
    (s : State) : State :=
  ops.foldl (fun s op => (step sha256 code store s op).2) s

theorem run_replay {s₀ : State} (ops : List PersistOp) (h : Run sha256 code store (fun _ _ => True) s₀ s) :
    Run sha256 code store (fun _ _ => True) s₀ (replay sha256 code store ops s) := by
  induction ops generalizing s with
  | nil => exact h
  | cons op ops ih => exact ih (h.step op trivial)

/-! ## The snapshots of a run -/

/-- The file of the slot is there, with this digest. -/
def Stored (sha256 : List UInt8 → Digest) (files : FileTable) (slot : Option Slot) (hash : Digest) : Prop :=
  ∃ data, files.get? (slotPath slot) = some data ∧ sha256 data = hash

/-- What a record says of the slots. -/
structure Consistent (sha256 : List UInt8 → Digest) (files : FileTable) (st : SfUpdate) : Prop where
  good : st.good ≠ none → Stored sha256 files st.good st.goodHash
  candidate : st.candidate ≠ none → Stored sha256 files st.candidate st.candidateHash
  distinct : st.candidate ≠ none → st.candidate ≠ st.good
  stable_iff : st.phase = .stable ↔ st.candidate = none

theorem Sound.consistent (h : Sound sha256 code store files st) : Consistent sha256 files st := by
  obtain ⟨_, _, hphase, hne, _⟩ := valid_iff.1 h.record.valid
  refine ⟨fun hg => ?_, fun hc => ?_, hne, hphase⟩
  · obtain ⟨data, _, hget, hhash, _⟩ := h.good hg
    exact ⟨data, hget, hhash⟩
  · obtain ⟨data, _, ⟨hget, hhash, _⟩, _⟩ := h.candidate hc
    exact ⟨data, hget, hhash⟩

/-- A mount that publishes a volume found in a trial has rolled it back. -/
theorem mount_rolledBack (h : Sound sha256 code store s.disk.files st) (io : MountIo) (htry : st.phase = .trying)
    (hready : (step sha256 code store s (.mount io)).2.volume.ready = true) :
    ∃ st', RolledBack st st' ∧ Record (step sha256 code store s (.mount io)).2.disk.files st' ∧
      Record (step sha256 code store s (.mount io)).2.volume.files st' := by
  obtain ⟨hsync, _, ⟨_, hno⟩ | ⟨st', next, hback, hu, _, hdisk⟩⟩ := mount_cases h.record io
  · exact absurd htry (hno hready)
  have hrec := (h.finish hback hu).record
  refine ⟨st', hback, ?_, ?_⟩
  · simpa only [step, hdisk] using hrec
  · simpa only [step, (hsync hready).2, hdisk] using hrec

/-- **In every snapshot of every run from an empty volume the record and the slots agree.** While a slot stays confirmed its
bytes stay; only a successful finish of a trial confirms the candidate; and a volume found in a trial is published only
after the trial is rolled back to the package confirmed before it. -/
theorem slots_consistent (h : Run sha256 code store (fun _ _ => True) (start store) s) :
    (s.disk.files.get? bootCurrent = none ∨ ∃ bytes st, s.disk.files.get? bootCurrent = some bytes ∧
        sfUpdateDecode bytes = .ok st ∧ Consistent sha256 s.disk.files st) ∧
      ∀ op st st', Record s.disk.files st → Record (step sha256 code store s op).2.disk.files st' →
        (st.good ≠ none → st'.good = st.good →
          (step sha256 code store s op).2.disk.files.get? (slotPath st.good) = s.disk.files.get? (slotPath st.good)) ∧
        (st'.good ≠ st.good ∨ st'.goodHash ≠ st.goodHash → (∃ io, op = .finish io true) ∧ st.phase = .trying ∧
          st'.good = st.candidate ∧ st'.goodHash = st.candidateHash) ∧
        ((∃ io, op = .mount io) → st.phase = .trying → (step sha256 code store s op).2.volume.ready = true →
          Record (step sha256 code store s op).2.volume.files st' ∧ st'.phase = .stable ∧ st'.candidate = none ∧
          st'.good = st.good ∧ st'.goodHash = st.goodHash) := by
  obtain ⟨hs, st₀, hsound⟩ := run_sound h
  refine ⟨?_, fun op st st' hrec hrec' => ?_⟩
  · rcases hsound.record with ⟨hnone, _⟩ | ⟨bytes, hb, hd⟩
    · exact Or.inl hnone
    · exact Or.inr ⟨bytes, st₀, hb, hd, hsound.consistent⟩
  · obtain rfl := hrec.unique hsound.record
    obtain ⟨_, st₁, hsound', hconf⟩ := step_sound hs hsound op
    obtain rfl := hrec'.unique hsound'.record
    refine ⟨fun hg hsame => ?_, fun hdiff => ?_, ?_⟩
    · rcases hconf with ⟨_, _, hk⟩ | ⟨_, htry, hgood, _⟩
      · exact (hk hg).2
      · have hc : st.candidate ≠ none := fun hn => hg (hsame.symm.trans (hgood.trans hn))
        exact absurd (hgood.symm.trans hsame) (hsound.consistent.distinct hc)
    · rcases hconf with ⟨hgood, hhash, _⟩ | ⟨hop, htry, hgood, hhash, _⟩
      · exact absurd hdiff (by simp [hgood, hhash])
      · exact ⟨hop, htry, hgood, hhash⟩
    · rintro ⟨io, rfl⟩ htry hready
      obtain ⟨st₂, hback, hrec₂, hvol⟩ := mount_rolledBack hsound io htry hready
      obtain rfl := hrec'.unique hrec₂
      obtain ⟨_, _, _, hphase, hcand, hgood, hhash, _⟩ := sfUpdateFinish_ok hback
      exact ⟨hvol, hphase, hcand, hgood, hhash⟩

end Slots

/-! ## A sample service -/

/-- A digest that tells packages apart by their first byte. -/
def sampleHash (bytes : List UInt8) : Digest := Vector.replicate 32 (bytes.headD 1)

/-- Packages of one application, `"a.b"`, whose first byte is the first digit of their version. -/
def sampleCode : PackageCode where
  parse data := .ok ⟨data, 2, List.replicate 32 1⟩
  verify _ _ := true
  nativeProfile _ := .ok ()
  manifestText p key _ :=
    if key = runtimeKey then .ok nativeRuntime
    else if key = versionKey then .ok [p.data.headD 49, 46, 48, 46, 48]
    else .ok [97, 46, 98]
  parse_ne _ := nofun
  nativeProfile_ne _ := nofun

def sampleStore : SfTrustStore := [⟨[1], 2, 0⟩]

/-- A storage service that answers everything. -/
def sampleIo : Io := ⟨true, none, .done⟩

def sampleMount : MountIo := ⟨sampleIo, none, none, none⟩

/-- Version `"1.0.0"` is installed on an empty volume and its trial begins. -/
def sampleTrial : List PersistOp := [.mount sampleMount, .install sampleIo (.ok [49]), .begin sampleIo]

def sampleRun (ops : List PersistOp) : State := replay sampleHash sampleCode sampleStore ops (start sampleStore)

theorem run_sampleRun (ops : List PersistOp) :
    Run sampleHash sampleCode sampleStore (fun _ _ => True) (start sampleStore) (sampleRun ops) :=
  run_replay ops Run.refl

theorem slots_consistent_trial : ∃ bytes st, (sampleRun sampleTrial).disk.files.get? bootCurrent = some bytes ∧
    sfUpdateDecode bytes = .ok st ∧ Consistent sampleHash (sampleRun sampleTrial).disk.files st :=
  (slots_consistent (run_sampleRun sampleTrial)).1.resolve_left (by decide +kernel)

/-- The record of an empty volume after a failed trial: neither a confirmed slot nor a candidate. -/
theorem failed_trial_record :
    (sampleRun (sampleTrial ++ [.finish sampleIo false])).disk.files.get? bootCurrent = some
      (updateBytes SfUpdate.zero) := by
  decide +kernel

/-- Without the condition that there is a candidate, it need not differ from the confirmed slot. -/
theorem not_candidate_ne_good : ¬ ∀ (sha256 : List UInt8 → Digest) (code : PackageCode) (store : SfTrustStore) (s : State),
    Run sha256 code store (fun _ _ => True) (start store) s → ∀ bytes st, s.disk.files.get? bootCurrent = some bytes →
      sfUpdateDecode bytes = .ok st → st.candidate ≠ st.good := fun h =>
  h _ _ _ _ (run_sampleRun _) _ _ failed_trial_record (sfUpdateDecode_updateBytes valid_zero) rfl

end SpiritFox.Persist
