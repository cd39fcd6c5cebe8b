import SpiritFox.Persist.Service

/-!
# What an operation can do to the medium

Every operation leaves the medium as it was or replaces its snapshot once. `Change` says what the new files can be, in terms
of the old files alone, and `step_effect` that there is nothing else; the invariants of the service are proved from it.

`Record files st` is what the record file says: nothing at all is the zero record.
-/

namespace SpiritFox.Persist

open Checks Txn Trust Update Version

/-- What `/boot/current` says. -/
def Record (files : FileTable) (st : SfUpdate) : Prop :=
  (files.get? bootCurrent = none ∧ st = SfUpdate.zero) ∨
    ∃ bytes, files.get? bootCurrent = some bytes ∧ sfUpdateDecode bytes = .ok st

/-- A published volume is what the medium holds. -/
def Synced (s : State) : Prop :=
  s.volume.ready = true → s.volume.generation = s.disk.generation ∧ s.volume.files = s.disk.files

section Effects

variable {sha256 : List UInt8 → Digest} {code : PackageCode} {store : SfTrustStore} {s : State} {st : SfUpdate}
  {t : SfTxn} {path : List UInt8} {capacity : Nat}

/-! ## The record -/

theorem sfUpdateDecode_ok {bytes : List UInt8} (h : sfUpdateDecode bytes = .ok st) : bytes.length = 160 ∧
    valid st = true := by
  obtain ⟨hv, rfl⟩ := updateBytes_of_decode h
  exact ⟨length_updateBytes (Nat.le_of_lt (valid_appId hv).1), hv⟩

theorem Record.valid {files : FileTable} (h : Record files st) : valid st = true := by
  rcases h with ⟨_, rfl⟩ | ⟨_, _, hd⟩
  · exact valid_zero
  · exact (sfUpdateDecode_ok hd).2

/-- The record of a snapshot is unique. -/
theorem Record.unique {files : FileTable} {st' : SfUpdate} (h : Record files st) (h' : Record files st') : st = st' := by
  rcases h with ⟨hn, rfl⟩ | ⟨bytes, hb, hd⟩ <;> rcases h' with ⟨hn', rfl⟩ | ⟨bytes', hb', hd'⟩
  · rfl
  · rw [hn] at hb'; cases hb'
  · rw [hn'] at hb; cases hb
  rw [hb] at hb'
  cases hb'
  rw [hd] at hd'
  exact Except.ok.inj hd'

theorem sfTxnGet_some {data : List UInt8} (hr : t.ready = true)
    (hg : t.files.get? path = some data) (hc : data.length ≤ capacity) : sfTxnGet t path capacity = .ok data := by
  simp [sfTxnGet, hr, hg, Nat.not_lt.2 hc]

theorem sfTxnGet_none (hr : t.ready = true)
    (hg : t.files.get? path = none) (hp : path ≠ []) : sfTxnGet t path capacity = .error .notFound := by
  simp [sfTxnGet, hr, hg, hp]

/-- What `sf_txn_get` returned is the stored file. -/
theorem sfTxnGet_ok {data : List UInt8} (h : sfTxnGet t path capacity = .ok data)
    (hp : path ≠ []) : t.ready = true ∧ t.files.get? path = some data ∧ data.length ≤ capacity := by
  unfold sfTxnGet at h
  split at h
  · cases h
  rename_i hr
  cases hg : t.files.get? path with
  | none => simp [hg, hp] at h
  | some x =>
    rw [hg] at h
    simp only at h
    split at h
    · cases h
    rename_i hc
    cases h
    exact ⟨by simpa using hr, rfl, Nat.not_lt.1 hc⟩

/-- `state_read` reads the record. -/
theorem stateRead_record (hr : s.volume.ready = true) (h : Record s.volume.files st) :
    stateRead sha256 code store s = .ok st := by
  unfold stateRead
  rcases h with ⟨hn, rfl⟩ | ⟨bytes, hb, hd⟩
  · rw [sfTxnGet_none hr hn (by decide)]
  have hlen := (sfUpdateDecode_ok hd).1
  rw [sfTxnGet_some hr hb (Nat.le_of_eq hlen)]
  -- the record is not one of the one-byte selectors
  split
  · rename_i h1; cases h1
  · rename_i h1; cases h1
  · rename_i h1; cases h1; exact absurd hlen (by decide)
  · rename_i h1; cases h1; exact absurd hlen (by decide)
  · rename_i h1; cases h1; exact hd

theorem stateRead_not_ready (hr : s.volume.ready = false) : stateRead sha256 code store s = .error .deviceGone := by
  simp [stateRead, sfTxnGet, hr]

theorem stateRead_ok {st₀ : SfUpdate} (hrec : s.volume.ready = true → Record s.volume.files st)
    (h : stateRead sha256 code store s = .ok st₀) : s.volume.ready = true ∧ st₀ = st := by
  cases hready : s.volume.ready with
  | false =>
    rw [stateRead_not_ready hready] at h
    cases h
  | true =>
    rw [stateRead_record hready (hrec hready)] at h
    cases h
    exact ⟨rfl, rfl⟩

/-! ## Commits -/

/-- The medium is replaced by what the batch stages; the volume stays published when the device has acknowledged it. -/
def Wrote (s s' : State) (io : Io) (batch : List (List UInt8 × List UInt8)) : Prop :=
  s.volume.ready = true ∧ (s'.volume.ready = true → io.outcome = .done) ∧
    ∃ next, Updated s.disk.files batch next ∧ s'.disk = ⟨s.disk.generation + 1, next⟩

variable {io : Io} {batch : List (List UInt8 × List UInt8)}

/-- What a commit can do; one that returns 0 has written. -/
theorem commit_cases (hs : Synced s) (io : Io) (batch : List (List UInt8 × List UInt8)) :
    Synced (commit s io batch).2 ∧ (commit s io batch).2.trust = s.trust ∧
      ((commit s io batch).2.volume.ready = true → s.volume.ready = true) ∧
      ((commit s io batch).2.disk = s.disk ∧ (∀ u, (commit s io batch).1 ≠ .ok u) ∨
        Wrote s (commit s io batch).2 io batch) := by
  unfold commit Wrote
  cases io.refused with
  | some e => exact ⟨hs, rfl, id, Or.inl ⟨rfl, nofun⟩⟩
  | none =>
    unfold atomicCommit
    cases hstage : stage s.volume batch with
    | error e => exact ⟨hs, rfl, id, Or.inl ⟨rfl, nofun⟩⟩
    | ok next =>
      obtain ⟨hready, _, hfiles⟩ := stage_ok hstage
      obtain ⟨hg, hf⟩ := hs hready
      have hupd : Updated s.disk.files batch next := hf ▸ updated_of_stageFiles hfiles
      cases io.outcome with
      | done => exact ⟨fun _ => ⟨rfl, rfl⟩, rfl, id, Or.inr ⟨hready, fun _ => rfl, next, hupd, by simp only [hg]⟩⟩
      | uncertain kept =>
        refine ⟨nofun, rfl, nofun, ?_⟩
        cases kept with
        | false => exact Or.inl ⟨rfl, nofun⟩
        | true => exact Or.inr ⟨hready, nofun, next, hupd, by simp only [hg, ↓reduceIte]⟩

/-- A commit that returns 0 keeps the volume published. -/
theorem commit_ok {u : Unit} (h : (commit s io batch).1 = .ok u) : (commit s io batch).2.volume.ready = true := by
  unfold commit at h ⊢
  cases hr : io.refused with
  | some e => rw [hr] at h; cases h
  | none =>
    rw [hr] at h
    unfold atomicCommit at h ⊢
    cases hstage : stage s.volume batch with
    | error e => rw [hstage] at h; cases h
    | ok next =>
      rw [hstage] at h
      cases ho : io.outcome with
      | uncertain kept => rw [ho] at h; cases h
      | done => exact (stage_ok hstage).1

theorem stateCommit_valid (hv : valid st = true) (s : State) (io : Io) :
    stateCommit s io st = commit s io [(bootCurrent, updateBytes st)] := by
  simp [stateCommit, sfUpdateEncode, hv]

/-! ## Packages -/

/-- The package is an acceptable application with this id and version, runtime revocations aside. -/
def AppVersion (sha256 : List UInt8 → Digest) (code : PackageCode) (store : SfTrustStore) (data id : List UInt8)
    (version : SfVersion) : Prop :=
  packagePolicy sha256 code store (sfTrustInit store) data false = .ok (id, version)

variable {trust : SfRuntimeTrust} {data id : List UInt8} {version : SfVersion}

theorem appVersion_of_policy {enforce : Bool} (h : packagePolicy sha256 code store trust data enforce = .ok (id, version)) :
    AppVersion sha256 code store data id version := by
  unfold AppVersion
  unfold packagePolicy at h ⊢
  obtain ⟨p, hp, h⟩ := bind_eq_ok.1 h
  refine bind_eq_ok.2 ⟨p, hp, ?_⟩
  rw [guard_eq_ok] at h ⊢
  exact ⟨by simp, h.2⟩

theorem confirmedVersion_ok (h : confirmedVersion sha256 code store s st = .ok version) :
    s.volume.ready = true ∧ ∃ old, s.volume.files.get? (slotPath st.good) = some old ∧ sha256 old = st.goodHash ∧
      AppVersion sha256 code store old st.appId version := by
  unfold confirmedVersion at h
  obtain ⟨old, hget, h⟩ := bind_eq_ok.1 h
  obtain ⟨hhash, h⟩ := guard_eq_ok.1 h
  obtain ⟨⟨id, v⟩, hpol, h⟩ := bind_eq_ok.1 h
  obtain ⟨hid, h⟩ := guard_eq_ok.1 h
  obtain ⟨hready, hfile, _⟩ := sfTxnGet_ok hget (by cases st.good with | none => decide | some x => cases x <;> decide)
  obtain rfl := pure_eq_ok.1 h
  obtain rfl : id = st.appId := Decidable.not_not.1 hid
  exact ⟨hready, old, hfile, Decidable.not_not.1 hhash, appVersion_of_policy hpol⟩

/-! ## What each operation plans -/

section Plans

variable {load : Except SfError (List UInt8)}

/-- What an install that goes on to its commit has checked. -/
structure InstallChecks (sha256 : List UInt8 → Digest) (code : PackageCode) (store : SfTrustStore) (files : FileTable)
    (st : SfUpdate) (data id : List UInt8) (version : SfVersion) (st' : SfUpdate) : Prop where
  app : AppVersion sha256 code store data id version
  floor : st.good ≠ none → st.appId = id ∧ ∃ old floor, files.get? (slotPath st.good) = some old ∧
    sha256 old = st.goodHash ∧ AppVersion sha256 code store old st.appId floor ∧ Newer floor version
  staged : sfUpdateStage st id (sha256 data) = .ok st'

section

variable (hrec : s.volume.ready = true → Record s.volume.files st)

include hrec

theorem installPlan_ok
    (h : installPlan sha256 code store s io load = .ok (some batch)) :
    s.volume.ready = true ∧ ∃ data id version st', load = .ok data ∧
      InstallChecks sha256 code store s.volume.files st data id version st' ∧
      batch = [(slotPath st'.candidate, data), (bootCurrent, updateBytes st')] := by
  unfold installPlan at h
  obtain ⟨hio, h⟩ := guard_eq_ok.1 h
  have hready : s.volume.ready = true := by simpa using fun hr => hio (Or.inr hr)
  obtain ⟨st₀, hread, h⟩ := bind_eq_ok.1 h
  rw [stateRead_record hready (hrec hready)] at hread
  cases hread
  obtain ⟨_, h⟩ := guard_eq_ok.1 h
  obtain ⟨floor, hfloor, h⟩ := bind_eq_ok.1 h
  obtain ⟨data, hload, h⟩ := bind_eq_ok.1 h
  obtain ⟨⟨id, version⟩, hpol, h⟩ := bind_eq_ok.1 h
  obtain ⟨upgrade, hup, h⟩ := bind_eq_ok.1 h
  split at h
  · cases h
  rename_i hzero
  obtain ⟨st', hstage, h⟩ := bind_eq_ok.1 h
  obtain ⟨encoded, henc, h⟩ := bind_eq_ok.1 h
  have hbytes : encoded = updateBytes st' := by
    unfold sfUpdateEncode at henc
    split at henc <;> cases henc
    rfl
  refine ⟨hready, data, id, version, st', hload, ⟨appVersion_of_policy hpol, fun hgood => ?_, hstage⟩, ?_⟩
  · unfold installFloor at hfloor
    rw [if_neg hgood] at hfloor
    cases hv : confirmedVersion sha256 code store s st with
    | error e => rw [hv] at hfloor; cases hfloor
    | ok fl =>
      rw [hv] at hfloor
      cases hfloor
      obtain ⟨hid, hup⟩ := guard_eq_ok.1 hup
      obtain ⟨_, old, hold, hhash, happ⟩ := confirmedVersion_ok hv
      obtain rfl : upgrade = 0 := Decidable.not_not.1 hzero
      exact ⟨Decidable.not_not.1 hid, old, fl, hold, hhash, happ, sfVersionUpgrade_ok hup⟩
  · have := pure_eq_ok.1 h
    cases this
    rw [hbytes]

theorem beginPlan_ok {st' : SfUpdate}
    (h : beginPlan sha256 code store s io = .ok (some st')) : s.volume.ready = true ∧ sfUpdateBegin st = .ok st' := by
  unfold beginPlan at h
  obtain ⟨_, h⟩ := guard_eq_ok.1 h
  obtain ⟨st₀, hread, h⟩ := bind_eq_ok.1 h
  obtain ⟨hready, rfl⟩ := stateRead_ok hrec hread
  split at h
  · split at h <;> cases h
  cases hb : sfUpdateBegin st₀ with
  | error e =>
    rw [hb] at h
    cases h
  | ok st₁ =>
    rw [hb] at h
    cases h
    exact ⟨hready, rfl⟩

theorem finishPlan_ok {success : Bool} {st' : SfUpdate}
    (h : finishPlan sha256 code store s io success = .ok st') :
    s.volume.ready = true ∧ sfUpdateFinish st success = .ok st' := by
  unfold finishPlan at h
  obtain ⟨_, h⟩ := guard_eq_ok.1 h
  obtain ⟨st₀, hread, h⟩ := bind_eq_ok.1 h
  obtain ⟨hready, rfl⟩ := stateRead_ok hrec hread
  exact ⟨hready, h⟩

end

/-- A read that takes a missing file for an empty one. -/
theorem getOrEmpty_ok {t : SfTxn} {path old : List UInt8} {capacity : Nat} (hr : t.ready = true) (hp : path ≠ [])
    (h : getOrEmpty t path capacity = .ok old) : old = (t.files.get? path).getD [] := by
  unfold getOrEmpty at h
  cases hf : t.files.get? path with
  | none =>
    rw [sfTxnGet_none hr hf hp] at h
    cases h
    rfl
  | some x =>
    split at h
    · rename_i hg
      simp only [sfTxnGet, hr, hf, Bool.true_eq_false, ↓reduceIte] at hg
      split at hg <;> cases hg
    · obtain ⟨_, hx, _⟩ := sfTxnGet_ok h hp
      rw [hf] at hx
      cases hx
      rfl

/-- What a revocation that goes on to its commit has checked. -/
theorem revokePlan_ok {trust' : SfRuntimeTrust} {list : List UInt8}
    (h : revokePlan sha256 code s io load = .ok (some (trust', list))) :
    s.volume.ready = true ∧ ∃ data p, load = .ok data ∧ sfTrustOpen sha256 code s.trust data = .ok p ∧
      sfTrustRevoke s.trust p.keyId = .ok trust' ∧ ((s.volume.files.get? bootRevoked).getD []).length % 32 = 0 ∧
      list = (s.volume.files.get? bootRevoked).getD [] ++ p.keyId := by
  unfold revokePlan at h
  obtain ⟨hio, h⟩ := guard_eq_ok.1 h
  have hready : s.volume.ready = true := by simpa using fun hr => hio (Or.inr hr)
  obtain ⟨data, hload, h⟩ := bind_eq_ok.1 h
  split at h
  · cases h
  · cases h
  rename_i p hopen
  split at h
  · cases h
  obtain ⟨old, hold, h⟩ := bind_eq_ok.1 h
  obtain ⟨hlen, h⟩ := guard_eq_ok.1 h
  have hget := getOrEmpty_ok hready (by decide) hold
  split at h
  · cases h
  rename_i trust₁ hrev
  cases h
  rw [← hget]
  exact ⟨hready, data, p, hload, hopen, hrev, Decidable.not_not.1 fun hl => hlen (Or.inl hl), rfl⟩

end Plans

/-! ## Mounting -/

theorem unready_synced (s : State) : Synced (unready s) := nofun

/-- Publishing the volume changes nothing else. -/
theorem publish_cases (s : State) (io : MountIo) : (publish s io).2 = s ∨ (publish s io).2 = unready s := by
  unfold publish
  split
  · exact Or.inr rfl
  split
  · exact Or.inr rfl
  · exact Or.inl rfl

theorem publish_synced (hs : Synced s) (io : MountIo) :
    Synced (publish s io).2 ∧ (publish s io).2.disk = s.disk ∧ (publish s io).2.trust = s.trust := by
  rcases publish_cases s io with h | h
  · rw [h]; exact ⟨hs, rfl, rfl⟩
  · rw [h]; exact ⟨unready_synced s, rfl, rfl⟩

/-- The record that is left of an interrupted trial. -/
def RolledBack (st st' : SfUpdate) : Prop := sfUpdateFinish st false = .ok st'

/-- Recovery rolls back exactly a trial, and publishes nothing before that. -/
theorem recover_cases (hs : Synced s) (hready : s.volume.ready = true) (hrec : Record s.volume.files st) (io : MountIo) :
    Synced (recover sha256 code store s io).2 ∧ (recover sha256 code store s io).2.trust = s.trust ∧
      (((recover sha256 code store s io).2.disk = s.disk ∧
          ((recover sha256 code store s io).2.volume.ready = true → st.phase ≠ .trying)) ∨
        ∃ st', RolledBack st st' ∧ Wrote s (recover sha256 code store s io).2 io.toIo [(bootCurrent, updateBytes st')]) := by
  unfold recover
  rw [stateRead_record hready hrec]
  simp only
  split
  · rename_i htry
    obtain ⟨st', hfin⟩ : ∃ st', sfUpdateFinish st false = .ok st' :=
      ⟨_, by unfold sfUpdateFinish; rw [if_neg (by simp [hrec.valid]), if_neg (by simp [htry])]⟩
    obtain ⟨_, _, hvalid, _⟩ := sfUpdateFinish_ok hfin
    rw [hfin]
    simp only [stateCommit_valid hvalid]
    obtain ⟨hsync, htrust, _, heff⟩ := commit_cases hs io.toIo [(bootCurrent, updateBytes st')]
    cases hr : (commit s io.toIo [(bootCurrent, updateBytes st')]).1 with
    | error e =>
      refine ⟨unready_synced _, htrust, ?_⟩
      rcases heff with ⟨hd, _⟩ | hw
      · exact Or.inl ⟨hd, nofun⟩
      · exact Or.inr ⟨st', hfin, hw.1, nofun, hw.2.2⟩
    | ok u =>
      obtain ⟨hps, hpd, hpt⟩ := publish_synced hsync io
      refine ⟨hps, hpt.trans htrust, Or.inr ⟨st', hfin, ?_⟩⟩
      rcases heff with ⟨_, hno⟩ | ⟨hrd, hdone, next, hupd, hdisk⟩
      · exact absurd hr (hno u)
      · exact ⟨hrd, fun _ => hdone (commit_ok hr), next, hupd, hpd.trans hdisk⟩
  · rename_i htry
    obtain ⟨hps, hpd, hpt⟩ := publish_synced hs io
    exact ⟨hps, hpt, Or.inl ⟨hpd, fun _ => htry⟩⟩

theorem revokeAll_policy (trust : SfRuntimeTrust) (ids : List KeyId) : (revokeAll trust ids).2.policy = trust.policy := by
  induction ids generalizing trust with
  | nil => rfl
  | cons id ids ih =>
    unfold revokeAll
    cases hr : sfTrustRevoke trust id with
    | error e => rfl
    | ok next => exact (ih next).trans (sfTrustRevoke_ok hr).1

theorem loadRevocations_policy (s : State) : (loadRevocations s).2.policy = s.trust.policy := by
  unfold loadRevocations
  split
  · rfl
  split
  · rfl
  · exact revokeAll_policy _ _

/-- What a mount can do. -/
theorem mount_cases (hrec : Record s.disk.files st) (io : MountIo) :
    Synced (sfPersistMount sha256 code store s io).2 ∧
      (sfPersistMount sha256 code store s io).2.trust.policy = s.trust.policy ∧
      (((sfPersistMount sha256 code store s io).2.disk = s.disk ∧
          ((sfPersistMount sha256 code store s io).2.volume.ready = true → st.phase ≠ .trying)) ∨
        ∃ st' next, RolledBack st st' ∧ Updated s.disk.files [(bootCurrent, updateBytes st')] next ∧
          ((sfPersistMount sha256 code store s io).2.volume.ready = true → io.outcome = .done) ∧
          (sfPersistMount sha256 code store s io).2.disk = ⟨s.disk.generation + 1, next⟩) := by
  have hpolicy := loadRevocations_policy (loadVolume s)
  unfold sfPersistMount
  split
  · exact ⟨unready_synced s, rfl, Or.inl ⟨rfl, nofun⟩⟩
  split
  · exact ⟨unready_synced s, rfl, Or.inl ⟨rfl, nofun⟩⟩
  simp only
  split
  · exact ⟨unready_synced _, rfl, Or.inl ⟨rfl, nofun⟩⟩
  split
  · exact ⟨unready_synced _, hpolicy, Or.inl ⟨rfl, nofun⟩⟩
  obtain ⟨hsync, htrust, hcase⟩ := @recover_cases sha256 code store
    { loadVolume s with trust := (loadRevocations (loadVolume s)).2 } st (fun _ => ⟨rfl, rfl⟩) rfl hrec io
  refine ⟨hsync, (congrArg SfRuntimeTrust.policy htrust).trans hpolicy, hcase.imp_right ?_⟩
  rintro ⟨st', hback, _, hdone, next, hupd, hdisk⟩
  exact ⟨st', next, hback, hupd, hdone, hdisk⟩

/-! ## Every operation -/

/-- What the files can become; `st` is the record before. -/
def Change (sha256 : List UInt8 → Digest) (code : PackageCode) (store : SfTrustStore) (files : FileTable) (st : SfUpdate) :
    PersistOp → FileTable → Prop
  | .mount _, next => ∃ st', RolledBack st st' ∧ Updated files [(bootCurrent, updateBytes st')] next
  | .install _ load, next => ∃ data id version st', load = .ok data ∧
      InstallChecks sha256 code store files st data id version st' ∧
      Updated files [(slotPath st'.candidate, data), (bootCurrent, updateBytes st')] next
  | .begin _, next => ∃ st', sfUpdateBegin st = .ok st' ∧ Updated files [(bootCurrent, updateBytes st')] next
  | .finish _ success, next => ∃ st', sfUpdateFinish st success = .ok st' ∧
    Updated files [(bootCurrent, updateBytes st')] next
  | .revoke _ _, next => ∃ keyId : KeyId, ((files.get? bootRevoked).getD []).length % 32 = 0 ∧
      Updated files [(bootRevoked, (files.get? bootRevoked).getD [] ++ keyId)] next
  | .notesWrite _ _ _, next => ∃ notes, Updated files [(notesUser, notes)] next
  | .notesTruncate _ _, next => ∃ notes, Updated files [(notesUser, notes)] next
  | .restart, _ => False

/-- The end of the commit that an operation makes. -/
def PersistOp.outcome : PersistOp → CommitOutcome
  | .mount io => io.outcome
  | .install io _ => io.outcome
  | .begin io => io.outcome
  | .finish io _ => io.outcome
  | .revoke io _ => io.outcome
  | .notesWrite io _ _ => io.outcome
  | .notesTruncate io _ => io.outcome
  | .restart => .done

/-- The medium is kept, or its files are replaced once as `Change` says. Only a mount publishes a volume, and only a
published volume is written. -/
structure Effect (sha256 : List UInt8 → Digest) (code : PackageCode) (store : SfTrustStore) (s : State) (st : SfUpdate)
    (op : PersistOp) (s' : State) : Prop where
  synced : Synced s'
  policy : s.trust.policy = store → s'.trust.policy = store
  published : s'.volume.ready = true → (∃ io, op = .mount io) ∨ s.volume.ready = true
  disk : s'.disk = s.disk ∨ ∃ next, Change sha256 code store s.disk.files st op next ∧
    s'.disk = ⟨s.disk.generation + 1, next⟩ ∧ ((∃ io, op = .mount io) ∨ s.volume.ready = true) ∧
    (s'.volume.ready = true → op.outcome = .done)

/-- A commit of a plan made on the published volume. -/
theorem commit_effect (hs : Synced s) {op : PersistOp} {t : State} (hd : t.disk = s.disk) (hv : t.volume = s.volume)
    (hp : t.trust.policy = s.trust.policy) (io : Io) (ho : op.outcome = io.outcome)
    (hchange : ∀ next, Updated s.disk.files batch next → Change sha256 code store s.disk.files st op next) :
    Effect sha256 code store s st op (commit t io batch).2 := by
  have ht : Synced t := by unfold Synced; rw [hd, hv]; exact hs
  obtain ⟨hsync, htrust, hready, heff⟩ := commit_cases ht io batch
  rw [hv] at hready
  refine ⟨hsync, fun hpol => by rw [htrust, hp, hpol], fun h => Or.inr (hready h), ?_⟩
  rcases heff with ⟨hsame, _⟩ | ⟨hpublished, hdone, next, hupd, hdisk⟩
  · exact Or.inl (hsame.trans hd)
  · rw [hd] at hupd hdisk
    rw [hv] at hpublished
    exact Or.inr ⟨next, hchange next hupd, hdisk, Or.inr hpublished, fun h => ho.trans (hdone h)⟩

/-- **All an operation can do.** -/
theorem step_effect (hs : Synced s) (hrec : Record s.disk.files st) (op : PersistOp) :
    Effect sha256 code store s st op (step sha256 code store s op).2 := by
  have hvol : s.volume.ready = true → Record s.volume.files st := fun hr => by rw [(hs hr).2]; exact hrec
  have hkeep : Effect sha256 code store s st op s := ⟨hs, id, Or.inr, Or.inl rfl⟩
  cases op with
  | mount io =>
    obtain ⟨hsync, hpol, heff⟩ := mount_cases hrec io
    refine ⟨hsync, hpol.trans, fun _ => Or.inl ⟨io, rfl⟩, ?_⟩
    rcases heff with ⟨hd, _⟩ | ⟨st', next, hback, hupd, hdone, hdisk⟩
    · exact Or.inl hd
    · exact Or.inr ⟨next, ⟨st', hback, hupd⟩, hdisk, Or.inl ⟨io, rfl⟩, hdone⟩
  | install io load =>
    simp only [step, sfPersistInstall]
    split
    · exact hkeep
    · exact hkeep
    rename_i batch hplan
    obtain ⟨hready, data, id, version, st', hload, hchk, rfl⟩ := installPlan_ok hvol hplan
    rw [(hs hready).2] at hchk
    exact commit_effect hs rfl rfl rfl io rfl fun next hupd => ⟨data, id, version, st', hload, hchk, hupd⟩
  | begin io =>
    simp only [step, sfPersistBegin]
    split
    · exact hkeep
    · exact hkeep
    rename_i st' hplan
    obtain ⟨_, hbegin⟩ := beginPlan_ok hvol hplan
    rw [stateCommit_valid (sfUpdateBegin_ok hbegin).2.2.1]
    exact commit_effect hs rfl rfl rfl io rfl fun next hupd => ⟨st', hbegin, hupd⟩
  | finish io success =>
    simp only [step, sfPersistFinish]
    split
    · exact hkeep
    rename_i st' hplan
    obtain ⟨_, hfin⟩ := finishPlan_ok hvol hplan
    rw [stateCommit_valid (sfUpdateFinish_ok hfin).2.2.1]
    exact commit_effect hs rfl rfl rfl io rfl fun next hupd => ⟨st', hfin, hupd⟩
  | revoke io load =>
    simp only [step, sfPersistRevoke]
    split
    · exact hkeep
    · exact hkeep
    rename_i trust' list hplan
    obtain ⟨hready, data, p, _, _, hrev, hlen, rfl⟩ := revokePlan_ok hplan
    rw [(hs hready).2] at hlen ⊢
    refine commit_effect hs (t := { s with trust := trust' }) rfl rfl (sfTrustRevoke_ok hrev).1 io rfl fun next hupd => ?_
    exact ⟨p.keyId, hlen, hupd⟩
  | notesWrite io offset bytes =>
    simp only [step, notesWrite]
    split
    · exact hkeep
    split
    · exact hkeep
    split
    · exact hkeep
    · exact commit_effect hs rfl rfl rfl io rfl fun next hupd => ⟨_, hupd⟩
  | notesTruncate io bytes =>
    simp only [step, notesTruncate]
    split
    · exact hkeep
    split
    · exact hkeep
    split
    · exact hkeep
    split
    · exact hkeep
    · exact commit_effect hs rfl rfl rfl io rfl fun next hupd => ⟨_, hupd⟩
  | restart => exact ⟨unready_synced _, fun _ => rfl, nofun, Or.inl rfl⟩

end Effects

end SpiritFox.Persist
