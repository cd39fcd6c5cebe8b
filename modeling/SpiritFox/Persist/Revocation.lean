import SpiritFox.Persist.Power

/-!
# Key revocations

A revocation lives in the overlay of the running service and in `/boot/revoked`. The file only grows (`step_listed`), and a
mount loads all of it into the overlay (`mount_revokes`). A revoke changes the overlay first and commits the file after, so a
commit that fails leaves a key in the overlay that the file lacks, and the next revoke of that key answers "already revoked"
from the overlay alone. The same answer comes of a file that was mounted out of the cache of the device
(`revocation_lost`).

`revocation_durable` is what holds of a revoke whose key, if it is in the overlay, is in the file as the device reads it and
as the medium has it.
-/

namespace SpiritFox.Persist

open Checks Txn Trust Update

/-- The key is in `/boot/revoked`. -/
def Listed (files : FileTable) (keyId : KeyId) : Prop := keyId ∈ keyIds ((files.get? bootRevoked).getD [])

section Revocation

variable {sha256 : List UInt8 → Digest} {code : PackageCode} {store : SfTrustStore} {s : State} {st : SfUpdate}
  {keyId : KeyId} {io : Io} {x x' : Powered} {G : Powered → PowerOp → Prop}

/-! ## The list -/

theorem mem_keyIds {bytes : List UInt8} :
    keyId ∈ keyIds bytes ↔ ∃ i, i < bytes.length / 32 ∧ (bytes.drop (i * 32)).take 32 = keyId := by
  simp [keyIds]

/-- Appending to the list keeps its entries. -/
theorem keyIds_append {old more : List UInt8} (h : keyId ∈ keyIds old) : keyId ∈ keyIds (old ++ more) := by
  obtain ⟨i, hi, rfl⟩ := mem_keyIds.1 h
  have hle : i * 32 + 32 ≤ old.length := by omega
  refine mem_keyIds.2 ⟨i, ?_, ?_⟩
  · rw [List.length_append]
    omega
  · rw [List.drop_append_of_le_length (by omega), List.take_append_of_le_length (by rw [List.length_drop]; omega)]

/-- The appended key is an entry. -/
theorem keyIds_last {old : List UInt8} (hold : old.length % 32 = 0) (hk : keyId.length = 32) :
    keyId ∈ keyIds (old ++ keyId) := by
  have hlen : old.length / 32 * 32 = old.length := by omega
  refine mem_keyIds.2 ⟨old.length / 32, ?_, ?_⟩
  · rw [List.length_append, hk]
    omega
  · rw [hlen, List.drop_left, ← hk, List.take_length]

/-- No operation removes a key from the list. -/
theorem step_listed (hs : Synced s) (h : Record s.disk.files st) (op : PersistOp)
    (hk : Listed s.disk.files keyId) : Listed (step sha256 code store s op).2.disk.files keyId := by
  obtain ⟨_, _, _, hdisk | ⟨next, hc, hdisk, _⟩⟩ := step_effect hs h op
  · rwa [hdisk]
  have hother : ∀ {path data : List UInt8}, Updated s.disk.files [(path, data)] next → bootRevoked ≠ path →
      Listed next keyId := fun hu hp => by
    unfold Listed
    rw [Updated.other hu hp]
    exact hk
  rw [hdisk]
  cases op with
  | mount io =>
    obtain ⟨st', _, hu⟩ := hc
    exact hother hu (by decide)
  | install io load =>
    obtain ⟨data, id, version, st', _, _, hu⟩ := hc
    unfold Listed
    rw [Updated.tail hu (slotPath_ne _).2.1.symm]
    exact hk
  | begin io =>
    obtain ⟨st', _, hu⟩ := hc
    exact hother hu (by decide)
  | finish io success =>
    obtain ⟨st', _, hu⟩ := hc
    exact hother hu (by decide)
  | revoke io load =>
    obtain ⟨more, _, hu⟩ := hc
    unfold Listed
    rw [Updated.self hu]
    exact keyIds_append hk
  | notesWrite io offset bytes =>
    obtain ⟨notes, hu⟩ := hc
    exact hother hu (by decide)
  | notesTruncate io bytes =>
    obtain ⟨notes, hu⟩ := hc
    exact hother hu (by decide)
  | restart => exact hc.elim

theorem listed_keeps : Keeps sha256 code store (Listed · keyId) := fun _ _ op hs hsound h =>
  step_listed hs hsound.record op h

/-! ## The overlay -/

/-- The loop of a mount keeps what is in the overlay, and adds all the keys of the list when it succeeds. -/
theorem revokeAll_spec (trust : SfRuntimeTrust) (ids : List KeyId) :
    (∀ k ∈ trust.revokedIds, k ∈ (revokeAll trust ids).2.revokedIds) ∧
      ∀ u, (revokeAll trust ids).1 = .ok u → ∀ k ∈ ids, k ∈ (revokeAll trust ids).2.revokedIds := by
  induction ids generalizing trust with
  | nil => exact ⟨fun k hk => hk, fun u hu k hk => absurd hk List.not_mem_nil⟩
  | cons id ids ih =>
    unfold revokeAll
    cases hr : sfTrustRevoke trust id with
    | error e => exact ⟨fun k hk => hk, fun u hu => by cases hu⟩
    | ok next =>
      obtain ⟨_, hids⟩ := sfTrustRevoke_ok hr
      obtain ⟨hkeep, hall⟩ := ih next
      refine ⟨fun k hk => hkeep k ((hids k).2 (Or.inl hk)), fun u hu k hk => ?_⟩
      rcases List.mem_cons.1 hk with rfl | h
      · exact hkeep k ((hids k).2 (Or.inr rfl))
      · exact hall u hu k h

/-- Loading the list that the device reads. -/
theorem loadRevocations_spec {u : Unit} (hok : (loadRevocations (loadVolume s)).1 = .ok u)
    (hk : Listed s.disk.files keyId) : keyId ∈ (loadRevocations (loadVolume s)).2.revokedIds := by
  unfold loadRevocations at hok ⊢
  split at hok
  · cases hok
  rename_i bytes hget
  obtain rfl : bytes = (s.disk.files.get? bootRevoked).getD [] :=
    getOrEmpty_ok (t := (loadVolume s).volume) rfl (by decide) hget
  split at hok
  · cases hok
  rename_i hlen
  rw [if_neg hlen]
  exact (revokeAll_spec s.trust _).2 u hok keyId hk

/-- A mount keeps the overlay or loads the list; one that succeeds has loaded all of it. -/
theorem mount_trust (hrec : Record s.disk.files st) (io : MountIo) :
    ((sfPersistMount sha256 code store s io).2.trust = s.trust ∧ ∀ n, (sfPersistMount sha256 code store s io).1 ≠ .ok n) ∨
      ((sfPersistMount sha256 code store s io).2.trust = (loadRevocations (loadVolume s)).2 ∧
        ∀ n, (sfPersistMount sha256 code store s io).1 = .ok n → ∃ u, (loadRevocations (loadVolume s)).1 = .ok u) := by
  unfold sfPersistMount
  split
  · exact Or.inl ⟨rfl, nofun⟩
  split
  · exact Or.inl ⟨rfl, nofun⟩
  simp only
  split
  · exact Or.inl ⟨rfl, nofun⟩
  split
  · exact Or.inr ⟨rfl, nofun⟩
  rename_i u hload
  obtain ⟨_, htrust, _⟩ := @recover_cases sha256 code store
    { loadVolume s with trust := (loadRevocations (loadVolume s)).2 } st (fun _ => ⟨rfl, rfl⟩) rfl hrec io
  exact Or.inr ⟨htrust, fun _ _ => ⟨u, hload⟩⟩

/-- After a successful mount every listed key is revoked. -/
theorem mount_revokes (hrec : Record s.disk.files st) {io : MountIo} {n : Nat}
    (hok : (sfPersistMount sha256 code store s io).1 = .ok n) (hk : Listed s.disk.files keyId) :
    keyId ∈ (sfPersistMount sha256 code store s io).2.trust.revokedIds := by
  rcases mount_trust hrec io with ⟨_, hno⟩ | ⟨htrust, hload⟩
  · exact absurd hok (hno n)
  obtain ⟨u, hu⟩ := hload n hok
  rw [htrust]
  exact loadRevocations_spec hu hk

/-- A revoke whose commit succeeds has written the key, and the device has acknowledged it. -/
theorem revoke_commit (hs : Synced s) (hpol : s.trust.policy = store) {load : Except SfError (List UInt8)}
    {trust : SfRuntimeTrust} {list : List UInt8} (hplan : revokePlan sha256 code s io load = .ok (some (trust, list)))
    {u : Unit} (hok : (commit { s with trust := trust } io [(bootRevoked, list)]).1 = .ok u) :
    ∃ data p next, load = .ok data ∧ code.parse data = .ok p ∧ sfTrustValidate store = .ok () ∧ Listed next p.keyId ∧
      io.outcome = .done ∧ (commit { s with trust := trust } io [(bootRevoked, list)]).2.volume.ready = true ∧
      (commit { s with trust := trust } io [(bootRevoked, list)]).2.disk = ⟨s.disk.generation + 1, next⟩ := by
  obtain ⟨hready, data, p, hload, hopen, hrev, hlen, rfl⟩ := revokePlan_ok hplan
  obtain ⟨q, hq, hopen⟩ := bind_eq_ok.1 hopen
  obtain ⟨_, hpq⟩ := guard_eq_ok.1 hopen
  obtain rfl := pure_eq_ok.1 hpq
  rw [hpol] at hq
  obtain ⟨hv, hparse, hsigned⟩ := sfPackageOpenTrusted_ok hq
  rw [(hs hready).2] at hlen hok ⊢
  have hs' : Synced { s with trust := trust } := hs
  obtain ⟨_, _, _, ⟨_, hno⟩ | ⟨_, hdone, next, hupd, hdisk⟩⟩ :=
    commit_cases hs' io [(bootRevoked, (s.disk.files.get? bootRevoked).getD [] ++ q.keyId)]
  · exact absurd hok (hno u)
  refine ⟨data, q, next, hload, hparse, hv, ?_, hdone (commit_ok hok), commit_ok hok, hdisk⟩
  unfold Listed
  rw [Updated.self hupd]
  exact keyIds_last hlen hsigned.length

/-- "Already revoked" is answered from the policy or from the overlay. -/
theorem revoke_already (hpol : s.trust.policy = store) {data : List UInt8} {p : SfPackage}
    (hparse : code.parse data = .ok p) (hplan : revokePlan sha256 code s io (.ok data) = .ok none) :
    s.volume.ready = true ∧ sfTrustValidate store = .ok () ∧
      (PolicyRevoked sha256 store p.keyId ∨ p.keyId ∈ s.trust.revokedIds) := by
  have hoverlay : ∀ q, sfPackageOpenTrusted sha256 code store data = .ok q → sfTrustRevoked s.trust q.keyId = true →
      sfTrustValidate store = .ok () ∧ (PolicyRevoked sha256 store p.keyId ∨ p.keyId ∈ s.trust.revokedIds) := by
    intro q hq hrev
    obtain ⟨hv, hq', _⟩ := sfPackageOpenTrusted_ok hq
    rw [hparse] at hq'
    cases hq'
    exact ⟨hv, Or.inr (by simpa [sfTrustRevoked] using hrev)⟩
  unfold revokePlan at hplan
  obtain ⟨hio, hplan⟩ := guard_eq_ok.1 hplan
  refine ⟨by simpa using fun hr => hio (Or.inr hr), ?_⟩
  simp only [bind, Except.bind] at hplan
  unfold sfTrustOpen at hplan
  rw [hpol] at hplan
  cases hopen : sfPackageOpenTrusted sha256 code store data with
  | error e =>
    rw [hopen] at hplan
    cases e <;> cases hplan
    obtain ⟨hv, hrev⟩ := policyRevoked_of_open hparse hopen
    exact ⟨hv, Or.inl hrev⟩
  | ok q =>
    cases hr : sfTrustRevoked s.trust q.keyId with
    | true => exact hoverlay q hopen hr
    | false =>
      rw [hopen] at hplan
      simp only [bind, Except.bind, hr, Bool.false_eq_true, ↓reduceIte, pure, Except.pure] at hplan
      split at hplan
      · cases hplan
      split at hplan
      · cases hplan
      split at hplan <;> cases hplan

/-! ## Reported revocations -/

/-- A revoke that reports success has found the key revoked, or written it. -/
theorem revoke_ok (hs : Synced s) (hpol : s.trust.policy = store) {data : List UInt8} {p : SfPackage} {n : Nat}
    (hparse : code.parse data = .ok p) (hok : (sfPersistRevoke sha256 code s io (.ok data)).1 = .ok n) :
    sfTrustValidate store = .ok () ∧
      (((sfPersistRevoke sha256 code s io (.ok data)).2 = s ∧ s.volume.ready = true ∧
          (PolicyRevoked sha256 store p.keyId ∨ p.keyId ∈ s.trust.revokedIds)) ∨
        ∃ next, Listed next p.keyId ∧ io.outcome = .done ∧
          (sfPersistRevoke sha256 code s io (.ok data)).2.volume.ready = true ∧
          (sfPersistRevoke sha256 code s io (.ok data)).2.disk = ⟨s.disk.generation + 1, next⟩) := by
  unfold sfPersistRevoke at hok ⊢
  cases hplan : revokePlan sha256 code s io (.ok data) with
  | error e => rw [hplan] at hok; cases hok
  | ok plan =>
    rw [hplan] at hok
    cases plan with
    | none =>
      obtain ⟨hready, hv, hrev⟩ := revoke_already hpol hparse hplan
      exact ⟨hv, Or.inl ⟨rfl, hready, hrev⟩⟩
    | some plan =>
      obtain ⟨trust, list⟩ := plan
      simp only at hok ⊢
      cases hr : (commit { s with trust := trust } io [(bootRevoked, list)]).1 with
      | error e => rw [hr] at hok; cases hok
      | ok u =>
        obtain ⟨data', p', next, hload, hparse', hv, hl, hdone, hready, hdisk⟩ := revoke_commit hs hpol hplan hr
        cases hload
        rw [hparse] at hparse'
        cases hparse'
        exact ⟨hv, Or.inr ⟨next, hl, hdone, hready, hdisk⟩⟩

/-- The key is listed in what the device reads and on the medium. -/
def Powered.Backs (x : Powered) (keyId : KeyId) : Prop :=
  Listed x.state.disk.files keyId ∧ Listed x.durable.files keyId

/-- Its key is in the policy, or on the medium under the published volume, if it was not in the overlay alone. -/
theorem revoke_listed (h : x.Valid sha256 code store) {data : List UInt8} {p : SfPackage} {n : Nat} {medium : Medium}
    (hparse : code.parse data = .ok p)
    (hb : p.keyId ∈ x.state.trust.revokedIds → PolicyRevoked sha256 store p.keyId ∨ x.Backs p.keyId)
    (hx : powerStep sha256 code store x (.op (.revoke io (.ok data)) medium) = (.ok n, x')) :
    sfTrustValidate store = .ok () ∧
      (PolicyRevoked sha256 store p.keyId ∨ x'.state.volume.ready = true ∧ x'.Backs p.keyId) := by
  obtain ⟨hv, hcase⟩ := revoke_ok h.synced h.policy hparse (congrArg Prod.fst hx)
  obtain rfl := congrArg Prod.snd hx
  refine ⟨hv, ?_⟩
  rcases hcase with ⟨hsame, hready, hrev⟩ | ⟨next, hl, hdone, hready, hdisk⟩
  · refine (hrev.elim Or.inl hb).imp_right fun hl => ⟨?_, powerStep_keeps listed_keeps h _ hl⟩
    simp only [powerStep, step, hsame, hready]
  · refine Or.inr ⟨hready, ?_⟩
    unfold Powered.Backs powerStep step
    simp only [hdisk]
    rw [if_pos ⟨by simp, hdone⟩]
    exact ⟨hl, hl⟩

/-- **A revocation that is reported is durable**, if the key was not in the overlay alone: the signer's key is revoked in the
policy or listed in the published volume and on the medium, and after any later successful mount, with restarts, power losses
and failed commits before it, no package signed by the key opens. -/
theorem revocation_durable (h : PowerRun sha256 code store (fun _ _ => True) (powerStart store) x) {io : Io}
    {data : List UInt8} {p : SfPackage} {n : Nat} {medium : Medium} (hparse : code.parse data = .ok p)
    (hb : p.keyId ∈ x.state.trust.revokedIds → PolicyRevoked sha256 store p.keyId ∨ x.Backs p.keyId)
    (hx : powerStep sha256 code store x (.op (.revoke io (.ok data)) medium) = (.ok n, x')) :
    (PolicyRevoked sha256 store p.keyId ∨ x'.state.volume.ready = true ∧ Listed x'.state.volume.files p.keyId ∧
      Listed x'.durable.files p.keyId) ∧
      ∀ later mio medium m after, PowerRun sha256 code store (fun _ _ => True) x' later →
        powerStep sha256 code store later (.op (.mount mio) medium) = (.ok m, after) →
        ∀ other, SignedBy sha256 code store p.keyId other →
          sfTrustOpen sha256 code after.state.trust other = .error .revoked := by
  have hrun := h.step (.op (.revoke io (.ok data)) medium) trivial
  obtain ⟨hv, hrev⟩ := revoke_listed (run_valid h) hparse hb hx
  rw [hx] at hrun
  refine ⟨hrev.imp_right fun hl => ⟨hl.1, ?_, hl.2.2⟩, fun later mio f m after hlater hmount other hsigned => ?_⟩
  · rw [((run_valid hrun).synced hl.1).2]
    exact hl.2.1
  have hrun' := hrun.append hlater
  obtain ⟨st, hst⟩ := (run_valid hrun').cached
  have hpol := (run_valid (hrun'.step (.op (.mount mio) f) trivial)).policy
  have hok := congrArg Prod.fst hmount
  have hafter : after.state = (sfPersistMount sha256 code store later.state mio).2 :=
    (congrArg (fun r => r.2.state) hmount).symm
  rw [hmount] at hpol
  apply sfTrustOpen_revoked
  · rw [hpol]; exact hv
  · rw [hpol]; exact hsigned
  · rw [hpol, hafter]
    exact hrev.imp_right fun hl => mount_revokes hst.record hok (run_keeps listed_keeps hrun hlater hl.2).1

end Revocation

/-! ## A revocation that is lost -/

theorem selectKey_sample : selectKey sampleHash sampleStore (List.replicate 32 1) = some ⟨[1], 2, 0⟩ := by rfl

/-- The key is revoked, the power is lost and the volume is mounted again. -/
theorem revocation_durable_sample :
    sfTrustOpen sampleHash sampleCode (sampleMounted (samplePower [.powerLoss] (samplePower
      [.op (.revoke sampleIo (.ok [49])) .kept] (sampleMounted (powerStart sampleStore))))).state.trust [50] =
      .error .revoked := by
  have hempty : (sampleMounted (powerStart sampleStore)).state.trust.revokedIds = [] := by decide +kernel
  have hrevoked : powerStep sampleHash sampleCode sampleStore (sampleMounted (powerStart sampleStore))
      (.op (.revoke sampleIo (.ok [49])) .kept) = (.ok 0, samplePower [.op (.revoke sampleIo (.ok [49])) .kept]
        (sampleMounted (powerStart sampleStore))) := Prod.ext rfl rfl
  have hdurable := revocation_durable (run_samplePower [.op (.mount sampleMount) .kept] .refl) rfl
    (fun hk => by cases (hempty ▸ hk : _ ∈ [])) hrevoked
  exact hdurable.2 _ sampleMount .kept 0 _ (PowerRun.refl.step .powerLoss trivial) rfl [50]
    ⟨⟨[50], 2, List.replicate 32 1⟩, ⟨[1], 2, 0⟩, rfl, rfl, selectKey_sample, by decide, rfl, rfl⟩

/-- A revoke whose commit ends like this, on an empty volume. -/
def sampleFailed (io : Io) : Powered :=
  samplePower [.op (.revoke io (.ok [49])) .kept] (sampleMounted (powerStart sampleStore))

/-- The key is revoked in the overlay: after a commit that was refused, and after one that is in the cache alone when the
device is mounted again. -/
def sampleUnbacked : List Powered :=
  [sampleFailed ⟨true, some .readOnly, .done⟩, sampleMounted (sampleFailed ⟨true, none, .uncertain true⟩)]

/-- A revoke answers "already revoked" then, while the medium has no file; the key is good again after a power loss. -/
theorem revocation_lost : ¬ PolicyRevoked sampleHash sampleStore (List.replicate 32 1) ∧ ∀ x ∈ sampleUnbacked,
    PowerRun sampleHash sampleCode sampleStore (fun _ _ => True) (powerStart sampleStore) x ∧
    (powerStep sampleHash sampleCode sampleStore x (.op (.revoke sampleIo (.ok [49])) .kept)).1 = .ok 1 ∧
    (samplePower [.op (.revoke sampleIo (.ok [49])) .kept] x).durable.files.get? bootRevoked = none ∧
    (sfTrustOpen sampleHash sampleCode (sampleMounted (samplePower
      [.op (.revoke sampleIo (.ok [49])) .kept, .powerLoss] x)).state.trust [49]).isOk = true := by
  refine ⟨?_, fun x hx => ⟨?_, ?_⟩⟩
  · rintro ⟨key, hk, hrev⟩
    rw [selectKey_sample] at hk
    cases hk
    exact hrev rfl
  · have hrun := fun io => run_samplePower [.op (.revoke io (.ok [49])) .kept]
      (run_samplePower [.op (.mount sampleMount) .kept] .refl)
    rcases List.mem_pair.1 hx with rfl | rfl
    · exact hrun _
    · exact run_samplePower _ (hrun _)
  · revert x
    decide +kernel

end SpiritFox.Persist
