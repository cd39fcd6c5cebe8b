import SpiritFox.Persist.Power

/-!
# The version floor

The floor is not stored: it is the version of the confirmed package, read again at every install. `Rises` relates the
confirmed packages of two snapshots. One operation gives it (`step_rises`), because the package a candidate was compared
with is still the confirmed one when the candidate is confirmed, and runs compose it (`run_rises`).

The main result is `version_floor`. It needs that no volume is mounted out of the cache of the device: the confirmation of
such a volume goes with the power (`floor_lost`).
-/

namespace SpiritFox.Persist

open Checks Txn Trust Update Version

section Floor

variable (sha256 : List UInt8 → Digest) (code : PackageCode) (store : SfTrustStore)

/-- `st` confirms the package `data` of this version. -/
def Confirmed (files : FileTable) (st : SfUpdate) (data : List UInt8) (version : SfVersion) : Prop :=
  Record files st ∧ st.good ≠ none ∧ Holds sha256 code store files st.good st.goodHash st.appId data version

/-- The later snapshot confirms the same package, or a later version of it. -/
def Rises (files files' : FileTable) : Prop :=
  ∀ st data version, Confirmed sha256 code store files st data version →
    ∃ st' data' version', Confirmed sha256 code store files' st' data' version' ∧ st'.appId = st.appId ∧
      (st'.goodHash = st.goodHash ∧ version' = version ∨ Newer version version')

variable {sha256 code store} {files files' files'' : FileTable} {st : SfUpdate} {s : State} {x x' : Powered}
  {G : Powered → PowerOp → Prop}

theorem Rises.refl : Rises sha256 code store files files := fun st data version h =>
  ⟨st, data, version, h, rfl, Or.inl ⟨rfl, rfl⟩⟩

theorem Rises.trans (h : Rises sha256 code store files files') (h' : Rises sha256 code store files' files'') :
    Rises sha256 code store files files'' := by
  intro st data version hc
  obtain ⟨st₁, data₁, v₁, hc₁, hid₁, hv₁⟩ := h st data version hc
  obtain ⟨st₂, data₂, v₂, hc₂, hid₂, hv₂⟩ := h' st₁ data₁ v₁ hc₁
  refine ⟨st₂, data₂, v₂, hc₂, hid₂.trans hid₁, ?_⟩
  rcases hv₁ with ⟨hh₁, rfl⟩ | hn₁
  · exact hv₂.imp_left fun ⟨hh₂, he⟩ => ⟨hh₂.trans hh₁, he⟩
  rcases hv₂ with ⟨_, rfl⟩ | hn₂
  · exact Or.inr hn₁
  · exact Or.inr (hn₁.trans hn₂)

/-- A slot holds one package, of one version. -/
theorem Holds.unique {slot : Option Slot} {hash : Digest} {id data data' : List UInt8} {v v' : SfVersion}
    (h : Holds sha256 code store files slot hash id data v) (h' : Holds sha256 code store files slot hash id data' v') :
    v = v' := by
  obtain rfl : data = data' := Option.some.inj (h.1.symm.trans h'.1)
  have := h.2.2.symm.trans h'.2.2
  simp only [Except.ok.injEq, Prod.mk.injEq, true_and] at this
  exact this

/-! ## Runs -/

/-- One operation keeps the confirmed package or raises its version. -/
theorem step_rises (hs : Synced s) (h : Sound sha256 code store s.disk.files st) (op : PersistOp) :
    Rises sha256 code store s.disk.files (step sha256 code store s op).2.disk.files := by
  rintro st₀ data version ⟨hrec, hg, hold⟩
  obtain rfl := hrec.unique h.record
  obtain ⟨_, st', hsound', hconf⟩ := step_sound hs h op
  rcases hconf with ⟨hgood, hhash, hk⟩ | ⟨_, htry, hgood, hhash, hid, hk⟩
  · obtain ⟨hid, hbytes⟩ := hk hg
    refine ⟨st', data, version, ⟨hsound'.record, hgood ▸ hg, ?_⟩, hid, Or.inl ⟨hhash, rfl⟩⟩
    rw [hgood, hhash, hid]
    exact hold.keep hbytes
  · have hc : st₀.candidate ≠ none := fun hn => by
      have := h.consistent.stable_iff.2 hn
      rw [htry] at this
      cases this
    obtain ⟨data', v', hnew, hfloor⟩ := h.candidate hc
    obtain ⟨old, fl, hfl, hnewer⟩ := hfloor hg
    refine ⟨st', data', v', ⟨hsound'.record, hgood ▸ hc, ?_⟩, hid, Or.inr (hold.unique hfl ▸ hnewer)⟩
    rw [hgood, hhash, hid]
    exact hnew.keep hk

theorem rises_keeps : Keeps sha256 code store (Rises sha256 code store files) := fun _ _ op hs hsound h =>
  h.trans (step_rises hs hsound op)

/-- The confirmed package of a snapshot that the device reads and the medium has is the floor of all that follows. -/
theorem run_rises (h : PowerRun sha256 code store G (powerStart store) x) (hx : x.Settled)
    (h' : PowerRun sha256 code store G x x') : Rises sha256 code store x.durable.files x'.state.disk.files ∧
      Rises sha256 code store x.durable.files x'.durable.files := by
  refine run_keeps rises_keeps h h' ⟨?_, Rises.refl⟩
  rw [hx]
  exact Rises.refl

/-! ## Rejected installs -/

/-- A commit whose end is known has written everything or nothing. -/
theorem commit_error {io : Io} {batch : List (List UInt8 × List UInt8)} (hok : ∀ u, (commit s io batch).1 ≠ .ok u)
    (hun : (commit s io batch).1 ≠ .error .commitUncertain) : (commit s io batch).2 = s := by
  unfold commit at *
  cases hr : io.refused with
  | some e => rfl
  | none =>
    rw [hr] at hok hun
    unfold atomicCommit at *
    cases hstage : stage s.volume batch with
    | error e => rfl
    | ok next =>
      rw [hstage] at hok hun
      cases ho : io.outcome with
      | done => rw [ho] at hok; exact absurd rfl (hok ())
      | uncertain kept => rw [ho] at hun; exact absurd rfl hun

/-- An install that neither stages a candidate nor loses track of its commit changes nothing. -/
theorem install_rejected {io : Io} {load : Except SfError (List UInt8)}
    (hok : (sfPersistInstall sha256 code store s io load).1 ≠ .ok 0)
    (hun : (sfPersistInstall sha256 code store s io load).1 ≠ .error .commitUncertain) :
    (sfPersistInstall sha256 code store s io load).2 = s := by
  unfold sfPersistInstall at *
  cases hplan : installPlan sha256 code store s io load with
  | error e => rfl
  | ok plan =>
    rw [hplan] at hok hun
    cases plan with
    | none => rfl
    | some batch =>
      apply commit_error
      · intro u hu
        exact hok (by simp only [hu]; rfl)
      · intro he
        exact hun (by simp only [he]; rfl)

/-! ## The floor -/

/-- **A confirmed package is only ever replaced by a later version of the same application**, in what the device reads and on
the medium, if no volume is mounted while the two differ: they are the same whenever a volume is published. An install that
is rejected, or that brings the exact confirmed package again, leaves the medium and the volume as they were. -/
theorem version_floor (h : PowerRun sha256 code store MountsSettled (powerStart store) x) :
    (x.Settled → ∀ x' st, PowerRun sha256 code store MountsSettled x x' → Record x.durable.files st → st.good ≠ none →
      ∃ data version, Confirmed sha256 code store x.durable.files st data version ∧
        ∀ files ∈ [x'.state.disk.files, x'.durable.files], ∃ st' data' version',
          Confirmed sha256 code store files st' data' version' ∧ st'.appId = st.appId ∧
          0 ≤ sfVersionCompare version' version ∧
          (sfVersionCompare version' version = 0 → st'.goodHash = st.goodHash)) ∧
      (x.state.volume.ready = true → x.Settled ∧ x.state.volume.files = x.durable.files) ∧
      ∀ io load, (step sha256 code store x.state (.install io load)).1 ≠ .ok 0 →
        (step sha256 code store x.state (.install io load)).1 ≠ .error .commitUncertain →
        (step sha256 code store x.state (.install io load)).2.disk = x.state.disk ∧
          (step sha256 code store x.state (.install io load)).2.volume = x.state.volume := by
  have hvalid := run_valid h
  refine ⟨fun hx x' st hrun hrec hg => ?_, fun hready => ?_, fun io load hok hun => ?_⟩
  · obtain ⟨st₀, hsound⟩ := hvalid.durable
    obtain rfl := hrec.unique hsound.record
    obtain ⟨data, version, hold⟩ := hsound.good hg
    have hconf : Confirmed sha256 code store x.durable.files st data version := ⟨hrec, hg, hold⟩
    obtain ⟨hcached, hdurable⟩ := run_rises h hx hrun
    refine ⟨data, version, hconf, fun files hfiles => ?_⟩
    have hrises : Rises sha256 code store x.durable.files files := by
      rcases List.mem_pair.1 hfiles with rfl | rfl
      · exact hcached
      · exact hdurable
    obtain ⟨st', data', version', hconf', hid, hv⟩ := hrises st data version hconf
    refine ⟨st', data', version', hconf', hid, ?_⟩
    rcases hv with ⟨hhash, rfl⟩ | hnew
    · exact ⟨Int.le_of_eq (sfVersionCompare_self _).symm, fun _ => hhash⟩
    · have hpos := sfVersionCompare_pos.2 hnew
      exact ⟨by omega, fun h0 => by omega⟩
  · have hx := run_settled h hready
    exact ⟨hx, hx ▸ (hvalid.synced hready).2⟩
  · have hsame := install_rejected hok hun
    simp only [step, hsame, and_self]

end Floor

/-! ## A sample -/

/-- Operations other than mounts. -/
theorem run_unmounted {sha256 : List UInt8 → Digest} {code : PackageCode} {store : SfTrustStore} {x₀ x : Powered}
    (ops : List PowerOp) (h : PowerRun sha256 code store MountsSettled x₀ x)
    (hno : ∀ op ∈ ops, ∀ io medium, op ≠ .op (.mount io) medium) :
    PowerRun sha256 code store MountsSettled x₀ (powerReplay sha256 code store ops x) := by
  induction ops generalizing x with
  | nil => exact h
  | cons op ops ih =>
    have hop : MountsSettled x op := fun ⟨io, medium, he⟩ => absurd he (hno op List.mem_cons_self io medium)
    exact ih (h.step op hop) fun op' hop' => hno op' (List.mem_cons_of_mem op hop')

/-- A version is installed and its trial ends as the device says. -/
def sampleOps (digit : UInt8) (outcome : CommitOutcome) : List PowerOp :=
  [.op (.install sampleIo (.ok [digit])) .kept, .op (.begin sampleIo) .kept, .op (.finish ⟨true, none, outcome⟩ true) .kept]

theorem sampleOps_unmounted (digit : UInt8) (outcome : CommitOutcome) :
    ∀ op ∈ sampleOps digit outcome, ∀ io medium, op ≠ .op (.mount io) medium := by
  simp [sampleOps]

/-- Version `"1.0.0"` is confirmed, the power is lost and the volume is mounted again. -/
def sampleConfirmed : Powered :=
  sampleMounted (samplePower [.powerLoss] (samplePower (sampleOps 49 .done) (sampleMounted (powerStart sampleStore))))

/-- The record with the version of this digit in a slot. -/
def sampleRecord (slot : Slot) (digit : UInt8) : SfUpdate :=
  ⟨.stable, some slot, none, sampleHash [digit], zeroHash, [97, 46, 98]⟩

theorem run_sampleConfirmed :
    PowerRun sampleHash sampleCode sampleStore MountsSettled (powerStart sampleStore) sampleConfirmed := by
  have hmount : PowerRun sampleHash sampleCode sampleStore MountsSettled (powerStart sampleStore)
      (sampleMounted (powerStart sampleStore)) := PowerRun.refl.step (.op (.mount sampleMount) .kept) fun _ => rfl
  have hloss := (run_unmounted (sampleOps 49 .done) hmount (sampleOps_unmounted _ _)).step .powerLoss (by rintro ⟨_, _, ⟨⟩⟩)
  exact hloss.step (.op (.mount sampleMount) .kept) fun _ => settled_powerLoss _

theorem record_sampleConfirmed : Record sampleConfirmed.durable.files (sampleRecord .a 49) :=
  record_of_valid (by decide +kernel) (by decide +kernel)

/-- Version `"2.0.0"` is confirmed over it. -/
theorem version_floor_upgrade : ∃ data version,
    Confirmed sampleHash sampleCode sampleStore sampleConfirmed.durable.files (sampleRecord .a 49) data version ∧
      ∀ files ∈ [(samplePower (sampleOps 50 .done) sampleConfirmed).state.disk.files,
          (samplePower (sampleOps 50 .done) sampleConfirmed).durable.files], ∃ st' data' version',
        Confirmed sampleHash sampleCode sampleStore files st' data' version' ∧
        st'.appId = (sampleRecord .a 49).appId ∧ 0 ≤ sfVersionCompare version' version ∧
        (sfVersionCompare version' version = 0 → st'.goodHash = (sampleRecord .a 49).goodHash) :=
  (version_floor run_sampleConfirmed).1 (run_settled run_sampleConfirmed (by decide +kernel)) _ _
    (run_unmounted _ PowerRun.refl (sampleOps_unmounted 50 .done)) record_sampleConfirmed nofun

/-- The confirmation of version `"2.0.0"` is in the cache alone when the device is mounted again. -/
def sampleCached : Powered := sampleMounted (samplePower (sampleOps 50 (.uncertain true)) sampleConfirmed)

/-- **A confirmation that was read from the cache goes with the power**: the volume was published with the later version, and
is published with the earlier one after that. -/
theorem floor_lost :
    PowerRun sampleHash sampleCode sampleStore (fun _ _ => True) (powerStart sampleStore) sampleCached ∧
    sampleCached.state.volume.ready = true ∧
    Confirmed sampleHash sampleCode sampleStore sampleCached.state.volume.files (sampleRecord .b 50) [50] ⟨2, 0, 0⟩ ∧
    (sampleMounted (samplePower [.powerLoss] sampleCached)).state.volume.ready = true ∧
    Confirmed sampleHash sampleCode sampleStore (sampleMounted (samplePower [.powerLoss] sampleCached)).state.volume.files
      (sampleRecord .a 49) [49] ⟨1, 0, 0⟩ ∧
    sfVersionCompare ⟨1, 0, 0⟩ ⟨2, 0, 0⟩ < 0 := by
  refine ⟨run_samplePower _ (run_samplePower _ (run_samplePower _ (run_samplePower _ (run_samplePower _
      (run_samplePower _ .refl))))), by decide +kernel,
    ⟨record_of_valid (by decide +kernel) (by decide +kernel), nofun, by decide +kernel, rfl,
      by unfold AppVersion; decide +kernel⟩,
    by decide +kernel,
    ⟨record_of_valid (by decide +kernel) (by decide +kernel), nofun, by decide +kernel, rfl,
      by unfold AppVersion; decide +kernel⟩,
    by decide⟩

end SpiritFox.Persist
