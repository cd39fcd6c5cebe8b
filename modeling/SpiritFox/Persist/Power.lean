import SpiritFox.Persist.Slots

/-!
# A device with a write cache

The `disk` of a state is what the device reads. A device with a cache may lose part of that with its power: the record of a
commit that was not acknowledged can be in the cache alone, and a mount of the device while it has power reads it there. It
can also be on the medium alone, under an older sector of the cache (`commit_leaves` allows both). `Powered` has beside the
state what a power loss leaves. A medium that does not mount any more publishes nothing again, and is left out.

What every operation keeps of the files is kept in the cache and on the medium together (`run_keeps`). The published volume
is on the medium as long as none is mounted while the two differ (`run_settled`).
-/

namespace SpiritFox.Persist

open Txn Trust Update

/-- The service, and what a power loss leaves of the medium. -/
structure Powered where
  state : State
  durable : Snapshot

/-- What the device does to the medium in an operation that it does not acknowledge. -/
inductive Medium where
  | kept
  /-- It is brought up to what the device reads. -/
  | flushed
  /-- It has the commit that failed, whatever the device reads. -/
  | landed

inductive PowerOp where
  | op (op : PersistOp) (medium : Medium)
  | powerLoss

/-- The same operation, with its commit written before it fails. -/
def PersistOp.landed : PersistOp → PersistOp
  | .mount io => .mount { io with outcome := .uncertain true }
  | .install io load => .install { io with outcome := .uncertain true } load
  | .begin io => .begin { io with outcome := .uncertain true }
  | .finish io success => .finish { io with outcome := .uncertain true } success
  | .revoke io load => .revoke { io with outcome := .uncertain true } load
  | .notesWrite io offset bytes => .notesWrite { io with outcome := .uncertain true } offset bytes
  | .notesTruncate io bytes => .notesTruncate { io with outcome := .uncertain true } bytes
  | .restart => .restart

section Power

variable (sha256 : List UInt8 → Digest) (code : PackageCode) (store : SfTrustStore)

def powerStep (x : Powered) : PowerOp → Except SfError Nat × Powered
  | .op op medium =>
    let r := step sha256 code store x.state op
    let durable :=
      if r.2.disk.generation ≠ x.state.disk.generation ∧ op.outcome = .done then r.2.disk
      else match medium with
        | .kept => x.durable
        | .flushed => r.2.disk
        -- a volume that is still published has made no commit that failed
        | .landed => if r.2.volume.ready then r.2.disk else (step sha256 code store x.state op.landed).2.disk
    (r.1, ⟨r.2, durable⟩)
  | .powerLoss => (.ok 0, ⟨restart store { x.state with disk := x.durable }, x.durable⟩)

def powerStart : Powered := ⟨start store, (start store).disk⟩

/-- `x'` is reached from `x` by operations that each meet `G` in the state they start from. -/
inductive PowerRun (G : Powered → PowerOp → Prop) (x : Powered) : Powered → Prop
  | refl : PowerRun G x x
  | step {x' : Powered} (h : PowerRun G x x') (op : PowerOp) (hG : G x' op) :
      PowerRun G x (powerStep sha256 code store x' op).2

/-- The device reads what the medium has. -/
def Powered.Settled (x : Powered) : Prop := x.state.disk = x.durable

/-- The device is mounted only when it reads what the medium has. -/
def MountsSettled (x : Powered) (op : PowerOp) : Prop := (∃ io medium, op = .op (.mount io) medium) → x.Settled

/-- Every operation keeps `P` of the files that the device reads. -/
def Keeps (P : FileTable → Prop) : Prop :=
  ∀ s st op, Synced s → Sound sha256 code store s.disk.files st → P s.disk.files →
    P (step sha256 code store s op).2.disk.files

variable {sha256 code store} {x x' : Powered} {G : Powered → PowerOp → Prop} {P : FileTable → Prop}

theorem PowerRun.append {x₀ : Powered} (h : PowerRun sha256 code store G x₀ x) (h' : PowerRun sha256 code store G x x') :
    PowerRun sha256 code store G x₀ x' := by
  induction h' with
  | refl => exact h
  | step _ op hG ih => exact ih.step op hG

/-- The state after a list of operations. -/
def powerReplay (sha256 : List UInt8 → Digest) (code : PackageCode) (store : SfTrustStore) (ops : List PowerOp)
    (x : Powered) : Powered :=
  ops.foldl (fun x op => (powerStep sha256 code store x op).2) x

theorem run_powerReplay {x₀ : Powered} (ops : List PowerOp) (h : PowerRun sha256 code store (fun _ _ => True) x₀ x) :
    PowerRun sha256 code store (fun _ _ => True) x₀ (powerReplay sha256 code store ops x) := by
  induction ops generalizing x with
  | nil => exact h
  | cons op ops ih => exact ih (h.step op trivial)

/-! ## What the medium has -/

/-- The medium has what it had, or what the operation leaves there with one end of its commit or the other. -/
theorem durable_cases (x : Powered) (op : PersistOp) (medium : Medium) :
    (powerStep sha256 code store x (.op op medium)).2.durable = x.durable ∨
      ∃ op', (powerStep sha256 code store x (.op op medium)).2.durable = (step sha256 code store x.state op').2.disk := by
  unfold powerStep
  dsimp only
  split
  · exact Or.inr ⟨op, rfl⟩
  cases medium with
  | kept => exact Or.inl rfl
  | flushed => exact Or.inr ⟨op, rfl⟩
  | landed =>
    dsimp only
    split
    · exact Or.inr ⟨op, rfl⟩
    · exact Or.inr ⟨op.landed, rfl⟩

theorem settled_powerLoss (x : Powered) : (powerStep sha256 code store x .powerLoss).2.Settled := rfl

/-- What holds of the files in every run: the record and the slots agree, in the cache and on the medium. -/
structure Powered.Valid (sha256 : List UInt8 → Digest) (code : PackageCode) (store : SfTrustStore) (x : Powered) : Prop where
  synced : Synced x.state
  policy : x.state.trust.policy = store
  cached : ∃ st, Sound sha256 code store x.state.disk.files st
  durable : ∃ st, Sound sha256 code store x.durable.files st

theorem run_valid (h : PowerRun sha256 code store G (powerStart store) x) : x.Valid sha256 code store := by
  induction h with
  | refl => exact ⟨nofun, rfl, ⟨_, start_sound⟩, ⟨_, start_sound⟩⟩
  | @step x h op _ ih =>
    cases op with
    | powerLoss => exact ⟨unready_synced _, rfl, ih.durable, ih.durable⟩
    | op op medium =>
      obtain ⟨st, hst⟩ := ih.cached
      obtain ⟨hsync, st', hsound, _⟩ := step_sound ih.synced hst op
      refine ⟨hsync, (step_effect ih.synced hst.record op).policy ih.policy, ⟨st', hsound⟩, ?_⟩
      rcases @durable_cases sha256 code store x op medium with hd | ⟨op', hd⟩
      · rw [hd]
        exact ih.durable
      · obtain ⟨_, st'', hsound', _⟩ := step_sound ih.synced hst op'
        rw [hd]
        exact ⟨st'', hsound'⟩

theorem powerStep_keeps (hP : Keeps sha256 code store P) (hx : x.Valid sha256 code store) (op : PowerOp)
    (h : P x.state.disk.files ∧ P x.durable.files) :
    P (powerStep sha256 code store x op).2.state.disk.files ∧ P (powerStep sha256 code store x op).2.durable.files := by
  cases op with
  | powerLoss => exact ⟨h.2, h.2⟩
  | op op medium =>
    obtain ⟨st, hst⟩ := hx.cached
    refine ⟨hP _ st op hx.synced hst h.1, ?_⟩
    rcases @durable_cases sha256 code store x op medium with hd | ⟨op', hd⟩
    · rw [hd]
      exact h.2
    · rw [hd]
      exact hP _ st op' hx.synced hst h.1

/-- What every operation keeps is kept by runs with power losses, once the medium has it as well. -/
theorem run_keeps (hP : Keeps sha256 code store P) (h : PowerRun sha256 code store G (powerStart store) x)
    (h' : PowerRun sha256 code store G x x') (hx : P x.state.disk.files ∧ P x.durable.files) :
    P x'.state.disk.files ∧ P x'.durable.files := by
  induction h' with
  | refl => exact hx
  | step hrun op _ ih => exact powerStep_keeps hP (run_valid (h.append hrun)) op ih

/-- A volume that is published is on the medium, if none is mounted while the cache differs from it. -/
theorem run_settled (h : PowerRun sha256 code store MountsSettled (powerStart store) x)
    (hready : x.state.volume.ready = true) : x.Settled := by
  induction h with
  | refl => cases hready
  | @step x h op hG ih =>
    cases op with
    | powerLoss => cases hready
    | op op medium =>
      have hvalid := run_valid h
      obtain ⟨st, hst⟩ := hvalid.cached
      obtain ⟨_, _, hpublished, hdisk⟩ := step_effect hvalid.synced hst.record op
      have hbefore : x.Settled := by
        rcases hpublished hready with ⟨io, rfl⟩ | hr
        · exact hG ⟨io, medium, rfl⟩
        · exact ih hr
      unfold Powered.Settled powerStep at *
      dsimp only at *
      rcases hdisk with hsame | ⟨next, _, hnext, _, hdone⟩
      · rw [if_neg (fun hw => hw.1 (by rw [hsame]))]
        cases medium with
        | kept => exact hsame.trans hbefore
        | flushed => rfl
        | landed => exact (if_pos hready).symm
      · rw [if_pos ⟨by rw [hnext]; simp, hdone hready⟩]

end Power

/-! ## A sample -/

def samplePower (ops : List PowerOp) (x : Powered) : Powered := powerReplay sampleHash sampleCode sampleStore ops x

def sampleMounted (x : Powered) : Powered := samplePower [.op (.mount sampleMount) .kept] x

theorem run_samplePower {x : Powered} (ops : List PowerOp)
    (h : PowerRun sampleHash sampleCode sampleStore (fun _ _ => True) (powerStart sampleStore) x) :
    PowerRun sampleHash sampleCode sampleStore (fun _ _ => True) (powerStart sampleStore) (samplePower ops x) :=
  run_powerReplay ops h

end SpiritFox.Persist
