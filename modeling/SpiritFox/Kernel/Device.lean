import SpiritFox.Lib.Proc
import SpiritFox.Kernel.Memory

/-!
# The device grant

`kernel/device.c`, with the decisions of `kernel/iommu.c` it rests on. One task at a time owns the DMA arena and a virtio
device. What the hardware answers is unknown: every configuration read, and whether a reset or an invalidation of the
translation tables succeeds, is the next word of `hw`.
-/

namespace SpiritFox.Core

open ByteMem

abbrev KProc := Proc Kernel SfError

def sfDma : Nat := 0x50000000
def sfDmaBytes : Nat := 65536
def sfDeviceMmio : Nat := 0x51000000
def sfDmaIova : Nat := 0x01000000

/-- `config_read` -/
def configRead : KProc Nat := Proc.call fun k => (k.hwRead.1 % 2 ^ 32, k.hwRead.2)

/-! ## Translation -/

/-- `invalidate` of `iommu.c`: a word other than 0 is a failure, after which no device is granted. -/
def iommuInvalidate (k : Kernel) : Bool × Kernel :=
  let (failed, k) := k.hwRead
  if failed = 0 then (true, k) else (false, { k with iommu := { k.iommu with mode := 2 } })

/-- `iommu_grant`: the address the device uses. -/
def iommuGrant (k : Kernel) (bdf physical : Nat) : Except SfError Nat × Kernel :=
  if k.iommu.mode = 0 then (.ok physical, k)
  else if k.iommu.mode ≠ 1 ∨ k.iommu.activeBdf ≠ none then (.error .deviceGone, k)
  else if 256 ≤ bdf ∨ k.iommu.covered bdf = false then (.error .denied, k)
  else match iommuInvalidate k with
    | (false, k) => (.error .deviceGone, k)
    | (true, k) => (.ok sfDmaIova, { k with iommu := { k.iommu with activeBdf := some bdf } })

/-- `iommu_revoke` succeeds. -/
def iommuRevoke (k : Kernel) (bdf : Nat) : Bool × Kernel :=
  if k.iommu.mode = 0 then (true, k)
  else if k.iommu.mode ≠ 1 then (false, k)
  else match k.iommu.activeBdf with
    | none => (true, k)
    | some active =>
      if active ≠ bdf then (false, k)
      else match iommuInvalidate k with
        | (false, k) => (false, k)
        | (true, k) => (true, { k with iommu := { k.iommu with activeBdf := none } })

/-! ## Release -/

/-- The polls of the status register after a reset. -/
def awaitReset : Nat → Kernel → Bool × Kernel
  | 0, k => (false, k)
  | rounds + 1, k =>
    let (status, k) := k.hwRead
    if status = 0 then (true, k) else awaitReset rounds k

/-- How often the status register is polled; proofs never count this far. -/
@[irreducible] def resetPolls : Nat := 10000

/-- The hardware part of `device_release`: whether the device is safely off. -/
def resetDevice (k : Kernel) (j : TaskId) : Bool × Kernel :=
  let reset := awaitReset resetPolls k.hwRead.2
  let revoked := iommuRevoke reset.2 (reset.2.tasks j).deviceBdf
  let command := revoked.2.hwRead
  (command.1 &&& 4 = 0 ∧ reset.1 ∧ revoked.1, command.2)

/-- `device_release`: `true` is `SF_DEVICE_GONE`. -/
def deviceRelease (k : Kernel) (j : TaskId) : Bool × Kernel :=
  if (k.tasks j).deviceIo = 0 then ((k.tasks j).deviceFault, k)
  else
    let reset := resetDevice k j
    let gone := reset.2.quarantined || !reset.1
    (gone, { reset.2 with quarantined := gone }.setTask j { reset.2.tasks j with deviceFault := gone, deviceIo := 0 })

/-- `device_forget` -/
def deviceForget (k : Kernel) (j : TaskId) : Kernel :=
  if k.deviceOwner = (k.tasks j).pid then { k with deviceOwner := 0 } else k

/-! ## Grant -/

/-- The capabilities of a modern device that have been found, after the one at `cap` with header `h`. -/
def virtioCap (cap h found : Nat) : KProc Nat := do
  let kind := h / 2 ^ 24
  let length := h / 2 ^ 16 % 256
  if length < 16 ∨ 240 < cap then Proc.fail .badFormat
  else do
    let id ← configRead
    let off ← configRead
    let n ← configRead
    if (kind = 1 ∨ kind = 2 ∨ kind = 4) ∧ id % 256 ≠ 4 then Proc.fail .denied
    else if kind = 1 ∧ off = 0 ∧ 56 ≤ n then pure (found ||| 1)
    else if kind = 2 ∧ off = 0x3000 ∧ 2 ≤ n ∧ 20 ≤ length ∧ cap ≤ 236 then do
      let multiplier ← configRead
      pure (if multiplier = 4 then found ||| 2 else found)
    else if kind = 4 ∧ off = 0x2000 ∧ 8 ≤ n then pure (found ||| 4)
    else pure found

/-- The walk over the capability list: the pointer it ends with and what it found. -/
def walkCaps : Nat → Nat → Nat → KProc (Nat × Nat)
  | 0, cap, found => pure (cap, found)
  | steps + 1, cap, found =>
    if cap = 0 then pure (cap, found)
    else if cap < 0x40 ∨ 0xfc < cap ∨ cap % 4 ≠ 0 then Proc.fail .badFormat
    else do
      let h ← configRead
      let found ← if h % 256 = 9 then virtioCap cap h found else pure found
      walkCaps steps (h / 2 ^ 8 % 256) found

/-- `space_device_mmio` -/
def spaceDeviceMmio (physical : Nat) : KProc Unit := do
  let k ← Proc.read
  if k.mmioReady = false ∨ physical % 4096 ≠ 0 ∨ 2 ^ 48 ≤ physical then Proc.fail .denied
  else Proc.update fun k => { k with devicePt := physical }

/-- The checks on a modern device's register window, which starts at the result. -/
def modernWindow (bar : Nat) : KProc Nat := do
  let k ← Proc.read
  if k.iommu.mode ≠ 1 ∨ bar % 8 ≠ 4 then Proc.fail .denied
  else do
    let high ← configRead
    let physical := high * 2 ^ 32 + bar / 16 * 16
    if physical % 16384 ≠ 0 ∨ physical < 0xc0000000 ∨ 2 ^ 48 - 16384 ≤ physical then Proc.fail .denied
    else do
      let first ← configRead
      let (cap, found) ← walkCaps 48 (first % 256) 0
      if found ≠ 7 ∨ cap ≠ 0 then Proc.fail .denied
      else do
        spaceDeviceMmio physical
        pure physical

section Grant

variable (L : Layout) (j : TaskId)

def updateTask (f : Task → Task) : KProc Unit := Proc.update fun k => k.setTask j (f (k.tasks j))

/-- The identity of a device that may be granted: whether it is a modern one. -/
def deviceKind (identity mode : Nat) : Except SfError Bool :=
  if identity ≠ 0x10011af4 ∧ identity ≠ 0x10001af4 ∧ identity ≠ 0x10421af4 then .error .denied
  else if mode = 1 ∧ identity ≠ 0x10421af4 then .error .denied
  else .ok (identity = 0x10421af4)

/-- A device that the grant has to give up again. -/
def releaseOnError (p : KProc Unit) : KProc Unit := Proc.onError p fun _ k => (deviceRelease k j).2

/-- The register window and the arena are mapped; failures read as "no space". -/
def mapDevice (modern : Bool) (physical : Nat) : KProc Unit := do
  if modern then
    (List.range 4).forM fun i => fun k => match spaceMapMmio L k j (sfDeviceMmio + 4096 * i) (physical + 4096 * i) with
      | (.error _, k) => (.error .noSpace, k)
      | (.ok _, k) => (.ok ⟨⟩, k)
  else pure ⟨⟩
  (List.range 16).forM fun i => fun k => match spaceMap L k j (sfDma + 4096 * i) (L.dma + 4096 * i) 3 with
    | (.error _, k) => (.error .noSpace, k)
    | (.ok _, k) => (.ok ⟨⟩, k)

/-- The device is let onto the bus; the result is the address it uses for the arena. -/
def enableDevice (bdf : Nat) (modern : Bool) : KProc Nat := do
  let address ← fun k => iommuGrant k bdf L.dma
  let _ ← configRead
  let command ← configRead
  let enable := if modern then 6 else 5
  if command &&& enable ≠ enable then Proc.fail .deviceGone else pure address

/-- What the grant writes to the arguments of the task. -/
def grantArgs (args bdf rights address : Nat) (modern : Bool) (k : Kernel) : Kernel :=
  let isolated := if k.iommu.mode = 1 then 2 else 0
  let m := store (store k.mem (args + 72) 8 sfDma) (args + 80) 8 address
  let m := store (store m (args + 88) 4 (k.tasks j).deviceIo) (args + 92) 2 bdf
  { k with mem := store m (args + 94) 2 (rights ||| isolated ||| if modern then 4 else 0) }

/-- From the reset of the device on: the arena changes hands. -/
def takeDevice (args bdf rights io physical : Nat) (modern : Bool) : KProc Unit := do
  updateTask j fun t => { t with deviceIo := io, deviceModern := modern || t.deviceModern, deviceBdf := bdf }
  let gone ← Proc.call fun k => deviceRelease k j
  if gone then Proc.fail .deviceGone
  else do
    updateTask j fun t => { t with deviceIo := io }
    Proc.update fun k => { k with deviceOwner := (k.tasks j).pid, mem := clear k.mem L.dma sfDmaBytes }
    releaseOnError j (do
      mapDevice L j modern physical
      let address ← enableDevice L bdf modern
      Proc.update (grantArgs j args bdf rights address modern))

/-- `device_grant` -/
def deviceGrant (bdfPlusOne rights args : Nat) : KProc Unit := do
  let k ← Proc.read
  if bdfPlusOne = 0 ∨ 65536 < bdfPlusOne then Proc.fail .invalid
  else if k.deviceOwner ≠ 0 ∨ k.quarantined then Proc.fail .busy
  else if k.iommu.mode = 2 then Proc.fail .deviceGone
  else do
    let identity ← configRead
    match deviceKind identity k.iommu.mode with
    | .error e => Proc.fail e
    | .ok modern => do
      let bar ← configRead
      if modern then do
        let physical ← modernWindow bar
        takeDevice L j args (bdfPlusOne - 1) rights sfDeviceMmio physical true
      else if bar % 2 = 0 ∨ bar / 4 * 4 < 0x1000 ∨ 0xffc0 < bar / 4 * 4 then Proc.fail .denied
      else takeDevice L j args (bdfPlusOne - 1) rights (bar / 4 * 4) 0 false

end Grant

/-- `device_io`: the word read, or 0 for a write. -/
def deviceIo (k : Kernel) (j : TaskId) (port operation : Nat) : Int × Kernel :=
  let t := k.tasks j
  let width := operation % 256
  if 0x1ff < operation ∨ (width ≠ 1 ∧ width ≠ 2 ∧ width ≠ 4) then (SfError.invalid.code, k)
  else if t.deviceModern ∨ t.deviceIo = 0 ∨ k.deviceOwner ≠ t.pid ∨ port < t.deviceIo ∨ t.deviceIo + 64 - width < port then
    (SfError.denied.code, k)
  else if operation / 256 = 1 then (0, k)
  else
    let (value, k) := k.hwRead
    (value % 2 ^ (8 * width), k)

end SpiritFox.Core
