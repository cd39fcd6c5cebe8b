import SpiritFox.Kernel.Device
import SpiritFox.Kernel.Ipc

/-!
# Tasks

The life of a task in `kernel/core.c`: the load plan it is made from, `task_new_limited` with its rollback, and
`task_dead`. Any failure while a task is under construction ends in the same cleanup as its death.
-/

namespace SpiritFox.Core

open ByteMem

/-! ## Load plans -/

structure SfLoadSegment where
  rva : Nat
  bytes : Nat
  data : Nat
  flags : Nat
  reserved : Nat

structure SfArguments where
  count : Nat
  bytes : Nat
  envCount : Nat
  reserved : Nat
  data : List UInt8

structure SfLoadPlan where
  size : Nat
  count : Nat
  entry : Nat
  imageBase : Nat
  grantManager : Nat
  grantService : Nat
  serviceRights : Nat
  grantBundle : Nat
  grantDevice : Nat
  deviceRights : Nat
  segments : List SfLoadSegment
  arguments : SfArguments

def sfLoadPlanBytes : Nat := 832

/-- The plan in these bytes. -/
def decodePlan (bytes : List UInt8) : SfLoadPlan :=
  let m : Mem := fun i => bytes.getD i 0
  { size := load m 0 4
    count := load m 4 4
    entry := load m 8 8
    imageBase := load m 16 8
    grantManager := load m 24 4
    grantService := load m 28 4
    serviceRights := load m 32 4
    grantBundle := load m 36 4
    grantDevice := load m 40 4
    deviceRights := load m 44 4
    segments := (List.range 8).map fun i =>
      let s := 48 + 32 * i
      ⟨load m s 8, load m (s + 8) 8, load m (s + 16) 8, load m (s + 24) 4, load m (s + 28) 4⟩
    arguments := ⟨load m 304 4, load m 308 4, load m 312 4, load m 316 4, slice m 320 512⟩ }

/-- The end of the string at `cursor` in a block that ends at `stop`. -/
def stringEnd (data : List UInt8) (cursor stop : Nat) : Nat :=
  cursor + (((data.drop (cursor - 96)).take (stop - cursor)).takeWhile (· != 0)).length

/-- One round of the loop of `payload`: the cursor after string `i`. -/
def payloadRound (data : List UInt8) (stop : Nat) (cursor : Option Nat) (i : Nat) : Option Nat :=
  match cursor with
  | none => none
  | some cursor =>
    if le ((data.drop (4 * i)).take 4) ≠ cursor ∨ stringEnd data cursor stop = stop then none
    else some (stringEnd data cursor stop + 1)

/-- `payload` of `services/arguments.c` -/
def payloadOk (data : List UInt8) (bytes count : Nat) : Bool :=
  if 16 < count ∨ 512 < bytes then false
  else if count = 0 then bytes = 0
  else if bytes < count * 4 then false
  else (List.range count).foldl (payloadRound data (96 + bytes)) (some (96 + count * 4)) = some (96 + bytes)

/-- `sf_arguments_validate` -/
def argumentsOk (a : SfArguments) : Bool :=
  a.reserved = 0 ∧ a.count ≤ 8 ∧ a.envCount ≤ 8 ∧ payloadOk a.data a.bytes (a.count + a.envCount)

/-- `sf_image_base_valid` -/
def imageBaseValid (base : Nat) : Bool :=
  base = 0 ∨ base = 0x40000000 ∨ (0x44000000 ≤ base ∧ base ≤ sfDma - 0x200000 ∧ base % 0x200000 = 0)

/-- The end of a segment's last page. -/
def SfLoadSegment.pageEnd (s : SfLoadSegment) : Nat := (s.rva + s.bytes + 4095) / 4096 * 4096

section Spawn

variable (L : Layout)

/-- The segment's bytes can be read: from the parent, or at boot from memory above the kernel. -/
def sourceOk (k : Kernel) (parent : Option TaskId) (s : SfLoadSegment) : Bool :=
  match parent with
  | some j => userRange L k j s.data s.bytes false
  | none => s.data ≤ 0x40000000 ∧ s.bytes ≤ 0x40000000 - s.data ∧ L.kernelEnd ≤ s.data

/-- The checks on one segment, against the segments before it. -/
def segmentOk (k : Kernel) (parent : Option TaskId) (before : List SfLoadSegment) (s : SfLoadSegment) : Bool :=
  s.rva % 4096 = 0 ∧ s.data + s.bytes < 2 ^ 64 ∧ s.bytes ≠ 0 ∧ s.bytes ≤ 0x200000 ∧ s.reserved = 0 ∧
    s.rva < 0x200000 ∧ s.bytes ≤ 0x200000 - s.rva ∧ (s.flags = 1 ∨ s.flags = 3 ∨ s.flags = 5) ∧
    sourceOk L k parent s ∧ before.all fun o => ¬ (s.rva < o.pageEnd ∧ o.rva < s.pageEnd)

def segmentsOk (k : Kernel) (parent : Option TaskId) : List SfLoadSegment → List SfLoadSegment → Bool
  | _, [] => true
  | before, s :: rest => segmentOk L k parent before s && segmentsOk k parent (before ++ [s]) rest

/-- `valid_plan` -/
def validPlan (k : Kernel) (p : SfLoadPlan) (parent : Option TaskId) : Bool :=
  p.size = sfLoadPlanBytes ∧ p.count ≠ 0 ∧ p.count ≤ 8 ∧ imageBaseValid p.imageBase ∧ argumentsOk p.arguments ∧
    p.grantDevice ≤ 65536 ∧ p.deviceRights ≤ 1 ∧ (p.grantDevice = 0 → p.deviceRights = 0) ∧
    segmentsOk L k parent [] (p.segments.take p.count) ∧
    (p.segments.take p.count).any fun s => s.flags = 5 ∧ s.rva ≤ p.entry ∧ p.entry - s.rva < s.bytes

/-! ## Death -/

def bury (k : Kernel) (j : TaskId) (status : Int) : Kernel :=
  k.setTask j { k.tasks j with state := .dead, exitStatus := status }

/-- `task_dead` -/
def taskDead (k : Kernel) (j : TaskId) (status : Int) : Kernel :=
  let k := bury (ipcCleanup (deviceRelease k j).2 j) j status
  deviceForget (pagesFree L k (k.tasks j).pid) j

/-- The task that a reported fault belongs to. -/
def faultyTask (k : Kernel) (source : Nat) : Option TaskId :=
  (List.finRange 12).find? fun j =>
    (k.tasks j).pid = k.deviceOwner ∧ (k.tasks j).deviceBdf = source ∧ (k.tasks j).state ≠ .dead

/-- The reaction of `device_poll` to one fault. -/
def deviceFault (k : Kernel) (source reason address : Nat) : Kernel :=
  let k := { k with dmaStatus := ⟨k.dmaStatus.faults + 1, address, source, reason⟩ }
  match faultyTask k source with
  | none => k
  | some j =>
    let k := { (deviceRelease k j).2 with quarantined := true }
    taskDead L (k.setTask j { k.tasks j with deviceFault := true }) j SfError.deviceGone.code

/-- `device_poll`: a word other than 0 announces a fault record. -/
def devicePoll : Nat → Kernel → Kernel
  | 0, k => k
  | rounds + 1, k =>
    if k.iommu.mode ≠ 1 then k
    else
      let (present, k) := k.hwRead
      if present = 0 then k
      else
        let (source, k) := k.hwRead
        let (reason, k) := k.hwRead
        let (address, k) := k.hwRead
        devicePoll rounds (deviceFault L k (source % 2 ^ 16) (reason % 256) (address / 4096 * 4096 % 2 ^ 64))

/-! ## Birth -/

/-- `page_alloc` and `space_map` of one page. -/
def mapNew (j : TaskId) (v flags : Nat) : KProc PageId := do
  let page ← Proc.callSome .noSpace fun k => pageAlloc L k (k.tasks j).pid
  fun k => match spaceMap L k j v (poolPage L page) flags with
    | (.error _, k) => (.error .noSpace, k)
    | (.ok _, k) => (.ok page, k)

/-- One page of a segment, filled from the parent or, at boot, from physical memory. -/
def loadPage (parent : Option TaskId) (j : TaskId) (base : Nat) (s : SfLoadSegment) (i : Nat) : KProc PUnit := do
  let page ← mapNew L j (base + s.rva + 4096 * i) s.flags
  let n := min (s.bytes - 4096 * i) 4096
  fun k => match parent with
    | none => (.ok ⟨⟩, { k with mem := blit k.mem (poolPage L page) (slice k.mem (s.data + 4096 * i) n) })
    | some q => match copyIn L k q (s.data + 4096 * i) n with
      | none => (.error .noSpace, k)
      | some bytes => (.ok ⟨⟩, { k with mem := blit k.mem (poolPage L page) bytes })

def loadSegment (parent : Option TaskId) (j : TaskId) (base : Nat) (s : SfLoadSegment) : KProc PUnit :=
  (List.range ((s.bytes + 4095) / 4096)).forM (loadPage L parent j base s)

def sfStack : Nat := 0x41010000
def sfArgs : Nat := 0x42000000
def sfBundle : Nat := 0x60000000

/-- The first fields of the `SfBootArgs` at `args`, and the packed strings behind them. -/
def writeArgs (args pid : Nat) (a : SfArguments) (m : Mem) : Mem :=
  let m := store (store m args 4 (96 + a.bytes)) (args + 4) 2 1
  let m := store (store (store m (args + 24) 4 pid) (args + 44) 4 1) (args + 48) 4 1
  let m := store (store m (args + 56) 4 a.count) (args + 64) 4 a.envCount
  let m := if a.count ≠ 0 then store m (args + 60) 4 96 else m
  let m := if a.envCount ≠ 0 then store m (args + 68) 4 (96 + a.count * 4) else m
  blit m (args + 96) (a.data.take a.bytes)

/-- The bundle, mapped for reading. -/
def mapBundle (j : TaskId) (args : Nat) : KProc Unit := do
  (List.range ((L.bundleBytes + 4095) / 4096)).forM fun i => fun k =>
    match spaceMap L k j (sfBundle + 4096 * i) (L.bundle + 4096 * i) 1 with
    | (.error _, k) => (.error .noSpace, k)
    | (.ok _, k) => (.ok ⟨⟩, k)
  Proc.update fun k => { k with mem := store (store k.mem (args + 8) 8 sfBundle) (args + 16) 8 L.bundleBytes }

/-- A capability of the parent, given to the task and written to its arguments. -/
def grantCap (parent j : TaskId) (h rights field : Nat) : KProc Unit :=
  if h = 0 then pure ()
  else if 7 < rights then Proc.fail .noSpace
  else do
    let h ← Proc.callSome .noSpace fun k => ipcGrant k parent j h rights
    Proc.update fun k => { k with mem := store k.mem field 4 h }

/-- The capabilities of the plan; there is no parent at boot. -/
def grantCaps (parent : Option TaskId) (j : TaskId) (p : SfLoadPlan) (args : Nat) : KProc Unit :=
  match parent with
  | none => pure ()
  | some q => do
    grantCap q j p.grantManager rightSend (args + 28)
    grantCap q j p.grantService p.serviceRights (args + 36)

/-- The slot is taken for a task under construction. Capability generations stay. -/
def occupy (k : Kernel) (j : TaskId) (pid pages : Nat) : Kernel :=
  let t := k.tasks j
  { k with nextPid := pid + 1 }.setTask j { t with
    caps := fun i => { t.caps i with endpoint := none }
    pid := pid
    state := .empty
    deviceIo := 0
    deviceBdf := 0
    deviceFault := false
    deviceModern := false
    priority := 1
    capLimit := 32
    pageLimit := pages
    pageCount := 0
    readySince := k.ticks }

/-- The bundle, for the initial task and for plans that ask for it. -/
def grantBundle (parent : Option TaskId) (j : TaskId) (p : SfLoadPlan) (args : Nat) : KProc Unit :=
  if parent = none ∨ p.grantBundle ≠ 0 then mapBundle L j args else pure ()

def grantDevice (j : TaskId) (p : SfLoadPlan) (args : Nat) : KProc Unit :=
  if p.grantDevice ≠ 0 then deviceGrant L j p.grantDevice p.deviceRights args else pure ()

/-- One page of the stack. -/
def stackPage (j : TaskId) (i : Nat) : KProc PUnit := do
  let _ ← mapNew L j (sfStack - 4096 * (i + 1)) 3
  pure ⟨⟩

/-- The task can run. -/
def makeReady (j : TaskId) : KProc Unit :=
  Proc.update fun k => k.setTask j { k.tasks j with
    frame := ⟨0, sfStack - 8⟩, readySince := k.ticks, state := .ready, exitStatus := 0 }

/-- From `space_new` on: everything a rollback undoes. -/
def construct (parent : Option TaskId) (j : TaskId) (p : SfLoadPlan) : KProc Unit := do
  let base := if p.imageBase = 0 then 0x40000000 else p.imageBase
  let cr3 ← Proc.call fun k => spaceNew L k (k.tasks j).pid
  updateTask j fun t => { t with cr3 := cr3 }
  if cr3 = 0 then Proc.fail .noSpace
  else do
    (p.segments.take p.count).forM (loadSegment L parent j base)
    (List.range 16).forM (stackPage L j)
    let page ← mapNew L j sfArgs 1
    let args := poolPage L page
    Proc.update fun k => { k with mem := writeArgs args (k.tasks j).pid p.arguments k.mem }
    grantBundle L parent j p args
    grantCaps parent j p args
    grantDevice L j p args
    makeReady j

/-- The end of a construction that failed. -/
def rollback (j : TaskId) (e : SfError) (k : Kernel) : Kernel :=
  let k := ipcCleanup (deviceRelease k j).2 j
  bury (deviceForget (pagesFree L k (k.tasks j).pid) j) j e.code

/-- `sf_pid_take`, with the limit it checks. -/
def pidAvailable (pid : Nat) : Bool := pid ≠ 0 ∧ pid ≤ 0x7fffffff

/-- `task_new_limited`; there is no parent at boot. -/
def taskNewLimited (parent : Option TaskId) (p : SfLoadPlan) (pages : Nat) : KProc Nat := do
  let k ← Proc.read
  if 4096 < pages then Proc.fail .invalid
  else if validPlan L k p parent = false ∨
    (parent = none ∧ p.imageBase ≠ 0 ∧ p.imageBase ≠ 0x40000000) then Proc.fail .invalid
  else match (List.finRange 12).find? fun j => (k.tasks j).state = .empty ∨ (k.tasks j).state = .dead with
    | none => Proc.fail .noSpace
    | some j =>
      if pidAvailable k.nextPid = false then Proc.fail .noSpace
      else do
        Proc.update fun k => occupy k j k.nextPid pages
        Proc.onError (construct L parent j p) (rollback L j)
        let k ← Proc.read
        pure (k.tasks j).pid

end Spawn

end SpiritFox.Core
