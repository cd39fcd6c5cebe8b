import SpiritFox.Lib.ByteMem
import SpiritFox.Abi
import Mathlib.Algebra.Group.Int.Defs
import Mathlib.Data.Fintype.Basic

/-!
# The kernel's state

The static objects of `kernel/`: the task and endpoint tables of `core.c` and `ipc.c`, the page pool with the
physical memory it lies in, the device grant of `device.c` and the console ring of `arch.c`. Where these objects lie
is a `Layout`.

Physical memory is one `Mem`, so page tables are bytes like any others. What the hardware answers is a list of words, `hw`,
that the kernel's reads consume. `log` is a history: the kernel never reads it.
-/

namespace SpiritFox.Core

open ByteMem

abbrev TaskId := Fin 12
abbrev EpId := Fin 64
abbrev CapId := Fin 32
abbrev PageId := Fin 4096

def rightSend : Nat := 1
def rightRecv : Nat := 2
def rightDelegate : Nat := 4

/-! ## Messages -/

/-- The bytes of an `SfMessage`. -/
abbrev SfMessage := Block 328

namespace SfMessage

variable (m : SfMessage)

def size : Nat := load m.mem 0 4
def protocolMajor : Nat := load m.mem 4 2
def protocolMinor : Nat := load m.mem 6 2
def flags : Nat := load m.mem 12 4
def requestId : Nat := load m.mem 16 8
def payloadBytes : Nat := load m.mem 24 4
def capCount : Nat := load m.mem 28 4
def deadlineNs : Nat := load m.mem 32 8
def length : Nat := load m.mem 64 4

/-- `m.h.flags = pid` -/
def stamp (pid : Nat) : SfMessage := blockAt 328 (store m.mem 12 4 pid) 0

def zero : SfMessage := fun _ => 0

end SfMessage

/-! ## Tasks and endpoints -/

inductive TaskState where
  | empty | ready | blocked | dead
  deriving DecidableEq

/-- A capability slot; `endpoint` is `none` for the number 0. -/
structure Cap where
  endpoint : Option EpId
  epoch : Nat
  rights : Nat
  generation : Nat

/-- What the kernel reads or writes of a saved user frame. -/
structure Frame where
  rax : Int
  rsp : Nat

structure Task where
  pid : Nat
  state : TaskState
  waitEndpoint : Option EpId
  exitStatus : Int
  cr3 : Nat
  recvBuffer : Nat
  waitDeadline : Nat
  frame : Frame
  deviceIo : Nat
  deviceBdf : Nat
  deviceFault : Bool
  deviceModern : Bool
  priority : Nat
  capLimit : Nat
  pageLimit : Nat
  pageCount : Nat
  readySince : Nat
  caps : CapId → Cap

structure Endpoint where
  owner : Nat
  epoch : Nat
  head : Nat
  count : Nat
  queue : Fin 8 → SfMessage

/-- `endpoints[i].queue[n % 8]` -/
def Endpoint.slot (n : Nat) : Fin 8 := ⟨n % 8, Nat.mod_lt _ (by decide)⟩

/-! ## History -/

inductive Event where
  /-- A new incarnation of the endpoint, for the task with this pid. -/
  | created (e : EpId) (pid : Nat)
  /-- A `SYS_SEND` that returns 0, with the message as it was copied from the sender. -/
  | sent (e : EpId) (sender : Nat) (message : SfMessage)
  /-- The bytes copied to a receiver and the value its `SYS_RECV` returns. -/
  | delivered (e : EpId) (receiver : Nat) (message : SfMessage) (value : Int)
  | cancelled (e : EpId) (sender requestId : Nat)
  | invalidated (e : EpId)
  /-- A handle that `install` returned for a task slot. -/
  | installed (j : TaskId) (handle : Nat)
  /-- A capability that the task derived from one of its own with rights `held`. -/
  | derived (e : EpId) (pid held rights : Nat)
  /-- A capability given to a new task, from one of the parent's with rights `held`. -/
  | granted (e : EpId) (parent pid held rights : Nat)
  /-- A `SYS_CAP_REVOKE` that succeeds, through a capability with rights `held`. -/
  | revoked (e : EpId) (pid held : Nat)

/-! ## The kernel -/

/-- Where the kernel's objects lie in physical memory. -/
structure Layout where
  pool : Nat
  bundle : Nat
  bundleBytes : Nat
  dma : Nat
  guard : Nat
  kernelPd : Nat
  mmioPd : Nat
  kernelEnd : Nat
  pool_aligned : pool % 4096 = 0
  pool_pos : 0 < pool
  pool_le : pool + 4096 * 4096 ≤ 0x40000000
  bundle_aligned : bundle % 4096 = 0
  bundle_le : bundle + bundleBytes ≤ 0x40000000
  /-- `kernel_main` stops at a larger bundle. -/
  bundle_max : bundleBytes ≤ 0x400000
  dma_aligned : dma % 4096 = 0
  dma_le : dma + 65536 ≤ 0x40000000
  kernelPd_aligned : kernelPd % 4096 = 0
  kernelPd_le : kernelPd + 4096 ≤ 0x40000000
  mmioPd_aligned : mmioPd % 4096 = 0
  mmioPd_le : mmioPd + 4096 ≤ 0x40000000
  /-- The bundle's last page and the DMA arena lie outside the pool. -/
  bundle_disjoint : bundle + (bundleBytes + 4095) / 4096 * 4096 ≤ pool ∨ pool + 4096 * 4096 ≤ bundle
  dma_disjoint : dma + 65536 ≤ pool ∨ pool + 4096 * 4096 ≤ dma
  /-- The bundle comes with the boot image, the arena is in the kernel's. -/
  bundle_dma : bundle + (bundleBytes + 4095) / 4096 * 4096 ≤ dma ∨ dma + 65536 ≤ bundle

/-- Whether the processor runs a task, is about to pick one, or waits for an interrupt; `panic` is final. -/
inductive Mode where
  | boot | user | sched | idle | panic
  deriving DecidableEq

/-- The state of `iommu.c` that grants depend on. -/
structure Iommu where
  mode : Nat
  activeBdf : Option Nat
  covered : Nat → Bool

/-- The ring of `arch.c`. -/
structure Console where
  input : Fin 256 → UInt8
  head : Nat
  count : Nat
  overflow : Bool

structure DmaStatus where
  faults : Nat
  lastAddress : Nat
  source : Nat
  reason : Nat

structure Kernel where
  mode : Mode
  tasks : TaskId → Task
  current : Option TaskId
  ticks : Nat
  nextPid : Nat
  endpoints : EpId → Endpoint
  sendBytes : Nat
  receiveBytes : Nat
  mem : Mem
  owner : PageId → Nat
  mmioReady : Bool
  /-- The register window in `device_pt`. -/
  devicePt : Nat
  deviceOwner : Nat
  quarantined : Bool
  dmaStatus : DmaStatus
  iommu : Iommu
  console : Console
  hw : List Nat
  log : List Event

namespace Kernel

/-- The kernel with one task changed. -/
def setTask (k : Kernel) (j : TaskId) (t : Task) : Kernel := { k with tasks := Function.update k.tasks j t }

def setEndpoint (k : Kernel) (e : EpId) (x : Endpoint) : Kernel := { k with endpoints := Function.update k.endpoints e x }

def record (k : Kernel) (event : Event) : Kernel := { k with log := k.log ++ [event] }

/-- The next word the hardware answers. -/
def hwRead (k : Kernel) : Nat × Kernel := (k.hw.headD 0, { k with hw := k.hw.tail })

/-- `ticks*10000000ull` -/
def now (k : Kernel) : Nat := k.ticks * 10000000 % 2 ^ 64

end Kernel

end SpiritFox.Core
