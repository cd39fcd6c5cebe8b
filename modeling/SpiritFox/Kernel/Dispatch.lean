import SpiritFox.Kernel.Spawn

/-!
# System calls, interrupts and the scheduler

The rest of `kernel/core.c`, with `sched_policy.c` and the console of `arch.c`. The kernel runs with interrupts off, so one
interrupt is one step: it is handled to its end, and then the scheduler picks a task round by round. In between the processor
runs a task, which can store through its own mappings, and the device can write to the arena.
-/

namespace SpiritFox.Core

open ByteMem

/-! ## Console -/

/-- `console_irq`, with the bytes that the serial port has. -/
def consoleIrq (c : Console) (bytes : List UInt8) : Console :=
  bytes.foldl (fun c b =>
    if c.count < 256 then
      { c with
        input := Function.update c.input ⟨(c.head + c.count) % 256, Nat.mod_lt _ (by decide)⟩ b, count := c.count + 1 }
    else { c with overflow := true }) c

/-- `console_read` -/
def consoleRead (c : Console) : Int × Console :=
  if c.overflow then (SfError.eventOverflow.code, { c with overflow := false, head := 0, count := 0 })
  else if c.count = 0 then (SfError.wouldBlock.code, c)
  else ((c.input ⟨c.head % 256, Nat.mod_lt _ (by decide)⟩).toNat,
    { c with head := (c.head + 1) % 256, count := c.count - 1 })

/-! ## Scheduling -/

/-- The level of a task that has been ready since `readySince`. -/
def effectivePriority (now : Nat) (t : Task) : Nat :=
  let boost := (now - t.readySince) / 4
  if 3 - t.priority ≤ boost then 3 else t.priority + boost

/-- `sf_sched_pick` over the task table: the round starts behind the current task. -/
def schedPick (k : Kernel) : Option TaskId :=
  let first := match k.current with
    | none => 0
    | some j => j.val + 1
  let round : List TaskId := (List.range 12).map fun n => ⟨(first + n) % 12, Nat.mod_lt _ (by decide)⟩
  (round.foldl (fun (best : Option (TaskId × Nat)) j =>
    if (k.tasks j).state ≠ .ready ∨ 3 < (k.tasks j).priority then best
    else
      let score := effectivePriority k.ticks (k.tasks j)
      match best with
      | none => some (j, score)
      | some (_, s) => if s < score then some (j, score) else best) none).map Prod.fst

/-- An address that a return to user mode would fault on. -/
def nonCanonical (rsp : Nat) : Prop := 0x0000800000000000 ≤ rsp ∧ rsp < 0xffff800000000000

instance (rsp : Nat) : Decidable (nonCanonical rsp) := inferInstanceAs (Decidable (_ ∧ _))

section Dispatch

variable (L : Layout)

/-- The call of `schedule` at the end of an interrupt. -/
def enterSchedule (k : Kernel) : Kernel :=
  if k.mode = .panic then k
  else
    let k := { k with mode := .sched }
    match k.current with
    | none => k
    | some j => if (k.tasks j).state = .ready then k.setTask j { k.tasks j with readySince := k.ticks } else k

/-- One round of the loop of `schedule`. -/
def scheduleRound (k : Kernel) : Kernel :=
  match schedPick k with
  | none => { k with mode := .idle }
  | some j =>
    if nonCanonical (k.tasks j).frame.rsp then
      if (k.tasks j).pid = 1 then { k with mode := .panic } else { taskDead L k j (-113) with mode := .sched }
    else { k with current := some j, mode := .user }.setTask j { k.tasks j with readySince := k.ticks }

/-! ## System calls -/

inductive Syscall where
  | exit | yield | log | ticks | epCreate | send | recv | spawn | kill | taskStatus | consoleRead | shutdown | capDerive
  | capClose | mapTest | capRevoke | pciRead | portIo | deviceRelease | dmaStatus | taskPriority | taskCapLimit | sendCancel
  | spawnLimited | taskPageLimit | ipcStats

/-- The calls in the order of their numbers. -/
def syscalls : List Syscall :=
  [.exit, .yield, .log, .ticks, .epCreate, .send, .recv, .spawn, .kill, .taskStatus, .consoleRead, .shutdown, .capDerive,
    .capClose, .mapTest, .capRevoke, .pciRead, .portIo, .deviceRelease, .dmaStatus, .taskPriority, .taskCapLimit,
    .sendCancel, .spawnLimited, .taskPageLimit, .ipcStats]

/-- A live task with this pid. -/
def liveTask (k : Kernel) (pid : Nat) : Option TaskId :=
  (List.finRange 12).find? fun j => (k.tasks j).pid = pid ∧ ((k.tasks j).state = .ready ∨ (k.tasks j).state = .blocked)

/-- A call that queries or sets a limit of task `a`: `b` the new limit, `c` 0 to query, 1 to set and, where there is a count
`used` of what the limit bounds, 2 for the count. -/
def taskLimit (k : Kernel) (a b c max : Nat) (used : Option (Task → Nat)) (limit : Task → Nat) (set : Task → Nat → Task) :
    Int × Kernel :=
  if a = 0 ∨ 0x7fffffff < a ∨ (c ≠ 0 ∧ c ≠ 1 ∧ (c ≠ 2 ∨ used.isNone)) ∨ max < b ∨
    (c ≠ 1 ∧ b ≠ 0) then (SfError.invalid.code, k)
  else match liveTask k a with
    | none => (SfError.notFound.code, k)
    | some x =>
      let t := k.tasks x
      let count : Nat := (used.map fun f => f t).getD 0
      if c = 2 then (count, k)
      else if c = 1 then
        if b < count then (SfError.busy.code, k) else (limit (set t b), k.setTask x (set t b))
      else (limit t, k)

/-- `SYS_TASK_PAGE_LIMIT` -/
def taskPageLimit (k : Kernel) (a b c : Nat) : Int × Kernel :=
  taskLimit k a b c 4096 (some Task.pageCount) Task.pageLimit fun t n => { t with pageLimit := n }

/-- `SYS_TASK_CAP_LIMIT` -/
def taskCapLimit (k : Kernel) (a b c : Nat) : Int × Kernel :=
  taskLimit k a b c 32 (some taskCapsUsed) Task.capLimit fun t n => { t with capLimit := n }

/-- `SYS_TASK_PRIORITY` -/
def taskPriority (k : Kernel) (a b c : Nat) : Int × Kernel :=
  taskLimit k a b c 3 none Task.priority fun t n => { t with priority := n }

/-- `SYS_SPAWN` and `SYS_SPAWN_LIMITED` -/
def spawn (k : Kernel) (j : TaskId) (a pages : Nat) : Int × Kernel :=
  match copyIn L k j a sfLoadPlanBytes with
  | none => (SfError.denied.code, k)
  | some bytes => match taskNewLimited L (some j) (decodePlan bytes) pages k with
    | (.error e, k) => (e.code, k)
    | (.ok pid, k) => (pid, k)

/-- A register as a C `int`. -/
def toInt (n : Nat) : Int := if n % 2 ^ 32 < 2 ^ 31 then n % 2 ^ 32 else (n % 2 ^ 32 : Int) - 2 ^ 32

/-- `SYS_KILL` -/
def kill (k : Kernel) (a b : Nat) : Int × Kernel :=
  if a = 1 then (SfError.denied.code, k)
  else match (List.finRange 12).find? fun i => (k.tasks i).pid = a ∧ (k.tasks i).state ≠ .dead with
    | none => (SfError.notFound.code, k)
    | some i => (0, taskDead L k i (toInt b))

/-- `SYS_TASK_STATUS` -/
def taskStatus (k : Kernel) (a : Nat) : Int :=
  match (List.finRange 12).find? fun i => (k.tasks i).pid = a ∧ (k.tasks i).state ≠ .empty with
  | none => SfError.notFound.code
  | some i => if (k.tasks i).state = .dead then (k.tasks i).exitStatus else 0x100000000

def releaseCode (r : Bool × Kernel) : Int × Kernel := (if r.1 then SfError.deviceGone.code else 0, r.2)

/-- `SYS_DEVICE_RELEASE` -/
def sysDeviceRelease (k : Kernel) (j : TaskId) (a : Nat) : Int × Kernel :=
  if a = 0 then releaseCode (deviceRelease k j)
  else if (k.tasks j).pid ≠ 1 then (SfError.denied.code, k)
  else match (List.finRange 12).find? fun i => (k.tasks i).pid = a with
    | none => (SfError.notFound.code, k)
    | some i => releaseCode (deviceRelease k i)

/-- A record of the kernel, copied to the caller. -/
def copyRecord (k : Kernel) (j : TaskId) (a : Nat) (bytes : List UInt8) : Int × Kernel :=
  match copyOut L k j a bytes with
  | none => (SfError.denied.code, k)
  | some k => (0, k)

/-- The bytes of an `SfIpcStats`. -/
def ipcStatsBytes (k : Kernel) : List UInt8 := toLe 4 24 ++ toLe 4 1 ++ toLe 8 k.sendBytes ++ toLe 8 k.receiveBytes

/-- The bytes of the `SfDmaStatus` that `device_status` makes. -/
def dmaStatusBytes (k : Kernel) : List UInt8 :=
  let intact := (slice k.mem L.guard 4096).all (· == 0xa5)
  toLe 4 48 ++ toLe 4 k.iommu.mode ++ toLe 4 k.deviceOwner ++ toLe 4 k.dmaStatus.faults ++ toLe 8 k.dmaStatus.lastAddress ++
    toLe 8 L.guard ++ toLe 4 k.dmaStatus.source ++ toLe 4 k.dmaStatus.reason ++ toLe 4 (if intact then 1 else 0) ++
    toLe 4 (if k.iommu.activeBdf.isSome then 1 else 0)

/-- `pci_read` -/
def pciRead (k : Kernel) (bdf offset : Nat) : Int × Kernel :=
  if 65535 < bdf ∨ 252 < offset ∨ offset % 4 ≠ 0 then (SfError.invalid.code, k) else
    ((k.hwRead.1 % 2 ^ 32 : Nat), k.hwRead.2)

/-- A call that only PID 1 may make. -/
def onlyInit (k : Kernel) (j : TaskId) (r : Int × Kernel) : Int × Kernel :=
  if (k.tasks j).pid ≠ 1 then (SfError.denied.code, k) else r

/-- `syscall`, with the calls of `ipc_syscall`. -/
def syscall (k : Kernel) (j : TaskId) (a b c : Nat) : Syscall → Int × Kernel
  | .exit => (0, if (k.tasks j).pid = 1 then { k with mode := .panic } else taskDead L k j (toInt a))
  | .yield => (0, k)
  | .log => (if 512 < b ∨ userRange L k j a b false = false then SfError.denied.code else b, k)
  | .ticks => (k.ticks, k)
  | .epCreate => epCreate k j
  | .send => send L k j a b
  | .recv => recv L k j a b c
  | .spawn => onlyInit k j (spawn L k j a 4096)
  | .kill => onlyInit k j (kill L k a b)
  | .taskStatus => onlyInit k j (taskStatus k a, k)
  | .consoleRead => onlyInit k j ((consoleRead k.console).1, { k with console := (consoleRead k.console).2 })
  | .shutdown => onlyInit k j (0, k)
  | .capDerive => capDerive k j a b
  | .capClose => capClose k j a
  | .mapTest => (SfError.denied.code, k)
  | .capRevoke => capRevoke k j a
  | .pciRead => onlyInit k j (pciRead k a b)
  | .portIo => deviceIo k j a b
  | .deviceRelease => sysDeviceRelease k j a
  | .dmaStatus => onlyInit k j (if b ≠ 48 then (SfError.invalid.code, k) else copyRecord L k j a (dmaStatusBytes L k))
  | .taskPriority => onlyInit k j (taskPriority k a b c)
  | .taskCapLimit => onlyInit k j (taskCapLimit k a b c)
  | .sendCancel => sendCancel k j a b c
  | .spawnLimited => onlyInit k j (if 4096 < b ∨ c ≠ 0 then (SfError.invalid.code, k) else spawn L k j a b)
  | .taskPageLimit => onlyInit k j (taskPageLimit k a b c)
  | .ipcStats => onlyInit k j (if b ≠ 24 ∨ c ≠ 0 then (SfError.invalid.code, k) else copyRecord L k j a (ipcStatsBytes k))

/-! ## Interrupts -/

/-- The registers of an interrupted task that the kernel reads. -/
structure Regs where
  rax : Nat
  rdi : Nat
  rsi : Nat
  rdx : Nat
  rsp : Nat

def setRax (k : Kernel) (j : TaskId) (value : Int) : Kernel :=
  k.setTask j { k.tasks j with frame := { (k.tasks j).frame with rax := value } }

/-- Vector 128: an unknown number is refused by `ipc_syscall`. -/
def userCall (k : Kernel) (j : TaskId) (regs : Regs) : Kernel :=
  match syscalls[regs.rax]? with
  | none => setRax k j SfError.invalid.code
  | some call =>
    let r := syscall L k j regs.rdi regs.rsi regs.rdx call
    setRax r.2 j r.1

/-- A fault of a task ends it; PID 1 has to run. -/
def userFault (k : Kernel) (j : TaskId) (vector : Nat) : Kernel :=
  if (k.tasks j).pid = 1 then { k with mode := .panic } else taskDead L k j (-100 - vector)

/-- The part of `interrupt_dispatch` before it looks at who was interrupted. -/
def acknowledge (k : Kernel) (vector : Nat) (input : List UInt8) : Kernel :=
  let k := if vector = 32 then ipcDeadlines { k with ticks := (k.ticks + 1) % 2 ^ 64 } else k
  if vector = 36 then { k with console := consoleIrq k.console input } else k

/-- The part of `interrupt_dispatch` for an interrupted task. -/
def userInterrupt (k : Kernel) (j : TaskId) (vector : Nat) (regs : Regs) : Kernel :=
  let k := k.setTask j { k.tasks j with frame := ⟨regs.rax, regs.rsp⟩ }
  let k := devicePoll L 64 k
  enterSchedule
    (if (k.tasks j).state = .dead then k
    else if vector = 128 then userCall L k j regs
    else if vector < 32 then userFault L k j vector
    else k)

/-! ## Hardware -/

/-- A translation of the processor for user mode. -/
structure Leaf where
  frame : Nat
  writable : Bool
  executable : Bool

/-- Present and accessible from user mode. -/
def accessible (e : Nat) : Prop := e &&& 1 ≠ 0 ∧ e &&& 4 ≠ 0

instance (e : Nat) : Decidable (accessible e) := inferInstanceAs (Decidable (_ ∧ _))

/-- The leaf that these entries lead to, at an offset inside a large page. -/
def leafOf (entries : List Nat) (offset : Nat) : Leaf where
  frame := (entries.getLastD 0 &&& entryMask) + offset
  writable := entries.all fun e => e &&& 2 ≠ 0
  executable := entries.all fun e => e &&& nx = 0

/-- The processor's walk, in user mode, of the tables at `cr3`; bit 7 of an entry in between makes a large page. -/
def walk (m : Mem) (cr3 v : Nat) : Option Leaf :=
  let e4 := entry m cr3 (v / 2 ^ 39 % 512)
  if ¬ accessible e4 then none
  else
    let e3 := entry m (e4 &&& entryMask) (v / 2 ^ 30 % 512)
    if ¬ accessible e3 then none
    else if e3 &&& 128 ≠ 0 then some (leafOf [e4, e3] (v % 2 ^ 30 / 4096 * 4096))
    else
      let e2 := entry m (e3 &&& entryMask) (v / 2 ^ 21 % 512)
      if ¬ accessible e2 then none
      else if e2 &&& 128 ≠ 0 then some (leafOf [e4, e3, e2] (v % 2 ^ 21 / 4096 * 4096))
      else
        let e1 := entry m (e2 &&& entryMask) (v / 2 ^ 12 % 512)
        if ¬ accessible e1 then none else some (leafOf [e4, e3, e2, e1] 0)

/-- A store of the running task; one that the tables do not allow is an interrupt of its own. -/
def userStore (k : Kernel) (j : TaskId) (v : Nat) (byte : UInt8) : Kernel :=
  match walk k.mem (k.tasks j).cr3 v with
  | some leaf => if leaf.writable then { k with mem := blit k.mem (leaf.frame + v % 4096) [byte] } else k
  | none => k

/-! ## Steps -/

/-- The plan that `kernel_main` makes for the initial task. -/
def bootPlan (entry : Nat) (segments : List SfLoadSegment) : SfLoadPlan :=
  ⟨sfLoadPlanBytes, segments.length, entry, 0, 0, 0, 0, 0, 0, 0, segments, ⟨0, 0, 0, 0, List.replicate 512 0⟩⟩

inductive Action where
  /-- The end of `kernel_main`. -/
  | boot (entry : Nat) (segments : List SfLoadSegment)
  /-- An interrupt, with what the hardware answers while it is handled. -/
  | interrupt (vector : Nat) (regs : Regs) (input : List UInt8) (hw : List Nat)
  | schedule (hw : List Nat)
  | store (v : Nat) (byte : UInt8)
  | dma (offset : Fin 65536) (byte : UInt8)

/-- The end of `kernel_main`: the initial task has to get PID 1. -/
def kernelMain (k : Kernel) (entry : Nat) (segments : List SfLoadSegment) : Kernel :=
  if k.mode ≠ .boot then k
  else match taskNewLimited L none (bootPlan entry segments) 4096 k with
    | (.ok 1, k) => enterSchedule k
    | (_, k) => { k with mode := .panic }

/-- `interrupt_dispatch` -/
def interruptDispatch (k : Kernel) (vector : Nat) (regs : Regs) (input : List UInt8) (hw : List Nat) : Kernel :=
  match k.mode, k.current with
  | .user, some j => userInterrupt L (acknowledge { k with hw := hw } vector input) j vector regs
  | .idle, _ =>
    if vector < 32 then { k with mode := .panic } else { acknowledge { k with hw := hw } vector input with mode := .sched }
  | _, _ => k

/-- A store by the task that the processor runs. -/
def runStore (k : Kernel) (v : Nat) (byte : UInt8) : Kernel :=
  match k.mode, k.current with
  | .user, some j => userStore k j v byte
  | _, _ => k

/-- One step; an action that the processor's mode does not allow does nothing. -/
def step (k : Kernel) : Action → Kernel
  | .boot entry segments => kernelMain L k entry segments
  | .interrupt vector regs input hw => interruptDispatch L k vector regs input hw
  | .schedule hw => if k.mode = .sched then scheduleRound L { k with hw := hw } else k
  | .store v byte => runStore k v byte
  | .dma offset byte => { k with mem := blit k.mem (L.dma + offset) [byte] }

end Dispatch

/-- The kernel's static objects as `kernel_main` finds them, after `arch_init` and `device_init`. -/
def initial (m : Mem) (iommu : Iommu) (mmioReady : Bool) : Kernel where
  mode := .boot
  tasks _ :=
    { pid := 0, state := .empty, waitEndpoint := none, exitStatus := 0, cr3 := 0, recvBuffer := 0, waitDeadline := 0,
      frame := ⟨0, 0⟩, deviceIo := 0, deviceBdf := 0, deviceFault := false, deviceModern := false,
      priority := 0, capLimit := 0, pageLimit := 0, pageCount := 0, readySince := 0, caps := fun _ => ⟨none, 0, 0, 0⟩ }
  current := none
  ticks := 0
  nextPid := 1
  endpoints _ := ⟨0, 0, 0, 0, fun _ => SfMessage.zero⟩
  sendBytes := 0
  receiveBytes := 0
  mem := m
  owner _ := 0
  mmioReady := mmioReady
  devicePt := 0
  deviceOwner := 0
  quarantined := false
  dmaStatus := ⟨0, 0, 0, 0⟩
  iommu := iommu
  console := ⟨fun _ => 0, 0, 0, false⟩
  hw := []
  log := []

/-- The states of every run. -/
inductive Reach (L : Layout) : Kernel → Prop
  | init (m : Mem) (iommu : Iommu) (mmioReady : Bool) : Reach L (initial m iommu mmioReady)
  | step {k : Kernel} (h : Reach L k) (action : Action) : Reach L (step L k action)

/-! ## A sample -/

/-- A machine with 1 GiB: the kernel and its tables first, then the arena, the bundle and the pool. -/
def sampleLayout : Layout where
  pool := 0x1000000
  bundle := 0x800000
  bundleBytes := 0x10000
  dma := 0x400000
  guard := 0x410000
  kernelPd := 0x200000
  mmioPd := 0x201000
  kernelEnd := 0x600000
  pool_aligned := by decide
  pool_pos := by decide
  pool_le := by decide
  bundle_aligned := by decide
  bundle_le := by decide
  bundle_max := by decide
  dma_aligned := by decide
  dma_le := by decide
  kernelPd_aligned := by decide
  kernelPd_le := by decide
  mmioPd_aligned := by decide
  mmioPd_le := by decide
  bundle_disjoint := by decide
  dma_disjoint := by decide
  bundle_dma := by decide

/-- The image of the initial task: a plan for a second task with a device, and a message. -/
def sampleProgram : Mem := fun i =>
  (([(0x600000, 0x40), (0x600001, 3), (0x600004, 1), (0x600028, 9), (0x600039, 0x10), (0x600043, 0x40), (0x600048, 5),
    (0x600400, 40), (0x600404, 1)] : List (Nat × UInt8)).lookup i).getD 0

/-- The kernel before it makes its first task, on a machine without translation hardware. -/
def sampleStart : Kernel := initial sampleProgram ⟨0, none, fun _ => false⟩ true

theorem reach_sampleStart : Reach sampleLayout sampleStart := Reach.init _ _ _

theorem reach_foldl {L : Layout} {k : Kernel} (h : Reach L k) (actions : List Action) :
    Reach L (actions.foldl (step L) k) := by
  induction actions generalizing k with
  | nil => exact h
  | cons action actions ih => exact ih (h.step action)

/-- A call of the running task, and the choice of the next one. -/
def sampleCall (rax rdi rsi : Nat) (hw : List Nat) : List Action :=
  [.interrupt 128 ⟨rax, rdi, rsi, 0, sfStack - 8⟩ [] hw, .schedule []]

/-- PID 1 makes an endpoint, derives a second handle to it, sends itself two messages and spawns PID 2 with a device.
PID 2 makes an endpoint of its own, PID 1 receives its first message, and PID 2 waits for one. -/
def sampleActions : List Action :=
  [.boot 0 [⟨0, 4096, 0x600000, 5, 0⟩], .schedule []] ++ sampleCall 4 0 0 [] ++ sampleCall 12 0x101 1 [] ++
    sampleCall 5 0x102 0x40000400 [] ++ sampleCall 5 0x101 0x40000400 [] ++
    sampleCall 7 0x40000000 0 [0x10001af4, 0xc001, 0, 0, 0, 0, 5] ++ sampleCall 4 0 0 [] ++
    sampleCall 6 0x101 (sfStack - 4096) [] ++ sampleCall 6 0x101 (sfStack - 4096) []

def sampleTalk : Kernel := sampleActions.foldl (step sampleLayout) sampleStart

theorem reach_sampleTalk : Reach sampleLayout sampleTalk := reach_foldl reach_sampleStart _

/-- Both tasks hold only endpoints of their own. -/
theorem sampleTalk_spec : (sampleTalk.tasks 0).pid = 1 ∧ (sampleTalk.tasks 1).pid = 2 ∧ sampleTalk.nextPid = 3 ∧
    sampleTalk.deviceOwner = 2 ∧ (sampleTalk.tasks 1).state = .blocked ∧ (sampleTalk.endpoints 0).count = 1 ∧
    ∀ j i e, ((sampleTalk.tasks j).caps i).endpoint = some e → (sampleTalk.tasks j).pid = e + 1 := by
  decide +kernel

end SpiritFox.Core
