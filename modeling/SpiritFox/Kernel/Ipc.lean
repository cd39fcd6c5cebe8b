import SpiritFox.Kernel.Memory

/-!
# Endpoints and capabilities

`kernel/ipc.c`. A handle is a generation over a slot number; `cap` resolves it in a task's table. An endpoint has no
reference count: `closeCap` scans every table for another reference, and `invalidate` takes the endpoint away from
everyone.
-/

namespace SpiritFox.Core

open ByteMem

/-! ## Handles -/

/-- `cap`: the slot that the handle names, and its endpoint, if it has these rights. -/
def cap (k : Kernel) (j : TaskId) (h rights : Nat) : Option (CapId × EpId) :=
  if 0xffffffff < h then none
  else if hs : h % 256 - 1 < 32 ∧ h % 256 ≠ 0 then
    let i : CapId := ⟨h % 256 - 1, hs.1⟩
    let c := (k.tasks j).caps i
    match c.endpoint with
    | none => none
    | some e =>
      if c.generation ≠ h / 256 ∨ c.rights &&& rights ≠ rights then none
      else if (k.endpoints e).owner ≠ 0 ∧ c.epoch = (k.endpoints e).epoch then some (i, e) else none
  else none

/-- `task_caps_used` -/
def taskCapsUsed (t : Task) : Nat := ((List.finRange 32).filter fun i => (t.caps i).endpoint.isSome).length

/-- `cap_slot` -/
def capSlot (t : Task) : Option CapId :=
  if 32 < t.capLimit ∨ t.capLimit ≤ taskCapsUsed t then none
  else (List.finRange 32).find? fun i => (t.caps i).endpoint.isNone ∧ (t.caps i).generation < 0x7fffff

/-- The task with one capability slot changed. -/
def Task.setCap (t : Task) (i : CapId) (c : Cap) : Task := { t with caps := Function.update t.caps i c }

/-- `(int)((c->generation<<8)|(slot+1))` -/
def handle (generation : Nat) (i : CapId) : Nat := generation <<< 8 ||| (i + 1)

/-- `install` -/
def install (k : Kernel) (j : TaskId) (e : EpId) (rights : Nat) : Option Nat × Kernel :=
  let t := k.tasks j
  match capSlot t with
  | none => (none, k)
  | some i =>
    let generation := (t.caps i).generation + 1
    let k := k.setTask j (t.setCap i ⟨some e, (k.endpoints e).epoch, rights, generation⟩)
    (some (handle generation i), k.record (.installed j (handle generation i)))

/-- `ipc_grant` -/
def ipcGrant (k : Kernel) (parent child : TaskId) (h rights : Nat) : Option Nat × Kernel :=
  match cap k parent h rightDelegate with
  | none => (none, k)
  | some (i, e) =>
    let held := ((k.tasks parent).caps i).rights
    if rights &&& held ≠ rights then (none, k)
    else match install k child e rights with
      | (none, k) => (none, k)
      | (some h, k) => (some h, k.record (.granted e (k.tasks parent).pid (k.tasks child).pid held rights))

/-! ## The end of an endpoint -/

/-- What `invalidate` does to one task. -/
def Task.invalidated (t : Task) (e : EpId) (ticks : Nat) : Task :=
  let t := if t.state = .blocked ∧ t.waitEndpoint = some e then
      { t with frame := { t.frame with rax := SfError.revoked.code }, state := .ready, readySince := ticks }
    else t
  { t with caps := fun i => if (t.caps i).endpoint = some e then { t.caps i with endpoint := none } else t.caps i }

/-- `invalidate` -/
def invalidate (k : Kernel) (e : EpId) : Kernel :=
  let x := k.endpoints e
  let k := k.setEndpoint e { x with owner := 0, count := 0, epoch := (x.epoch + 1) % 2 ^ 32 }
  { k with tasks := fun j => (k.tasks j).invalidated e k.ticks }.record (.invalidated e)

/-- Some task has a capability on the endpoint. -/
def Referenced (k : Kernel) (e : EpId) : Prop := ∃ j i, ((k.tasks j).caps i).endpoint = some e

instance (k : Kernel) (e : EpId) : Decidable (Referenced k e) := inferInstanceAs (Decidable (∃ _, _))

/-- The slot is emptied. -/
def dropCap (k : Kernel) (j : TaskId) (i : CapId) : Kernel :=
  k.setTask j ((k.tasks j).setCap i { (k.tasks j).caps i with endpoint := none })

/-- `close_cap` of a slot that refers to `e`. -/
def closeCap (k : Kernel) (j : TaskId) (i : CapId) (e : EpId) : Kernel :=
  if Referenced (dropCap k j i) e then dropCap k j i else invalidate (dropCap k j i) e

/-- The first loop of `ipc_cleanup`, over the endpoints the task owns. -/
def cleanupOwned (k : Kernel) (j : TaskId) : Kernel :=
  (List.finRange 64).foldl (fun k e => if (k.endpoints e).owner = (k.tasks j).pid then invalidate k e else k) k

/-- One round of the second loop, over the task's own slots. -/
def cleanupSlot (j : TaskId) (k : Kernel) (i : CapId) : Kernel :=
  match ((k.tasks j).caps i).endpoint with
  | none => k
  | some e => closeCap k j i e

/-- `ipc_cleanup` -/
def ipcCleanup (k : Kernel) (j : TaskId) : Kernel := (List.finRange 32).foldl (cleanupSlot j) (cleanupOwned k j)

/-! ## Waiting -/

/-- A blocked task becomes ready with a return value. -/
def Task.wake (t : Task) (value : Int) (ticks : Nat) : Task :=
  { t with frame := { t.frame with rax := value }, state := .ready, readySince := ticks }

/-- `ipc_deadlines` -/
def ipcDeadlines (k : Kernel) : Kernel :=
  { k with tasks := fun j =>
      let t := k.tasks j
      if t.state = .blocked ∧ t.waitDeadline ≠ 0 ∧ t.waitDeadline ≤ k.now then t.wake SfError.timeout.code k.ticks else t }

/-! ## System calls -/

/-- `copied`: a counter that saturates. -/
def copied (count bytes : Nat) : Nat := min (2 ^ 64 - 1) (count + bytes)

section Calls

variable (L : Layout)

/-- `SYS_EP_CREATE` -/
def epCreate (k : Kernel) (j : TaskId) : Int × Kernel :=
  match capSlot (k.tasks j) with
  | none => (SfError.noSpace.code, k)
  | some _ => match (List.finRange 64).find? fun e => (k.endpoints e).owner = 0 with
    | none => (SfError.noSpace.code, k)
    | some e =>
      let x := k.endpoints e
      let pid := (k.tasks j).pid
      let k := k.setEndpoint e { x with owner := pid, epoch := (x.epoch + 1) % 2 ^ 32, head := 0, count := 0 }
      match install (k.record (.created e pid)) j e 7 with
      | (some h, k) => (h, k)
      | (none, k) => (SfError.noSpace.code, k.setEndpoint e { k.endpoints e with owner := 0 })

/-- `SYS_CAP_CLOSE` -/
def capClose (k : Kernel) (j : TaskId) (a : Nat) : Int × Kernel :=
  match cap k j a 0 with
  | none => (SfError.staleHandle.code, k)
  | some (i, e) => (0, closeCap k j i e)

/-- `SYS_CAP_DERIVE` -/
def capDerive (k : Kernel) (j : TaskId) (a b : Nat) : Int × Kernel :=
  match cap k j a rightDelegate with
  | none => (SfError.denied.code, k)
  | some (i, e) =>
    let held := ((k.tasks j).caps i).rights
    if 7 < b ∨ b &&& held ≠ b then (SfError.denied.code, k)
    else match install k j e b with
      | (none, k) => (SfError.noSpace.code, k)
      | (some h, k) => (h, k.record (.derived e (k.tasks j).pid held b))

/-- `SYS_CAP_REVOKE` -/
def capRevoke (k : Kernel) (j : TaskId) (a : Nat) : Int × Kernel :=
  match cap k j a rightDelegate with
  | none => (SfError.denied.code, k)
  | some (i, e) =>
    if (k.endpoints e).owner ≠ (k.tasks j).pid then (SfError.denied.code, k)
    else (0, invalidate (k.record (.revoked e (k.tasks j).pid ((k.tasks j).caps i).rights)) e)

/-- One round of the compaction loop of `SYS_SEND_CANCEL`: logical index `i`, with `kept` messages kept before it. -/
def cancelRound (pid requestId head : Nat) (acc : (Fin 8 → SfMessage) × Nat) (i : Nat) : (Fin 8 → SfMessage) × Nat :=
  let (queue, kept) := acc
  let m := queue (Endpoint.slot (head + i))
  if m.flags = pid ∧ m.requestId = requestId then (queue, kept)
  else (if kept ≠ i then Function.update queue (Endpoint.slot (head + kept)) m else queue, kept + 1)

/-- The loop that clears the slots behind the kept messages. -/
def cancelClear (queue : Fin 8 → SfMessage) (head kept count : Nat) : Fin 8 → SfMessage :=
  (List.range' kept (count - kept)).foldl (fun q i => Function.update q (Endpoint.slot (head + i)) SfMessage.zero) queue

/-- `SYS_SEND_CANCEL` -/
def sendCancel (k : Kernel) (j : TaskId) (a b c : Nat) : Int × Kernel :=
  match cap k j a rightSend with
  | none => (SfError.staleHandle.code, k)
  | some (_, e) =>
    if c ≠ 0 then (SfError.invalid.code, k)
    else
      let x := k.endpoints e
      let pid := (k.tasks j).pid
      if 8 ≤ x.head ∨ 8 < x.count then (SfError.badFormat.code, k)
      else
        let (queue, kept) := (List.range x.count).foldl (cancelRound pid b x.head) (x.queue, 0)
        if kept = x.count then (0, k)
        else
          let x' := { x with
            queue := cancelClear queue x.head kept x.count, count := kept, head := if kept = 0 then 0 else x.head }
          (x.count - kept, (k.setEndpoint e x').record (.cancelled e pid b))

/-- The checks of `SYS_SEND` on the header. -/
def messageOk (m : SfMessage) : Bool :=
  m.size = 40 ∧ m.protocolMajor = 1 ∧ m.protocolMinor = 0 ∧ m.payloadBytes ≤ 328 - 40 ∧ m.capCount = 0 ∧ m.length ≤ 256

/-- A task that is blocked on the endpoint. -/
def receiver (k : Kernel) (e : EpId) : Option TaskId :=
  (List.finRange 12).find? fun r => (k.tasks r).state = .blocked ∧ (k.tasks r).waitEndpoint = some e

/-- The end of `SYS_SEND`: `m` goes to a waiting receiver, or to the queue. -/
def sendMessage (k : Kernel) (j : TaskId) (e : EpId) (m : SfMessage) : Int × Kernel :=
  let pid := (k.tasks j).pid
  let stamped := m.stamp pid
  match receiver k e with
  | some r =>
    match copyOut L k r (k.tasks r).recvBuffer (List.ofFn stamped) with
    | none => (0, { k with mode := .panic })
    | some k =>
      let k := { k with receiveBytes := copied k.receiveBytes 328 }
      let k := k.setTask r ((k.tasks r).wake pid k.ticks)
      (0, (k.record (.sent e pid m)).record (.delivered e (k.tasks r).pid stamped pid))
  | none =>
    let x := k.endpoints e
    if x.count = 8 then (SfError.wouldBlock.code, k)
    else
      let x' := { x with queue := Function.update x.queue (Endpoint.slot (x.head + x.count)) stamped, count := x.count + 1 }
      (0, (k.setEndpoint e x').record (.sent e pid m))

/-- `SYS_SEND` -/
def send (k : Kernel) (j : TaskId) (a b : Nat) : Int × Kernel :=
  match cap k j a rightSend with
  | none => (SfError.staleHandle.code, k)
  | some (_, e) => match copyIn L k j b 328 with
    | none => (SfError.denied.code, k)
    | some bytes =>
      let m : SfMessage := fun i => bytes.getD i 0
      let k := { k with sendBytes := copied k.sendBytes 328 }
      if messageOk m = false then (SfError.invalid.code, k)
      else if m.deadlineNs ≠ 0 ∧ m.deadlineNs ≤ k.now then (SfError.timeout.code, k)
      else sendMessage L k j e m

/-- `SYS_RECV` -/
def recv (k : Kernel) (j : TaskId) (a b c : Nat) : Int × Kernel :=
  match cap k j a rightRecv with
  | none => (SfError.staleHandle.code, k)
  | some (_, e) =>
    if userRange L k j b 328 true = false then (SfError.denied.code, k)
    else
      let x := k.endpoints e
      if x.count ≠ 0 then
        let m := x.queue (Endpoint.slot x.head)
        match copyOut L k j b (List.ofFn m) with
        | none => (SfError.denied.code, k)
        | some k =>
          let k := { k with receiveBytes := copied k.receiveBytes 328 }
          let k := k.setEndpoint e { x with head := (x.head + 1) % 8, count := x.count - 1 }
          (m.flags, k.record (.delivered e (k.tasks j).pid m m.flags))
      else if c ≠ 0 ∧ c ≤ k.now then (SfError.timeout.code, k)
      else (0, k.setTask j { k.tasks j with state := .blocked, waitEndpoint := some e, recvBuffer := b, waitDeadline := c })

end Calls

end SpiritFox.Core
