import SpiritFox.Lib.Ring
import SpiritFox.Kernel.Dispatch
import Mathlib.Logic.Relation

/-!
# The machine of tasks and endpoints

What the kernel is for as far as capabilities and messages go: parties that hold capabilities, channels that hold messages in
order, and the moves by which they change. Memory, devices and the ring behind a queue are gone. A move says when it may
happen; which free slot a capability goes to, and which task waits, is left open.

`Kernel.ipc` is the machine's state in a kernel state. Every step of the kernel is a sequence of ticks, for the clock and the
device, and then one turn of the running task; this is proved in `SpiritFox.Kernel.Runs`.
-/

namespace SpiritFox.Core

/-- A task as the machine sees it. -/
structure Party where
  pid : Nat
  state : TaskState
  wait : Option EpId
  caps : CapId → Cap

/-- An endpoint as the machine sees it, with its messages in order. -/
structure Channel where
  owner : Nat
  epoch : Nat
  queue : List SfMessage

structure Ipc where
  parties : TaskId → Party
  channels : EpId → Channel
  nextPid : Nat
  log : List Event

def Task.party (t : Task) : Party := ⟨t.pid, t.state, t.waitEndpoint, t.caps⟩

/-- The messages in the ring, the oldest first. -/
def Endpoint.contents (x : Endpoint) : List SfMessage := Ring.contents x.queue x.head x.count

def Endpoint.channel (x : Endpoint) : Channel := ⟨x.owner, x.epoch, x.contents⟩

def Kernel.ipc (k : Kernel) : Ipc :=
  ⟨fun j => (k.tasks j).party, fun e => (k.endpoints e).channel, k.nextPid, k.log⟩

/-! ## Changes -/

/-- What the end of an endpoint does to a party. -/
def Party.invalidated (p : Party) (e : EpId) : Party :=
  { p with
    state := if p.state = .blocked ∧ p.wait = some e then .ready else p.state
    caps := fun i => if (p.caps i).endpoint = some e then { p.caps i with endpoint := none } else p.caps i }

namespace Ipc

variable (m : Ipc)

def setParty (j : TaskId) (p : Party) : Ipc := { m with parties := Function.update m.parties j p }

def setChannel (e : EpId) (c : Channel) : Ipc := { m with channels := Function.update m.channels e c }

def record (event : Event) : Ipc := { m with log := m.log ++ [event] }

def setCap (j : TaskId) (i : CapId) (c : Cap) : Ipc :=
  m.setParty j { m.parties j with caps := Function.update (m.parties j).caps i c }

/-- A new capability in slot `i`. -/
def put (j : TaskId) (i : CapId) (e : EpId) (rights : Nat) : Ipc :=
  let generation := ((m.parties j).caps i).generation + 1
  (m.setCap j i ⟨some e, (m.channels e).epoch, rights, generation⟩).record (.installed j (handle generation i))

/-- The slot can take a capability. -/
def Free (j : TaskId) (i : CapId) : Prop :=
  ((m.parties j).caps i).endpoint = none ∧ ((m.parties j).caps i).generation < 0x7fffff

/-- The party holds a capability on `e` in slot `i`, with all of these rights. -/
def Has (j : TaskId) (i : CapId) (e : EpId) (rights : Nat) : Prop :=
  ((m.parties j).caps i).endpoint = some e ∧ ((m.parties j).caps i).rights &&& rights = rights

def rightsAt (j : TaskId) (i : CapId) : Nat := ((m.parties j).caps i).rights

def invalidate (e : EpId) : Ipc :=
  { m.setChannel e ⟨0, ((m.channels e).epoch + 1) % 2 ^ 32, []⟩ with
    parties := fun j => (m.parties j).invalidated e }.record (.invalidated e)

def Referenced (e : EpId) : Prop := ∃ j i, ((m.parties j).caps i).endpoint = some e

instance (e : EpId) : Decidable (m.Referenced e) := inferInstanceAs (Decidable (∃ _, _))

def drop (j : TaskId) (i : CapId) : Ipc := m.setCap j i { (m.parties j).caps i with endpoint := none }

/-- The capability in slot `i`, on `e`, is given up; the last one takes the endpoint with it. -/
def close (j : TaskId) (i : CapId) (e : EpId) : Ipc :=
  if (m.drop j i).Referenced e then m.drop j i else (m.drop j i).invalidate e

def cleanupOwned (j : TaskId) : Ipc :=
  (List.finRange 64).foldl (fun m e => if (m.channels e).owner = (m.parties j).pid then m.invalidate e else m) m

def cleanupSlot (j : TaskId) (m : Ipc) (i : CapId) : Ipc :=
  match ((m.parties j).caps i).endpoint with
  | none => m
  | some e => m.close j i e

def cleanup (j : TaskId) : Ipc := (List.finRange 32).foldl (cleanupSlot j) (m.cleanupOwned j)

def setState (j : TaskId) (state : TaskState) : Ipc := m.setParty j { m.parties j with state := state }

/-- A new incarnation of the endpoint, with its first capability in slot `i` of its creator. -/
def create (j : TaskId) (i : CapId) (e : EpId) : Ipc :=
  let pid := (m.parties j).pid
  ((m.setChannel e ⟨pid, ((m.channels e).epoch + 1) % 2 ^ 32, []⟩).record (.created e pid)).put j i e 7

/-- The slot has no task, not even one under construction. -/
def Vacant (j : TaskId) : Prop := (m.parties j).state = .dead ∨ (m.parties j).state = .empty ∧ (m.parties j).pid = 0

/-- The slot is taken for a new task. -/
def occupy (j : TaskId) : Ipc :=
  { m with nextPid := m.nextPid + 1 }.setParty j { m.parties j with
    pid := m.nextPid
    state := .empty
    caps := fun i => { (m.parties j).caps i with endpoint := none } }

def setQueue (e : EpId) (queue : List SfMessage) : Ipc := m.setChannel e { m.channels e with queue := queue }

/-- The messages that a cancellation of `pid` for `requestId` leaves. -/
def keeps (pid requestId : Nat) (x : SfMessage) : Bool := ¬ (x.flags = pid ∧ x.requestId = requestId)

end Ipc

/-! ## Moves -/

open Ipc

/-- What happens to a task at the hands of others: a deadline passes, or the task ends. -/
inductive Tick (m : Ipc) : Ipc → Prop
  | wake {r : TaskId} (hb : (m.parties r).state = .blocked) : Tick m (m.setState r .ready)
  | die {j : TaskId} : Tick m ((m.cleanup j).setState j .dead)

/-- PID 1, which runs as `actor`, gives a capability to a task under construction. -/
inductive Grant (actor : Option TaskId) (child : TaskId) (m : Ipc) : Ipc → Prop
  | mk {j : TaskId} {i₀ i : CapId} {e : EpId} {rights : Nat} (ha : actor = some j) (hinit : (m.parties j).pid = 1)
      (hne : (m.parties child).state = .empty) (hp : (m.parties child).pid ≠ 0) (hc : m.Has j i₀ e rightDelegate)
      (hsub : rights &&& m.rightsAt j i₀ = rights) (hi : m.Free child i) :
      Grant actor child m ((m.put child i e rights).record
        (.granted e (m.parties j).pid (m.parties child).pid (m.rightsAt j i₀) rights))

/-- A move of the machine. `actor` is the running task. -/
inductive Move (actor : Option TaskId) (m : Ipc) : Ipc → Prop
  | create {j : TaskId} {i : CapId} {e : EpId} (ha : actor = some j) (hr : (m.parties j).state = .ready) (hi : m.Free j i)
      (he : (m.channels e).owner = 0) : Move actor m (m.create j i e)
  | derive {j : TaskId} {i₀ i : CapId} {e : EpId} {rights : Nat} (ha : actor = some j) (hc : m.Has j i₀ e rightDelegate)
      (hsub : rights &&& m.rightsAt j i₀ = rights) (hi : m.Free j i) :
      Move actor m ((m.put j i e rights).record (.derived e (m.parties j).pid (m.rightsAt j i₀) rights))
  | grant {child : TaskId} {m' : Ipc} (h : Grant actor child m m') : Move actor m m'
  | close {j : TaskId} {i : CapId} {e : EpId} (ha : actor = some j) (hr : (m.parties j).state = .ready)
    (hc : m.Has j i e 0) :
      Move actor m (m.close j i e)
  | revoke {j : TaskId} {i : CapId} {e : EpId} (ha : actor = some j) (hc : m.Has j i e rightDelegate)
      (ho : (m.channels e).owner = (m.parties j).pid) :
      Move actor m ((m.record (.revoked e (m.parties j).pid (m.rightsAt j i))).invalidate e)
  | cancel {j : TaskId} {i : CapId} {e : EpId} {requestId : Nat} (ha : actor = some j) (hc : m.Has j i e rightSend) :
      Move actor m ((m.setQueue e ((m.channels e).queue.filter (keeps (m.parties j).pid requestId))).record
        (.cancelled e (m.parties j).pid requestId))
  | deliver {j r : TaskId} {i : CapId} {e : EpId} {x : SfMessage} (ha : actor = some j) (hc : m.Has j i e rightSend)
      (hb : (m.parties r).state = .blocked) (hw : (m.parties r).wait = some e) :
      Move actor m (((m.setState r .ready).record (.sent e (m.parties j).pid x)).record
        (.delivered e (m.parties r).pid (x.stamp (m.parties j).pid) (m.parties j).pid))
  | enqueue {j : TaskId} {i : CapId} {e : EpId} {x : SfMessage} (ha : actor = some j) (hc : m.Has j i e rightSend)
      (hno : ∀ r, (m.parties r).state = .blocked → (m.parties r).wait ≠ some e) :
      Move actor m ((m.setQueue e ((m.channels e).queue ++ [x.stamp (m.parties j).pid])).record
        (.sent e (m.parties j).pid x))
  | dequeue {j : TaskId} {i : CapId} {e : EpId} {x : SfMessage} {rest : List SfMessage} (ha : actor = some j)
      (hc : m.Has j i e rightRecv) (hq : (m.channels e).queue = x :: rest) :
      Move actor m ((m.setQueue e rest).record (.delivered e (m.parties j).pid x x.flags))
  | block {j : TaskId} {i : CapId} {e : EpId} (ha : actor = some j) (hr : (m.parties j).state = .ready)
      (hc : m.Has j i e rightRecv) (hq : (m.channels e).queue = []) :
      Move actor m (m.setParty j { m.parties j with state := .blocked, wait := some e })
  | occupy {j : TaskId} (hs : m.Vacant j) (hmax : m.nextPid ≤ 0x7fffffff) : Move actor m (m.occupy j)
  | ready {j : TaskId} (hs : (m.parties j).state = .empty) (hp : (m.parties j).pid ≠ 0) : Move actor m (m.setState j .ready)
  | tick {m' : Ipc} (h : Tick m m') : Move actor m m'

abbrev Ticks : Ipc → Ipc → Prop := Relation.ReflTransGen Tick

/-- A sequence of moves. -/
abbrev Moves (actor : Option TaskId) : Ipc → Ipc → Prop := Relation.ReflTransGen (Move actor)

/-- What one call does for `actor`: nothing, one move, or the birth of a task, which may fail. -/
inductive Turn (actor : Option TaskId) (m : Ipc) : Ipc → Prop
  | idle : Turn actor m m
  | move {m' : Ipc} (h : Move actor m m') : Turn actor m m'
  | spawn {child : TaskId} {m' : Ipc} (hs : m.Vacant child) (hne : actor ≠ some child)
      (hp : m.nextPid ≠ 0 ∧ m.nextPid ≤ 0x7fffffff) (hg : Relation.ReflTransGen (Grant actor child) (m.occupy child) m') :
      Turn actor m (m'.setState child .ready)
  | abort {child : TaskId} {m' : Ipc} (hs : m.Vacant child) (hne : actor ≠ some child)
      (hp : m.nextPid ≠ 0 ∧ m.nextPid ≤ 0x7fffffff) (hg : Relation.ReflTransGen (Grant actor child) (m.occupy child) m') :
      Turn actor m ((m'.cleanup child).setState child .dead)

end SpiritFox.Core
