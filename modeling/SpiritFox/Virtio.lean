import Mathlib.Logic.Function.Basic
import SpiritFox.Abi
import SpiritFox.Lib.ByteMem

/-!
# The block driver

The service loop of `services/virtio_blk.c` after its start-up. A sector is written in two messages of half a sector
each, the first of which waits in `pending`; one sector is cached for reading; and the range that may be written is
fixed by the first message that sets it. A request to the device can fail in five ways, after each of which the
contents of a sector that was being written are unknown.

A `Run` is any sequence of messages from any senders against a device that stores what is written to it. `Coherent`
is what holds after every run, and `service_contained` draws the conclusions: every sector that is written was sent
as two halves and lies in the range, and every answer to a read is what the device holds. `OP_BLOCK_DMA_PROBE`,
which makes the device write outside its buffers on purpose, is left out, and so is the end of the loop when no
message can be received any more.
-/

namespace SpiritFox.Virtio

open ByteMem

/-! ## The model -/

abbrev Sector := Block 512

abbrev Disk := Nat → Sector

/-- `UINT64_MAX`, which is no sector. -/
def noSector : Nat := 2 ^ 64 - 1

inductive Opcode where
  | info
  | read
  | write
  | stop
  | flush
  | writeRange
  | other
  deriving DecidableEq

structure SfMessage where
  opcode : Opcode
  status : Int
  handle : Nat
  offset : Nat
  length : Nat
  mode : Nat
  data : Block 256

/-- The static variables of the driver, and the result of `start`. -/
structure Driver where
  startup : Int
  online : Bool
  writable : Bool
  capacity : Nat
  lastSector : Nat
  cache : Sector
  writeFirst : Nat
  writeEnd : Nat
  pendingSector : Nat
  pending : Sector

/-- The types of a request: `IN`, `OUT` and `FLUSH`. -/
inductive Request where
  | input
  | output
  | flush
  deriving DecidableEq

/-- How a request fails: the notification is refused, there is no completion in time, the used ring is wrong, the
status byte is not zero, or the length is wrong. -/
inductive Fault where
  | notify
  | timeout
  | ring
  | status
  | length

/-- How the device answers a request. A request that fails may leave anything in the sector that was to be written. -/
inductive Outcome where
  | done
  | fails (fault : Fault) (left : Sector)

def stop (d : Driver) : Driver := { d with online := false, lastSector := noSector }

/-- What a message has done: the result, the driver, the device, the sectors that were written, and the message to
answer with. -/
structure Handled where
  result : Int
  driver : Driver
  disk : Disk
  writes : List (Nat × Sector)
  message : SfMessage

/-- What the device holds after a request. -/
def Request.store (t : Request) (sector : Nat) (data : Sector) (disk : Disk) : Outcome → Disk
  | .done => if t = .output then Function.update disk sector data else disk
  | .fails _ left => if t = .output then Function.update disk sector left else disk

/-- The sectors that a request writes. -/
def Request.writes (t : Request) (sector : Nat) (data : Sector) : List (Nat × Sector) :=
  if t = .output then [(sector, data)] else []

/-- `request` -/
def request (t : Request) (sector : Nat) (d : Driver) (disk : Disk) (m : SfMessage) (o : Outcome) : Handled :=
  if d.online = false then ⟨SfError.deviceGone.code, d, disk, [], m⟩
  else if d.capacity ≤ sector then ⟨SfError.invalid.code, d, disk, [], m⟩
  else
    let disk' := t.store sector d.pending disk o
    let writes := t.writes sector d.pending
    match o with
    | .fails .notify _ => ⟨SfError.deviceGone.code, stop d, disk', writes, m⟩
    | .fails .timeout _ => ⟨SfError.timeout.code, stop d, disk', writes, m⟩
    | .fails .ring _ => ⟨SfError.badFormat.code, stop d, disk', writes, m⟩
    | .fails .status _ => ⟨SfError.deviceGone.code, { d with lastSector := noSector }, disk', writes, m⟩
    | .fails .length _ => ⟨SfError.badFormat.code, stop d, disk', writes, m⟩
    | .done =>
      if t = .input then ⟨0, { d with cache := disk sector, lastSector := sector }, disk', writes, m⟩
      else ⟨0, { d with lastSector := noSector }, disk', writes, m⟩

/-- `read_sector` -/
def readSector (sector : Nat) (d : Driver) (disk : Disk) (m : SfMessage) (o : Outcome) : Handled :=
  if d.lastSector = sector then ⟨0, d, disk, [], m⟩ else request .input sector d disk m o

/-- `sf_block_range` -/
def sfBlockRange (capacity offset half length : Nat) : Bool :=
  offset % 512 = 0 && half ≤ 256 && half % 256 = 0 && length = 256 && offset / 512 < capacity

def serveInfo (d : Driver) (disk : Disk) (m : SfMessage) : Handled :=
  let info := toLe 8 d.capacity ++ toLe 4 512 ++ toLe 4 (if d.writable then 0 else 1)
  ⟨0, d, disk, [], { m with data := fun i => blit m.data.mem 0 info i, length := 16 }⟩

def serveRange (d : Driver) (disk : Disk) (m : SfMessage) : Handled :=
  if d.writable = false then ⟨SfError.readOnly.code, d, disk, [], m⟩
  else if (d.writeEnd ≠ 0 ∧ (d.writeFirst ≠ m.offset ∨ d.writeEnd ≠ m.handle)) ∨ m.handle ≤ m.offset ∨
      d.capacity < m.handle then
    ⟨SfError.invalid.code, d, disk, [], m⟩
  else ⟨0, { d with writeFirst := m.offset, writeEnd := m.handle }, disk, [], m⟩

def serveFlush (d : Driver) (disk : Disk) (m : SfMessage) (o : Outcome) : Handled :=
  let d := { d with pendingSector := noSector }
  if d.writable = true ∧ d.writeEnd ≠ 0 then request .flush 0 d disk m o else ⟨SfError.readOnly.code, d, disk, [], m⟩

def serveWrite (d : Driver) (disk : Disk) (m : SfMessage) (o : Outcome) : Handled :=
  if d.writable = false ∨ d.writeEnd = 0 then ⟨SfError.readOnly.code, d, disk, [], m⟩
  else if sfBlockRange d.capacity m.offset m.mode m.length = false ∨ m.offset / 512 < d.writeFirst ∨
      d.writeEnd ≤ m.offset / 512 then
    ⟨SfError.invalid.code, { d with pendingSector := noSector }, disk, [], m⟩
  else if m.mode = 0 then
    ⟨0, { d with
      pending := fun i => if i.val < 256 then m.data.mem i else d.pending i
      pendingSector := m.offset / 512 }, disk, [], m⟩
  else if d.pendingSector ≠ m.offset / 512 then ⟨SfError.invalid.code, { d with pendingSector := noSector }, disk, [], m⟩
  else
    let d := { d with
      pending := fun i => if 256 ≤ i.val then m.data.mem (i - 256) else d.pending i
      pendingSector := noSector }
    request .output (m.offset / 512) d disk m o

def serveRead (d : Driver) (disk : Disk) (m : SfMessage) (o : Outcome) : Handled :=
  if sfBlockRange d.capacity m.offset m.mode m.length = false then ⟨SfError.invalid.code, d, disk, [], m⟩
  else
    let h := readSector (m.offset / 512) d disk m o
    if h.result = 0 then { h with message := { m with data := fun i => h.driver.cache.mem (m.mode + i) } } else h

/-- The branches of the loop, apart from that of `OP_BLOCK_STOP`. -/
def dispatch (d : Driver) (disk : Disk) (sender : Int) (m : SfMessage) (o : Outcome) : Handled :=
  if sender ≠ 1 then ⟨SfError.denied.code, d, disk, [], m⟩
  else if d.startup ≠ 0 then ⟨d.startup, d, disk, [], m⟩
  else if d.online = false then ⟨SfError.deviceGone.code, d, disk, [], m⟩
  else match m.opcode with
    | .info => serveInfo d disk m
    | .writeRange => serveRange d disk m
    | .flush => serveFlush d disk m o
    | .write => serveWrite d disk m o
    | .read => serveRead d disk m o
    | .stop | .other => ⟨SfError.invalid.code, d, disk, [], m⟩

/-- The message as it is sent back. -/
def Handled.answer (h : Handled) : Handled :=
  { h with message := { h.message with status := h.result, length := if h.result ≠ 0 then 0 else h.message.length } }

/-- One round of the loop; `released` is the result of `SYS_DEVICE_RELEASE`. -/
def handle (d : Driver) (disk : Disk) (sender : Int) (m : SfMessage) (o : Outcome) (released : Int) : Handled :=
  if sender = 1 ∧ m.opcode = .stop then ⟨released, stop d, disk, [], { m with status := released }⟩
  else (dispatch d disk sender m o).answer

/-! ## Runs -/

/-- The driver when the loop begins: `start` has succeeded, or the device has been stopped again. -/
structure Driver.Started (d : Driver) : Prop where
  online : d.online = true → d.startup = 0 ∧ d.capacity ≤ (2 ^ 64 - 1) / 512
  lastSector : d.lastSector = noSector
  writeEnd : d.writeEnd = 0
  pendingSector : d.pendingSector = noSector

/-- A message and what came of it. -/
structure Record where
  sender : Int
  message : SfMessage
  reply : SfMessage
  writes : List (Nat × Sector)
  /-- what the device holds afterwards -/
  disk : Disk

def Handled.record (h : Handled) (sender : Int) (m : SfMessage) : Record := ⟨sender, m, h.message, h.writes, h.disk⟩

/-- The loop has received the messages of these records, in this order. -/
inductive Run (d₀ : Driver) (disk₀ : Disk) : List Record → Driver → Disk → Prop
  | start : Run d₀ disk₀ [] d₀ disk₀
  | message {rs : List Record} {d : Driver} {disk : Disk} (h : Run d₀ disk₀ rs d disk) (sender : Int) (m : SfMessage)
      (o : Outcome) (released : Int) : Run d₀ disk₀ (rs ++ [(handle d disk sender m o released).record sender m])
        (handle d disk sender m o released).driver (handle d disk sender m o released).disk

/-- A message of the manager that asks for a write. -/
def Record.IsWrite (r : Record) : Prop := r.sender = 1 ∧ r.message.opcode = .write

/-- The first half of a sector. -/
def Record.IsFirst (r : Record) (sector : Nat) : Prop := r.IsWrite ∧ r.message.mode = 0 ∧ r.message.offset = sector * 512

/-- The second half of a sector. -/
def Record.IsSecond (r : Record) (sector : Nat) : Prop := r.IsWrite ∧ r.message.mode = 256 ∧ r.message.offset = sector * 512

/-- A range that was accepted. -/
def Record.IsRange (r : Record) : Prop := r.sender = 1 ∧ r.message.opcode = .writeRange ∧ r.reply.status = 0

/-- The first range that was accepted is that of the sectors from `first` to before `last`. -/
def FirstRange (rs : List Record) (first last : Nat) : Prop :=
  ∃ before r after, rs = before ++ r :: after ∧ (∀ q ∈ before, ¬q.IsRange) ∧ r.IsRange ∧
    r.message.offset = first ∧ r.message.handle = last

/-- The latest message that asks for a write has sent `data` as the first half of a sector. -/
def LatestHalf (rs : List Record) (sector : Nat) (data : Block 256) : Prop :=
  ∃ before r after, rs = before ++ r :: after ∧ r.IsFirst sector ∧ r.message.data = data ∧ ∀ q ∈ after, ¬q.IsWrite

/-- The sector of these halves. -/
def halves (a b : Block 256) : Sector := fun i => if i.val < 256 then a.mem i else b.mem (i - 256)

/-- The cached sector is what the device holds. -/
def Fresh (d : Driver) (disk : Disk) : Prop := d.lastSector ≠ noSector → d.cache = disk d.lastSector

/-- What holds after the messages of `rs`. -/
structure Coherent (d₀ : Driver) (rs : List Record) (d : Driver) (disk : Disk) : Prop where
  writable : d.writable = d₀.writable
  online : d.online = true → d.startup = 0 ∧ d.capacity ≤ (2 ^ 64 - 1) / 512
  fresh : Fresh d disk
  unset : d.writeEnd = 0 → ∀ q ∈ rs, ¬q.IsRange
  range : d.writeEnd ≠ 0 → FirstRange rs d.writeFirst d.writeEnd
  armed : d.pendingSector ≠ noSector → d.writable = true ∧ d.writeEnd ≠ 0
  half : d.online = true → d.pendingSector ≠ noSector →
    ∃ data, LatestHalf rs d.pendingSector data ∧ ∀ i : Fin 512, i.val < 256 → d.pending i = data.mem i

/-- What is right about the last message of a run. -/
structure Sound (d₀ : Driver) (before : List Record) (r : Record) : Prop where
  /-- a sector that is written was granted, lies in the range and was sent as two halves, of which this message is
  the second -/
  writes : ∀ w ∈ r.writes, d₀.writable = true ∧ (∃ first last, FirstRange before first last ∧ first ≤ w.1 ∧ w.1 < last) ∧
    r.IsSecond w.1 ∧ ∃ data, LatestHalf before w.1 data ∧ w.2 = halves data r.message.data
  /-- an answer to a read is the half that was asked for -/
  read : r.message.opcode = .read → r.reply.status = 0 → ∃ sector, r.message.offset = sector * 512 ∧
    (r.message.mode = 0 ∨ r.message.mode = 256) ∧ ∀ i : Fin 256, r.reply.data i = (r.disk sector).mem (r.message.mode + i)

/-! ## What a request does -/

/-- At most the connection and the cache change, and the half that waits may be dropped. -/
structure Kept (d d' : Driver) : Prop where
  startup : d'.startup = d.startup
  writable : d'.writable = d.writable
  capacity : d'.capacity = d.capacity
  writeFirst : d'.writeFirst = d.writeFirst
  writeEnd : d'.writeEnd = d.writeEnd
  online : d'.online = true → d.online = true
  half : d'.pendingSector = noSector ∨ d'.pendingSector = d.pendingSector ∧ d'.pending = d.pending

section Request

variable {d d' : Driver} {disk : Disk}

theorem Kept.refl : Kept d d := ⟨rfl, rfl, rfl, rfl, rfl, id, .inr ⟨rfl, rfl⟩⟩

theorem kept_stop : Kept d (stop d) := ⟨rfl, rfl, rfl, rfl, rfl, nofun, .inr ⟨rfl, rfl⟩⟩

theorem kept_cached (last : Nat) (cache : Sector) : Kept d { d with lastSector := last, cache := cache } :=
  ⟨rfl, rfl, rfl, rfl, rfl, id, .inr ⟨rfl, rfl⟩⟩

theorem kept_dropped (pending : Sector) : Kept d { d with pendingSector := noSector, pending := pending } :=
  ⟨rfl, rfl, rfl, rfl, rfl, id, .inl rfl⟩

theorem Kept.trans {d'' : Driver} (h : Kept d d') (k : Kept d' d'') : Kept d d'' where
  startup := k.startup.trans h.startup
  writable := k.writable.trans h.writable
  capacity := k.capacity.trans h.capacity
  writeFirst := k.writeFirst.trans h.writeFirst
  writeEnd := k.writeEnd.trans h.writeEnd
  online hd := h.online (k.online hd)
  half := by
    rcases k.half with hk | ⟨hk, hp⟩
    · exact .inl hk
    rcases h.half with hh | ⟨hh, hq⟩
    · exact .inl (hk.trans hh)
    · exact .inr ⟨hk.trans hh, hp.trans hq⟩

theorem fresh_stop : Fresh (stop d) disk := fun h => absurd rfl h

/-- Everything that a request can do. -/
structure Requested (t : Request) (sector : Nat) (d : Driver) (disk : Disk) (m : SfMessage) (h : Handled) : Prop where
  kept : Kept d h.driver
  pendingSector : h.driver.pendingSector = d.pendingSector
  fresh : Fresh d disk → Fresh h.driver h.disk
  writes : ∀ w ∈ h.writes, t = .output ∧ w = (sector, d.pending)
  message : h.message = m
  read : t = .input → h.disk = disk ∧ (h.result = 0 → h.driver.cache = disk sector)

theorem request_spec (t : Request) (sector : Nat) (d : Driver) (disk : Disk) (m : SfMessage) (o : Outcome) :
    Requested t sector d disk m (request t sector d disk m o) := by
  have hwrites : ∀ w ∈ t.writes sector d.pending, t = .output ∧ w = (sector, d.pending) := by
    intro w hw
    unfold Request.writes at hw
    split at hw
    · exact ⟨by assumption, List.mem_singleton.1 hw⟩
    · cases hw
  have hdisk : t = .input → t.store sector d.pending disk o = disk := by
    rintro rfl
    cases o <;> rfl
  have hfailed : ∀ (e : SfError) {p : Prop}, e.code = 0 → p := fun e _ he => absurd he e.code_ne_zero
  unfold request
  split
  · exact ⟨.refl, rfl, id, nofun, rfl, fun _ => ⟨rfl, hfailed .deviceGone⟩⟩
  split
  · exact ⟨.refl, rfl, id, nofun, rfl, fun _ => ⟨rfl, hfailed .invalid⟩⟩
  dsimp only
  split
  · exact ⟨kept_stop, rfl, fun _ => fresh_stop, hwrites, rfl, fun ht => ⟨hdisk ht, hfailed .deviceGone⟩⟩
  · exact ⟨kept_stop, rfl, fun _ => fresh_stop, hwrites, rfl, fun ht => ⟨hdisk ht, hfailed .timeout⟩⟩
  · exact ⟨kept_stop, rfl, fun _ => fresh_stop, hwrites, rfl, fun ht => ⟨hdisk ht, hfailed .badFormat⟩⟩
  · exact ⟨kept_cached _ _, rfl, fun _ h => absurd rfl h, hwrites, rfl, fun ht => ⟨hdisk ht, hfailed .deviceGone⟩⟩
  · exact ⟨kept_stop, rfl, fun _ => fresh_stop, hwrites, rfl, fun ht => ⟨hdisk ht, hfailed .badFormat⟩⟩
  split
  · rename_i ht
    refine ⟨kept_cached _ _, rfl, fun _ _ => ?_, hwrites, rfl, fun _ => ⟨hdisk ht, fun _ => rfl⟩⟩
    exact (congrFun (hdisk ht) sector).symm
  · rename_i ht
    exact ⟨kept_cached _ _, rfl, fun _ h => absurd rfl h, hwrites, rfl, fun h => absurd h ht⟩

theorem readSector_spec {sector : Nat} (m : SfMessage) (o : Outcome) (hf : Fresh d disk) (hs : sector ≠ noSector) :
    Requested .input sector d disk m (readSector sector d disk m o) := by
  unfold readSector
  split
  · rename_i h
    exact ⟨.refl, rfl, id, nofun, rfl, fun _ => ⟨rfl, fun _ => h ▸ hf (h ▸ hs)⟩⟩
  · exact request_spec _ _ _ _ _ _

end Request

/-! ## The messages of a run -/

section Service

variable {d₀ d d' : Driver} {disk disk' : Disk} {rs : List Record} {r : Record} {m : SfMessage}

theorem FirstRange.append {first last : Nat} (h : FirstRange rs first last) : FirstRange (rs ++ [r]) first last := by
  obtain ⟨before, q, after, rfl, hq⟩ := h
  exact ⟨before, q, after ++ [r], by simp, hq⟩

theorem LatestHalf.append {sector : Nat} {data : Block 256} (h : LatestHalf rs sector data) (hr : ¬r.IsWrite) :
    LatestHalf (rs ++ [r]) sector data := by
  obtain ⟨before, q, after, rfl, hfirst, hdata, hafter⟩ := h
  refine ⟨before, q, after ++ [r], by simp, hfirst, hdata, fun p hp => ?_⟩
  rcases List.mem_append.1 hp with hp | hp
  · exact hafter p hp
  · exact List.mem_singleton.1 hp ▸ hr

theorem notRange_append (h : ∀ q ∈ rs, ¬q.IsRange) (hr : ¬r.IsRange) : ∀ q ∈ rs ++ [r], ¬q.IsRange := by
  intro q hq
  rcases List.mem_append.1 hq with hq | hq
  · exact h q hq
  · exact List.mem_singleton.1 hq ▸ hr

/-- A message that sets no range and leaves no new half. -/
theorem Coherent.kept (h : Coherent d₀ rs d disk) (k : Kept d d') (hf : Fresh d' disk') (hr : ¬r.IsRange)
    (hw : r.IsWrite → d'.online = true → d'.pendingSector = noSector) : Coherent d₀ (rs ++ [r]) d' disk' where
  writable := k.writable.trans h.writable
  online hd := by
    rw [k.startup, k.capacity]
    exact h.online (k.online hd)
  fresh := hf
  unset he := notRange_append (h.unset (k.writeEnd ▸ he)) hr
  range he := by
    rw [k.writeFirst, k.writeEnd]
    exact (h.range (k.writeEnd ▸ he)).append
  armed hp := by
    rcases k.half with hn | ⟨hn, -⟩
    · exact absurd hn hp
    rw [k.writable, k.writeEnd]
    exact h.armed (hn ▸ hp)
  half hd hp := by
    rcases k.half with hn | ⟨hn, hpending⟩
    · exact absurd hn hp
    obtain ⟨data, hdata, hi⟩ := h.half (k.online hd) (hn ▸ hp)
    rw [hn, hpending]
    exact ⟨data, hdata.append fun hwrite => hp (hw hwrite hd), hi⟩

/-- The message `m` from `sender` has been served. -/
def Served (d₀ : Driver) (rs : List Record) (sender : Int) (m : SfMessage) (h : Handled) : Prop :=
  Coherent d₀ (rs ++ [h.record sender m]) h.driver h.disk ∧ Sound d₀ rs (h.record sender m)

/-- A message that is not a read and writes nothing. -/
theorem sound_silent (hw : r.writes = []) (hr : r.message.opcode = .read → r.reply.status ≠ 0) : Sound d₀ rs r where
  writes w hw' := by
    rw [hw] at hw'
    cases hw'
  read hread hstatus := absurd hstatus (hr hread)

/-- A message that is refused, with the half that waits kept or dropped. -/
theorem served_refused {sender result : Int} (h : Coherent d₀ rs d disk) (k : Kept d d') (hcache : Fresh d' disk)
    (hresult : result ≠ 0) (hw : sender = 1 → m.opcode = .write → d'.online = true → d'.pendingSector = noSector) :
    Served d₀ rs sender m (Handled.answer ⟨result, d', disk, [], m⟩) :=
  ⟨h.kept k hcache (fun hr => hresult hr.2.2) fun hwrite => hw hwrite.1 hwrite.2, sound_silent rfl fun _ => hresult⟩

theorem sector_of_sfBlockRange {capacity offset half length : Nat} (h : sfBlockRange capacity offset half length = true) :
    offset = offset / 512 * 512 ∧ (half = 0 ∨ half = 256) ∧ offset / 512 < capacity := by
  simp only [sfBlockRange, Bool.and_eq_true, decide_eq_true_eq] at h
  omega

section

variable (h : Coherent d₀ rs d disk)

include h

theorem serveInfo_served (hm : m.opcode = .info) :
    Served d₀ rs 1 m (serveInfo d disk m).answer := by
  refine ⟨h.kept .refl h.fresh (fun hr => ?_) fun hw => ?_, sound_silent rfl fun hr => ?_⟩
  · exact absurd (hm.symm.trans hr.2.1) (by decide)
  · exact absurd (hm.symm.trans hw.2) (by decide)
  · exact absurd (hm.symm.trans hr) (by decide)

theorem serveRange_served (hm : m.opcode = .writeRange) :
    Served d₀ rs 1 m (serveRange d disk m).answer := by
  have hwrite : m.opcode = .write → d.online = true → d.pendingSector = noSector := fun hw =>
    absurd (hm.symm.trans hw) (by decide)
  have hread : m.opcode ≠ .read := fun hr => absurd (hm.symm.trans hr) (by decide)
  unfold serveRange
  split
  · exact served_refused h .refl h.fresh (SfError.code_ne_zero _) fun _ => hwrite
  split
  · exact served_refused h .refl h.fresh (SfError.code_ne_zero _) fun _ => hwrite
  rename_i hwritable hrange
  obtain ⟨hset, hlt, -⟩ := by simpa only [not_or, not_and, not_not, Nat.not_le, Nat.not_lt] using hrange
  let d' := { d with writeFirst := m.offset, writeEnd := m.handle }
  have hrecord : ((Handled.answer ⟨0, d', disk, [], m⟩).record 1 m).IsRange := ⟨rfl, hm, rfl⟩
  refine ⟨⟨h.writable, h.online, h.fresh, fun he => ?_, fun _ => ?_, fun hp => ?_, fun hd hp => ?_⟩, ?_⟩
  · exact absurd he (by change m.handle ≠ 0; omega)
  · by_cases he : d.writeEnd = 0
    · exact ⟨rs, _, [], rfl, h.unset he, hrecord, rfl, rfl⟩
    · -- a range that is set again is the one that was set before
      have hsame := hset he
      have hfirst := h.range he
      rw [hsame.1, hsame.2] at hfirst
      exact hfirst.append
  · exact ⟨(h.armed hp).1, by change m.handle ≠ 0; omega⟩
  · obtain ⟨data, hdata, hi⟩ := h.half hd hp
    exact ⟨data, hdata.append fun hw => absurd (hm.symm.trans hw.2) (by decide), hi⟩
  · exact sound_silent rfl fun hr => absurd hr hread

theorem serveFlush_served (hm : m.opcode = .flush) (o : Outcome) :
    Served d₀ rs 1 m (serveFlush d disk m o).answer := by
  unfold serveFlush
  dsimp only
  split
  · have hreq := request_spec .flush 0 { d with pendingSector := noSector } disk m o
    have hkept := (kept_dropped d.pending).trans hreq.kept
    refine ⟨h.kept hkept (hreq.fresh h.fresh) (fun hr => ?_) fun hw => ?_, ?_, fun hr => ?_⟩
    · exact absurd (hm.symm.trans hr.2.1) (by decide)
    · exact absurd (hm.symm.trans hw.2) (by decide)
    · exact fun w hw => absurd (hreq.writes w hw).1 (by decide)
    · exact absurd (hm.symm.trans hr) (by decide)
  · exact served_refused h (kept_dropped d.pending) h.fresh (SfError.code_ne_zero _) fun _ _ _ => rfl

theorem serveWrite_served (hd : d.online = true) (hm : m.opcode = .write) (o : Outcome) :
    Served d₀ rs 1 m (serveWrite d disk m o).answer := by
  have hrange {r : Record} (hr : r.message.opcode = .write) : ¬r.IsRange := fun hr' =>
    absurd (hr.symm.trans hr'.2.1) (by decide)
  have hread : m.opcode ≠ .read := fun hr => absurd (hm.symm.trans hr) (by decide)
  unfold serveWrite
  split
  · rename_i hclosed
    refine served_refused h .refl h.fresh (SfError.code_ne_zero _) fun _ _ _ => ?_
    by_contra hp
    rcases hclosed with hclosed | hclosed
    · exact absurd ((h.armed hp).1.symm.trans hclosed) (by decide)
    · exact (h.armed hp).2 hclosed
  rename_i hopen
  obtain ⟨hwritable, hend⟩ := not_or.1 hopen
  split
  · exact served_refused h (kept_dropped d.pending) h.fresh (SfError.code_ne_zero _) fun _ _ _ => rfl
  rename_i hin
  simp only [not_or, Bool.not_eq_false, Nat.not_lt, Nat.not_le] at hin hwritable
  obtain ⟨hblock, hfirst, hlast⟩ := hin
  obtain ⟨hoffset, hmode, hcapacity⟩ := sector_of_sfBlockRange hblock
  split
  · rename_i hzero
    refine ⟨⟨h.writable, h.online, h.fresh, fun he => absurd he hend, fun he => (h.range he).append,
      fun _ => ⟨hwritable, hend⟩, fun _ _ => ?_⟩, sound_silent rfl fun hr => absurd hr hread⟩
    refine ⟨m.data, ⟨rs, _, [], rfl, ⟨⟨rfl, hm⟩, hzero, hoffset⟩, rfl, nofun⟩, fun i hi => ?_⟩
    exact if_pos hi
  rename_i hsecond
  split
  · exact served_refused h (kept_dropped d.pending) h.fresh (SfError.code_ne_zero _) fun _ _ _ => rfl
  rename_i hsame
  have hsame := not_not.1 hsame
  have hsector : d.pendingSector ≠ noSector := by
    have hbound := (h.online hd).2
    unfold noSector
    omega
  obtain ⟨data, hlatest, hi⟩ := h.half hd hsector
  have hreq := request_spec .output (m.offset / 512)
    { d with
      pending := fun i => if 256 ≤ i.val then m.data.mem (i - 256) else d.pending i
      pendingSector := noSector } disk m o
  refine ⟨h.kept ((kept_dropped _).trans hreq.kept) (hreq.fresh h.fresh) (hrange hm) fun _ _ => hreq.pendingSector, ?_,
    fun hr => absurd hr hread⟩
  intro w hw
  obtain ⟨-, rfl⟩ := hreq.writes w hw
  refine ⟨h.writable.symm.trans hwritable, ⟨_, _, h.range hend, hfirst, hlast⟩,
    ⟨⟨rfl, hm⟩, hmode.resolve_left hsecond, hoffset⟩, data, hsame ▸ hlatest, funext fun i => ?_⟩
  unfold halves
  by_cases hlow : i.val < 256
  · rw [if_pos hlow, ← hi i hlow]
    exact if_neg (Nat.not_le.2 hlow)
  · rw [if_neg hlow]
    exact if_pos (Nat.not_lt.1 hlow)

theorem serveRead_served (hd : d.online = true) (hm : m.opcode = .read) (o : Outcome) :
    Served d₀ rs 1 m (serveRead d disk m o).answer := by
  have hrange {r : Record} (hr : r.message.opcode = .read) : ¬r.IsRange := fun hr' =>
    absurd (hr.symm.trans hr'.2.1) (by decide)
  have hwrite : ¬m.opcode = .write := fun hw => absurd (hm.symm.trans hw) (by decide)
  unfold serveRead
  split
  · exact served_refused h .refl h.fresh (SfError.code_ne_zero _) fun _ hw => absurd hw hwrite
  rename_i hblock
  obtain ⟨hoffset, hmode, hcapacity⟩ := sector_of_sfBlockRange (Bool.not_eq_false _ ▸ hblock)
  have hsector : m.offset / 512 ≠ noSector := by
    have hbound := (h.online hd).2
    unfold noSector
    omega
  have hreq := readSector_spec m o h.fresh hsector
  dsimp only
  split
  · rename_i hresult
    refine ⟨h.kept hreq.kept (hreq.fresh h.fresh) (hrange hm) fun hw => absurd hw.2 hwrite, ?_, fun _ _ => ?_⟩
    · exact fun w hw => absurd (hreq.writes w hw).1 (by decide)
    obtain ⟨hdisk, hcache⟩ := hreq.read rfl
    refine ⟨m.offset / 512, hoffset, hmode, fun i => ?_⟩
    change Block.mem (readSector (m.offset / 512) d disk m o).driver.cache (m.mode + i) =
      Block.mem ((readSector (m.offset / 512) d disk m o).disk (m.offset / 512)) (m.mode + i)
    rw [hcache hresult, hdisk]
  · rename_i hresult
    refine ⟨h.kept hreq.kept (hreq.fresh h.fresh) (hrange hm) fun hw => absurd hw.2 hwrite, ?_, fun _ hs => ?_⟩
    · exact fun w hw => absurd (hreq.writes w hw).1 (by decide)
    · exact absurd hs hresult

/-- **The step lemma**: whatever message is received, from whomever. -/
theorem handle_served (sender : Int) (m : SfMessage) (o : Outcome) (released : Int) :
    Served d₀ rs sender m (handle d disk sender m o released) := by
  unfold handle
  split
  · rename_i hstop
    refine ⟨h.kept kept_stop fresh_stop (fun hr => ?_) fun hw => ?_, sound_silent rfl fun hr => ?_⟩
    · exact absurd (hstop.2.symm.trans hr.2.1) (by decide)
    · exact absurd (hstop.2.symm.trans hw.2) (by decide)
    · exact absurd (hstop.2.symm.trans hr) (by decide)
  unfold dispatch
  split
  · rename_i hsender
    exact served_refused h .refl h.fresh (SfError.code_ne_zero _) fun h1 => absurd h1 hsender
  rename_i hsender
  obtain rfl := not_not.1 hsender
  split
  · rename_i hstartup
    exact served_refused h .refl h.fresh hstartup fun _ _ hd => absurd (h.online hd).1 hstartup
  split
  · rename_i hoffline
    exact served_refused h .refl h.fresh (SfError.code_ne_zero _) fun _ _ hd => absurd (hd.symm.trans hoffline) (by decide)
  rename_i honline
  have hd := Bool.not_eq_false _ ▸ honline
  split
  · exact serveInfo_served h (by assumption)
  · exact serveRange_served h (by assumption)
  · exact serveFlush_served h (by assumption) o
  · exact serveWrite_served h hd (by assumption) o
  · exact serveRead_served h hd (by assumption) o
  all_goals
    rename_i hm
    exact served_refused h .refl h.fresh (SfError.code_ne_zero _) fun _ hw => absurd (hm.symm.trans hw) (by decide)

end

end Service

/-! ## Whole runs -/

theorem coherent_start {d₀ : Driver} (h : d₀.Started) (disk₀ : Disk) : Coherent d₀ [] d₀ disk₀ where
  writable := rfl
  online := h.online
  fresh hl := absurd h.lastSector hl
  unset _ := nofun
  range he := absurd h.writeEnd he
  armed hp := absurd h.pendingSector hp
  half _ hp := absurd h.pendingSector hp

/-- After every run the driver is coherent, and every message of the run was served soundly. -/
theorem Run.coherent {d₀ d : Driver} {disk₀ disk : Disk} {rs : List Record} (h₀ : d₀.Started) (h : Run d₀ disk₀ rs d disk) :
    Coherent d₀ rs d disk ∧ ∀ before r after, rs = before ++ r :: after → Sound d₀ before r := by
  induction h with
  | start => exact ⟨coherent_start h₀ disk₀, fun before r after h => by simp at h⟩
  | message _ sender m o released ih =>
    obtain ⟨hc, hs⟩ := handle_served ih.1 sender m o released
    refine ⟨hc, fun before r after hrs => ?_⟩
    rcases List.eq_nil_or_concat after with rfl | ⟨after, last, rfl⟩
    · obtain ⟨rfl, hr⟩ := List.append_inj' hrs rfl
      exact List.singleton_inj.1 hr ▸ hs
    · rw [List.concat_eq_append, ← List.cons_append, ← List.append_assoc] at hrs
      exact ih.2 before r after (List.append_inj' hrs rfl).1

/-- **The block service**: in every run, whatever messages come from whatever senders and however requests fail, a
sector is written only under the write grant and in the range that was accepted first, as the two halves that the
manager sent for it one after the other; and every read that is answered returns what the device holds. -/
theorem service_contained {d₀ d : Driver} {disk₀ disk : Disk} {before after : List Record} {r : Record} (h₀ : d₀.Started)
    (h : Run d₀ disk₀ (before ++ r :: after) d disk) : Sound d₀ before r :=
  (h.coherent h₀).2 before r after rfl

def sampleDriver : Driver := ⟨0, true, true, 8, noSector, fun _ => 0, 0, 0, noSector, fun _ => 0⟩

def sampleMessage (opcode : Opcode) (handle offset mode : Nat) : SfMessage :=
  ⟨opcode, 0, handle, offset, 256, mode, fun i => UInt8.ofNat (mode + i)⟩

theorem sampleDriver_started : sampleDriver.Started := ⟨fun _ => by decide, rfl, rfl, rfl⟩

/-- A range, the two halves of a sector in it, and the write that they lead to. -/
theorem service_contained_sample : ∃ before r d disk, Run sampleDriver (fun _ _ => 0) (before ++ [r]) d disk ∧
    r.writes.length = 1 ∧ Sound sampleDriver before r := by
  have hstart : Run sampleDriver (fun _ _ => 0) [] sampleDriver fun _ _ => 0 := .start
  have hrange := hstart.message 1 (sampleMessage .writeRange 4 2 0) .done 0
  have hfirst := hrange.message 1 (sampleMessage .write 0 1024 0) .done 0
  have hsecond := hfirst.message 1 (sampleMessage .write 0 1024 256) .done 0
  exact ⟨_, _, _, _, hsecond, by decide, service_contained sampleDriver_started hsecond⟩

end SpiritFox.Virtio
