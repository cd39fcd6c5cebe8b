import SpiritFox.Ns.Rpc
import SpiritFox.Ns.Stale

/-!
# The client of the file service

`services/file_client.c`: every call fills in a message, sends it to the manager, waits for the reply and checks it.
A reply that does not look right is held against the client for good (`badReply`).

The main result is `client_agrees`: with `sf_file_dispatch` at the other end a client never finds a reply wrong, and
every call returns and delivers what the operation of the namespace returns.
-/

namespace SpiritFox.Ns

open ByteMem Checks

structure SfFileClient where
  manager : Nat
  reply : Nat
  timeoutMs : Nat
  error : Int

/-- The client and `sf_file_sequence`. -/
structure ClientState where
  client : SfFileClient
  sequence : Nat

/-- What the kernel answers during a call: `SYS_TICKS`, `SYS_SEND` of a message, and then every `SYS_RECV`. -/
structure Transport where
  ticks : Int
  send : SfMessage → Int
  recv : SfMessage → Nat → Int × SfMessage

def ClientState.fail (c : ClientState) (e : Int) : ClientState := { c with client := { c.client with error := e } }

def badReply (c : ClientState) : Int × ClientState := (SfError.badFormat.code, c.fail SfError.badFormat.code)

/-! ## The exchange -/

/-- What a reply is taken for. -/
inductive Verdict where
  | failed
  | bad
  | old
  | mine

def judge (op id : Nat) (r : Int) (m : SfMessage) : Verdict :=
  if r < 0 then .failed
  else if r ≠ 1 ∨ m.h.flags ≠ 1 ∨ m.h.size ≠ 40 ∨ m.h.protocolMajor ≠ 1 ∨ m.h.protocolMinor ≠ 0 ∨ m.h.payloadBytes ≠ 288 ∨
      m.h.capCount ≠ 0 ∨ messageBytes < m.length then .bad
  else if m.h.requestId ≠ id then if m.h.requestId ≠ 0 ∧ m.h.requestId < id then .old else .bad
  else if m.h.opcode ≠ op then .bad
  else .mine

/-- The loop of `exchange`, from the `k`-th reply on; `left` old ones may still come. -/
def awaitReply (recv : Nat → Int × SfMessage) (op id : Nat) (c : ClientState) (left k : Nat) :
    Int × SfMessage × ClientState :=
  match judge op id (recv k).1 (recv k).2, left with
  | .failed, _ => ((recv k).1, (recv k).2, c.fail (recv k).1)
  | .mine, _ => ((recv k).2.status, (recv k).2, c)
  | .old, left + 1 => awaitReply recv op id c left (k + 1)
  | _, _ => ((badReply c).1, (recv k).2, (badReply c).2)

/-- `(uint64_t)c->timeout_ms * 1000000` -/
def ClientState.delta (c : ClientState) : Nat := c.client.timeoutMs * 1000000

/-- The message that is sent. -/
def sent (c : ClientState) (ticks : Int) (m : SfMessage) (op : FileOp) : SfMessage :=
  { m with h := ⟨40, 1, 0, op.code, 0, c.sequence + 1, 288, 0, ticks.toNat * 10000000 + c.delta⟩ }

def ClientState.next (c : ClientState) : ClientState := { c with sequence := c.sequence + 1 }

/-- The result, the message after it, and the client. -/
def exchange (t : Transport) (c : ClientState) (m : SfMessage) (op : FileOp) (handle : Bool) :
    Int × SfMessage × ClientState :=
  if c.client.manager = 0 ∨ c.client.reply = 0 ∨ c.client.timeoutMs = 0 ∨ 60000 < c.client.timeoutMs then
    (SfError.invalid.code, m, c)
  else if c.client.error ≠ 0 then (c.client.error, m, c)
  else if handle = true ∧ (m.handle = 0 ∨ 0xffffffff < m.handle) then (SfError.staleHandle.code, m, c)
  else if c.sequence = 0xffffffffffffffff then (SfError.noSpace.code, m, c)
  else if t.ticks < 0 ∨ (0xffffffffffffffff - c.delta) / 10000000 < t.ticks.toNat then (SfError.invalid.code, m, c)
  else
    let m := sent c t.ticks m op
    let c := c.next
    if t.send m < 0 then (t.send m, m, c)
    else if t.send m ≠ 0 then ((badReply c).1, m, (badReply c).2)
    else awaitReply (t.recv m) op.code c.sequence c 8 0

/-! ## The calls -/

/-- `SfMessage m = {0}` -/
def emptyMessage : SfMessage := ⟨⟨0, 0, 0, 0, 0, 0, 0, 0, 0⟩, 0, 0, 0, 0, 0, zeros⟩

def SfMessage.withPath (m : SfMessage) (p : Path) : SfMessage :=
  { m with data := blit m.data 0 (p ++ [0]), length := p.length + 1 }

/-- `path_message` of a string, if there is one. -/
def pathMessage (m : SfMessage) (path : Option Path) : Option SfMessage :=
  path.bind fun p => if p = [] ∨ messageBytes ≤ p.length then none else some (m.withPath p)

/-- `opened`, on what the exchange left. -/
def opened (x : Int × SfMessage × ClientState) : Int × ClientState :=
  if x.1 < 0 then (x.1, x.2.2)
  else if x.1 ≠ 0 ∨ x.2.1.handle = 0 ∨ 0xffffffff < x.2.1.handle then badReply x.2.2
  else (x.2.1.handle, x.2.2)

def sfFileRoot (t : Transport) (c : ClientState) : Int × ClientState := opened (exchange t c emptyMessage .opRoot false)

def sfFileConsole (t : Transport) (c : ClientState) : Int × ClientState :=
  let m := (pathMessage emptyMessage (some consolePath)).getD emptyMessage
  opened (exchange t c { m with mode := openWrite } .opOpen false)

def sfFileOpenat (t : Transport) (c : ClientState) (h : Nat) (path : Option Path) (mode : Nat) : Int × ClientState :=
  match pathMessage emptyMessage path with
  | none => (SfError.invalid.code, c)
  | some m => opened (exchange t c { m with handle := h, mode := mode } .opOpenat true)

def sfFileDup (t : Transport) (c : ClientState) (h : Nat) : Int × ClientState :=
  let x := exchange t c { emptyMessage with handle := h } .opDup true
  if 0 ≤ x.1 ∧ (x.2.1.handle = h ∨ x.2.1.length ≠ 0 ∨ x.2.1.mode ≠ 0 ∨ x.2.1.offset ≠ 0) then badReply x.2.2 else opened x

/-- The end of a call that fills the buffer `out`, where `checks` are those of the call. -/
def copied (x : Int × SfMessage × ClientState) (n : Nat) (checks : Bool) (out : Option Mem) :
    Int × Option Mem × ClientState :=
  if x.1 < 0 then (x.1, out, x.2.2)
  else if n < x.1.toNat ∨ x.2.1.length ≠ x.1.toNat ∨ checks = false then ((badReply x.2.2).1, out, (badReply x.2.2).2)
  else (x.1, out.map (blit · 0 (slice x.2.1.data 0 x.1.toNat)), x.2.2)

/-- `read_data`; a buffer that is not there is `none`. -/
def readData (t : Transport) (c : ClientState) (h : Nat) (out : Option Mem) (bytes : Nat) (op : FileOp) :
    Int × Option Mem × ClientState :=
  if bytes ≠ 0 ∧ out = none then (SfError.invalid.code, out, c)
  else
    let n := min bytes messageBytes
    copied (exchange t c { emptyMessage with handle := h, length := n } op true) n true out

def sfFileRead (t : Transport) (c : ClientState) (h : Nat) (out : Option Mem) (bytes : Nat) :
    Int × Option Mem × ClientState :=
  readData t c h out bytes .opRead

def sfFileEnumerate (t : Transport) (c : ClientState) (h : Nat) (out : Option Mem) (bytes : Nat) :
    Int × Option Mem × ClientState :=
  readData t c h out bytes .opEnumerate

def sfFilePread (t : Transport) (c : ClientState) (h : Nat) (out : Option Mem) (bytes offset : Nat) :
    Int × Option Mem × ClientState :=
  if bytes ≠ 0 ∧ out = none then (SfError.invalid.code, out, c)
  else
    let n := min bytes messageBytes
    let x := exchange t c { emptyMessage with handle := h, length := n, offset := offset } .opPread true
    copied x n (x.2.1.handle = h ∧ x.2.1.offset = offset ∧ x.2.1.mode = 0) out

def sfFileWrite (t : Transport) (c : ClientState) (h : Nat) (data : Option (List UInt8)) (bytes : Nat) : Int × ClientState :=
  if bytes ≠ 0 ∧ data = none then (SfError.invalid.code, c)
  else
    let n := min bytes messageBytes
    let x := exchange t c
      { emptyMessage with handle := h, length := n, data := blit zeros 0 ((data.getD []).take n) } .opWrite true
    if 0 ≤ x.1 ∧ n < x.1.toNat then badReply x.2.2 else (x.1, x.2.2)

/-- `memcpy(&value, m.data, sizeof(value))` -/
def statOf (data : Mem) : SfFileStat :=
  ⟨load data 0 4, load data 4 4, load data 8 4, load data 12 4, load data 16 8, load data 24 8⟩

def statOk (v : SfFileStat) : Bool :=
  v.bytes = 32 && 1 ≤ v.type && v.type ≤ 5 && v.mode &&& 3 ≠ 0 && v.mode ≤ 15 && v.flags ≤ 7

/-- The end of `sf_file_stat`, on what the exchange left. -/
def described (x : Int × SfMessage × ClientState) (out : Option SfFileStat) : Int × Option SfFileStat × ClientState :=
  if x.1 < 0 then (x.1, out, x.2.2)
  else if x.1 ≠ 0 ∨ x.2.1.length ≠ 32 ∨ statOk (statOf x.2.1.data) = false then ((badReply x.2.2).1, out, (badReply x.2.2).2)
  else (0, some (statOf x.2.1.data), x.2.2)

def sfFileStat (t : Transport) (c : ClientState) (h : Nat) (out : Option SfFileStat) :
    Int × Option SfFileStat × ClientState :=
  if out = none then (SfError.invalid.code, out, c)
  else described (exchange t c { emptyMessage with handle := h } .opStat true) out

def sfFileSeek (t : Transport) (c : ClientState) (h offset : Nat) : Int × ClientState :=
  if 0x7fffffffffffffff < offset then (SfError.invalid.code, c)
  else
    let x := exchange t c { emptyMessage with handle := h, offset := offset } .opSeek true
    if 0 ≤ x.1 ∧ x.1.toNat ≠ offset then badReply x.2.2 else (x.1, x.2.2)

def sfFilePoll (t : Transport) (c : ClientState) (h : Nat) : Int × ClientState :=
  let x := exchange t c { emptyMessage with handle := h } .opPoll true
  if 7 < x.1 then badReply x.2.2 else (x.1, x.2.2)

/-- `mutation`, after its path is in the message. -/
def mutate (t : Transport) (c : ClientState) (m : SfMessage) (op : FileOp) : Int × ClientState :=
  let x := exchange t c m op true
  if 0 < x.1 then badReply x.2.2 else (x.1, x.2.2)

def mutation (t : Transport) (c : ClientState) (h : Nat) (op : FileOp) (offset : Nat) (path : Option Path) :
    Int × ClientState :=
  let m := { emptyMessage with handle := h, offset := offset }
  if path.isSome then
    match pathMessage m path with
    | none => (SfError.invalid.code, c)
    | some m => mutate t c m op
  else if op = .opUnlink ∨ op = .opRmdir then (SfError.invalid.code, c)
  else mutate t c m op

def sfFileClose (t : Transport) (c : ClientState) (h : Nat) : Int × ClientState := mutation t c h .opClose 0 none

def sfFileTruncate (t : Transport) (c : ClientState) (h bytes : Nat) : Int × ClientState :=
  mutation t c h .opTruncate bytes none

def sfFileUnlink (t : Transport) (c : ClientState) (h : Nat) (path : Option Path) : Int × ClientState :=
  mutation t c h .opUnlink 0 path

def sfFileRmdir (t : Transport) (c : ClientState) (h : Nat) (path : Option Path) : Int × ClientState :=
  mutation t c h .opRmdir 0 path

/-! ## The server at the other end -/

/-- The kernel puts the sender into a message. -/
def SfMessage.sentBy (m : SfMessage) (pid : Nat) : SfMessage := { m with h := { m.h with flags := pid } }

/-- The message is handed to the dispatcher as it is, and the reply comes back from process 1. -/
def toServer (b : Backend) (owner root : Nat) (n : SfNamespace) (ticks : Int) : Transport where
  ticks := ticks
  send _ := 0
  recv m _ := (1, (sfFileDispatch b owner root m n).reply.sentBy 1)

/-- A client that was set up and has found nothing wrong, at a time when it can set a deadline. -/
structure Healthy (c : ClientState) (ticks : Int) : Prop where
  manager : c.client.manager ≠ 0
  reply : c.client.reply ≠ 0
  timeout : c.client.timeoutMs ≠ 0 ∧ c.client.timeoutMs ≤ 60000
  error : c.client.error = 0
  sequence : c.sequence < 0xffffffffffffffff
  clock : 0 ≤ ticks ∧ ticks.toNat ≤ (0xffffffffffffffff - c.delta) / 10000000

/-- The handles that the client sends. -/
def Sendable (h : Nat) : Prop := h ≠ 0 ∧ h ≤ 0xffffffff

section Served

variable {b : Backend} {owner root : Nat} {n : SfNamespace} {ticks : Int} {c : ClientState} {m : SfMessage} {op : FileOp}

theorem FileOp.ofCode_code (op : FileOp) : FileOp.ofCode op.code = some op := by cases op <;> rfl

/-- What the dispatcher does with a message of the client. -/
theorem sfFileDispatch_sent (hh : m.handle ≤ 0xffffffff) (hb : m.length ≤ messageBytes) :
    sfFileDispatch b owner root (sent c ticks m op) n = serveOp b owner root (sent c ticks m op) n op := by
  unfold sfFileDispatch
  have hop : FileOp.ofCode (sent c ticks m op).h.opcode = some op := op.ofCode_code
  rw [hop]
  change (if op.onHandle = true ∧ 0xffffffff < m.handle then _ else
    if op.onBytes = true ∧ messageBytes < m.length then _ else _) = _
  rw [if_neg fun h => absurd h.2 (not_lt.2 hh), if_neg fun h => absurd h.2 (not_lt.2 hb)]

/-- **An exchange with the server** gives its reply. -/
theorem exchange_served (b : Backend) (owner root : Nat) (op : FileOp) (handle : Bool) {reply : SfMessage}
    (hc : Healthy c ticks) (hm : handle = true → m.handle ≠ 0)
    (hh : m.handle ≤ 0xffffffff) (hb : m.length ≤ messageBytes)
    (hserved : (serveOp b owner root (sent c ticks m op) n op).reply = reply) (hhead : reply.h = (sent c ticks m op).h)
    (hlen : reply.length ≤ messageBytes) :
    exchange (toServer b owner root n ticks) c m op handle = (reply.status, reply.sentBy 1, c.next) := by
  have hchecks : ¬ (c.client.manager = 0 ∨ c.client.reply = 0 ∨ c.client.timeoutMs = 0 ∨ 60000 < c.client.timeoutMs) := by
    have htimeout := hc.timeout
    simp only [hc.manager, hc.reply, htimeout.1, false_or]
    omega
  have hhandle : ¬ (handle = true ∧ (m.handle = 0 ∨ 0xffffffff < m.handle)) := by
    rintro ⟨h, hbad⟩
    have hne := hm h
    omega
  have hclock : ¬ ((toServer b owner root n ticks).ticks < 0 ∨
      (0xffffffffffffffff - c.delta) / 10000000 < (toServer b owner root n ticks).ticks.toNat) := by
    have h := hc.clock
    simp only [toServer]
    omega
  have hrecv : ∀ k, (toServer b owner root n ticks).recv (sent c ticks m op) k = (1, reply.sentBy 1) := by
    intro k
    rw [← hserved, ← sfFileDispatch_sent hh hb]
    rfl
  have hjudge : judge op.code c.next.sequence 1 (reply.sentBy 1) = .mine := by
    simp [judge, SfMessage.sentBy, hhead, sent, ClientState.next, hlen]
  unfold exchange
  rw [if_neg hchecks, if_neg (not_not.2 hc.error), if_neg hhandle, if_neg hc.sequence.ne, if_neg hclock]
  change awaitReply ((toServer b owner root n ticks).recv (sent c ticks m op)) op.code c.next.sequence c.next 8 0 = _
  unfold awaitReply
  simp only [hrecv, hjudge]
  rfl

end Served

/-! ## What the operations answer -/

/-- An error is a negative code, and a success is as `P` says. -/
def Sane {α : Type} (P : α → Prop) : Except Int α → Prop
  | .ok a => P a
  | .error e => e < 0

section Answers

variable {α : Type} {P : α → Prop} {b : Backend} {owner h : Nat} {n : SfNamespace}

theorem raises_stop (e : SfError) : Raises (· < 0) (stop e : Except Int α) := raises_throw e.code_neg

theorem sane_stop (e : SfError) : Sane P (stop e) := e.code_neg

theorem sane_of_raises {r : Except Int α} (hr : Raises (· < 0) r) (hok : ∀ a, r = .ok a → P a) : Sane P r := by
  cases r with
  | ok a => exact hok a rfl
  | error e => exact hr e rfl

theorem sane_ofStatus {r : Int} {bound : Nat} (hr : r ≤ bound) : Sane (· ≤ bound) (ofStatus r) := by
  unfold ofStatus
  split
  · assumption
  · change r.toNat ≤ bound
    omega

theorem sane_withDescription {f : SlotId → DescId → SfNamespace → Except Int α × SfNamespace}
    (hf : ∀ k d, description n owner h = some (k, d) → Sane P (f k d n).1) : Sane P (withDescription owner h f n).1 := by
  unfold withDescription
  split
  · exact sane_stop _
  · rename_i k d hd
    exact hf k d hd

/-! ### New handles -/

/-- The values that a new handle can have: it is positive as an `int`. -/
def NewHandle (h : Nat) : Prop := 0 < h ∧ h < 2 ^ 31

theorem newHandle_fileHandle {g : Nat} {k : SlotId} (hg : g < 0x7fffff) : NewHandle (fileHandle (g + 1) k) := by
  have hk := k.isLt
  unfold NewHandle fileHandle
  omega

theorem raises_relativePath (base relative : Path) : Raises (· < 0) (relativePath base relative) := by
  unfold relativePath
  refine raises_ite (fun _ => raises_stop _) fun _ => raises_ite (fun _ => raises_stop _) fun _ => ?_
  exact raises_ite (fun _ => raises_ok _) fun _ => raises_stop _

theorem raises_openCheck (owner : Nat) (base path : Path) (mode : Nat) (n : SfNamespace) :
    Raises (· < 0) (openCheck owner base path mode n) := by
  unfold openCheck
  refine raises_ite (fun _ => raises_stop _) fun _ => raises_ite (fun _ => raises_stop _) fun _ => ?_
  split
  · exact raises_stop _
  refine raises_ite (fun _ => raises_stop _) fun _ => ?_
  split
  · exact raises_stop _
  refine raises_ite (fun _ => raises_stop _) fun _ => raises_ite (fun _ => raises_stop _) fun _ => ?_
  split
  · exact raises_stop _
  · exact raises_ok _

theorem sane_handleNew (owner : Nat) (d : DescId) (n : SfNamespace) :
    Sane (fun h => NewHandle h ∧ ∃ k, (n.handles k).description = none ∧ h = fileHandle ((n.handles k).generation + 1) k)
      (handleNew owner d n).1 := by
  rcases handleNew_cases owner d n with hfull | ⟨k, hfree, hroom, hnew⟩
  · rw [hfull]
    exact sane_stop _
  · rw [hnew]
    exact ⟨newHandle_fileHandle hroom, k, hfree, rfl⟩

theorem Sane.imp {Q : α → Prop} {r : Except Int α} (hr : Sane P r) (h : ∀ a, P a → Q a) : Sane Q r := by
  cases r with
  | ok a => exact h a hr
  | error e => exact hr

theorem sane_open (b : Backend) (owner : Nat) (base path : Path) (mode : Nat) (n : SfNamespace) :
    Sane NewHandle (sfNsOpen b owner base path mode n).1 := by
  unfold sfNsOpen checked
  split
  · rename_i e he
    exact raises_openCheck owner base path mode n e he
  rename_i a _
  change Sane NewHandle (openNode b owner mode a.1 a.2 n).1
  unfold openNode
  split
  · exact sane_stop _
  · have hnew := (sane_handleNew owner a.2 (prepare mode a.1 a.2 n)).imp fun _ h => h.1
    split <;> (rename_i heq; rw [heq] at hnew; exact hnew)

theorem sane_openat (b : Backend) (owner directory : Nat) (relative : Path) (mode : Nat) (n : SfNamespace) :
    Sane NewHandle (sfNsOpenat b owner directory relative mode n).1 := by
  refine sane_withDescription fun k d _ => ?_
  split
  · exact sane_stop _
  split
  · exact sane_stop _
  split
  · exact sane_stop _
  split
  · rename_i e he
    exact raises_relativePath _ _ e he
  · exact sane_open b owner _ _ mode n

/-- A duplicate is not the handle that it is a duplicate of. -/
theorem sane_dup (owner h : Nat) (n : SfNamespace) : Sane (fun h' => NewHandle h' ∧ h' ≠ h) (sfNsDup owner h n).1 := by
  refine sane_withDescription fun k d hd => ?_
  refine (sane_handleNew owner d n).imp ?_
  rintro h' ⟨hnew, k', hfree, rfl⟩
  obtain ⟨hheld, -, rfl⟩ := description_some hd
  refine ⟨hnew, ?_⟩
  intro heq
  obtain ⟨-, rfl⟩ := fileHandle_inj heq
  rw [hheld] at hfree
  cases hfree

/-! ### Bytes -/

theorem sane_readExternal (b : Backend) (x : SfNode) (offset bytes room : Nat) :
    Sane (fun bs => bs.length ≤ bytes) (readExternal b x offset bytes room) := by
  unfold readExternal
  split
  · exact sane_stop _
  rename_i f _
  refine sane_of_raises (raises_bind ?_ fun _ _ => raises_ite (fun _ => raises_stop _) fun _ => raises_ok _) ?_
  · intro e he
    unfold ofStatus at he
    split at he
    · cases he
      assumption
    · cases he
  · intro bs hbs
    rw [bind_eq_ok] at hbs
    obtain ⟨count, -, hbs⟩ := hbs
    rw [guard_eq_ok] at hbs
    obtain ⟨hle, hbs⟩ := hbs
    cases hbs
    rw [length_slice]
    omega

theorem sane_read (b : Backend) (owner h bytes : Nat) (n : SfNamespace) :
    Sane (fun bs => bs.length ≤ bytes) (sfNsRead b owner h bytes n).1 := by
  refine sane_withDescription fun k d _ => ?_
  dsimp only
  split
  · exact sane_stop _
  split
  · exact sane_stop _
  · split
    · exact Nat.zero_le _
    · exact sane_stop _
  · split
    · exact Nat.zero_le _
    have hext := sane_readExternal b (n.node d) (n.descriptions d).offset bytes (0xffffffff - (n.descriptions d).offset)
    split <;> (rename_i heq; rw [heq] at hext; exact hext)
  · split
    · exact Nat.zero_le _
    split
    · split
      · exact Nat.zero_le _
      · exact sane_stop _
    · change (ringRead _ _ _).length ≤ bytes
      simp [ringRead]
  · split
    · exact Nat.zero_le _
    · change (slice _ _ _).length ≤ bytes
      simp

theorem sane_pread (b : Backend) (owner h bytes offset : Nat) (n : SfNamespace) :
    Sane (fun bs => bs.length ≤ bytes) (sfNsPread b owner h bytes offset n).1 := by
  refine sane_withDescription fun k d _ => ?_
  dsimp only
  split
  · exact sane_stop _
  split
  · exact sane_stop _
  · exact sane_stop _
  · exact sane_stop _
  · split
    · exact Nat.zero_le _
    · exact sane_readExternal b _ _ _ _
  · split
    · exact Nat.zero_le _
    · change (slice _ _ _).length ≤ bytes
      simp

theorem sane_listNames (size : Nat) : ∀ (names : List Path) (out : List UInt8), out.length ≤ size →
    Sane (fun bs => bs.length ≤ size) (listNames size names out)
  | [], out, hout => hout
  | name :: names, out, hout => by
    unfold listNames
    split
    · split
      · exact sane_stop _
      · exact hout
    · refine sane_listNames size names _ ?_
      simp only [List.length_append, List.length_singleton]
      omega

theorem sane_enumerate (owner h size : Nat) (n : SfNamespace) :
    Sane (fun bs => bs.length ≤ size) (sfNsEnumerate owner h size n).1 := by
  refine sane_withDescription fun k d _ => ?_
  split
  · exact sane_stop _
  split
  · exact sane_stop _
  · exact sane_listNames size _ [] (Nat.zero_le _)

/-- The console takes no more than it is given. -/
def Backend.Modest (b : Backend) : Prop := ∀ f, b.console = some f → ∀ data, f data ≤ data.length

theorem sane_write (hb : b.Modest) (owner h : Nat) (data : List UInt8) (n : SfNamespace) :
    Sane (· ≤ data.length) (sfNsWrite b owner h data n).1 := by
  refine sane_withDescription fun k d _ => ?_
  dsimp only
  split
  · exact sane_stop _
  split
  · exact sane_stop _
  split
  · exact sane_stop _
  split
  · exact Nat.zero_le _
  split
  · split
    · exact sane_stop _
    · rename_i f hf
      exact sane_ofStatus (hb f hf data)
  split
  · unfold writeDisk
    dsimp only
    split
    · exact sane_stop _
    split
    · rename_i e he
      unfold ofStatus at he
      split at he
      · cases he
        assumption
      · cases he
    split
    · exact sane_stop _
    rename_i hle
    change _ ≤ data.length
    omega
  split
  · exact sane_stop _
  split
  · unfold writePipe
    dsimp only
    split
    · exact sane_stop _
    · exact min_le_left _ _
  · unfold writeFile
    dsimp only
    split
    · exact sane_stop _
    · exact min_le_left _ _

/-! ### Codes -/

theorem sane_close (owner h : Nat) (n : SfNamespace) : Sane (fun _ => True) (sfNsClose owner h n).1 :=
  sane_withDescription fun _ _ _ => trivial

theorem sane_truncate (b : Backend) (owner h bytes : Nat) (n : SfNamespace) :
    Sane (fun _ => True) (sfNsTruncate b owner h bytes n).1 := by
  refine sane_withDescription fun k d _ => ?_
  dsimp only
  split
  · exact sane_stop _
  split
  · exact sane_stop _
  split
  · exact sane_stop _
  split
  · exact sane_stop _
  split
  · have hext : Sane (fun _ => True) (truncateExternal b (n.node d) bytes) := by
      unfold truncateExternal
      split
      · exact sane_stop _
      dsimp only
      split
      · trivial
      split
      · exact sane_stop _
      rename_i hzero hpos
      change _ < (0 : Int)
      omega
    split <;> (rename_i heq; rw [heq] at hext; exact hext)
  split
  · exact sane_stop _
  · trivial

theorem raises_openParent (n : SfNamespace) (p : Path) : Raises (· < 0) (openParent n p) := by
  unfold openParent
  split
  · exact raises_stop _
  · exact raises_ite (fun _ => raises_stop _) fun _ => raises_ite (fun _ => raises_stop _) fun _ => raises_ok _

theorem sane_remove (owner directory : Nat) (relative : Path) (kind : NodeType) (n : SfNamespace) :
    Sane (fun _ => True) (removeNode owner directory relative kind n).1 := by
  have hcheck : Raises (· < 0) (removeCheck owner directory relative kind n) := by
    unfold removeCheck
    split
    · exact raises_stop _
    refine raises_ite (fun _ => raises_stop _) fun _ => raises_ite (fun _ => raises_stop _) fun _ => ?_
    refine raises_bind (raises_relativePath _ _) fun path _ => ?_
    refine raises_ite (fun _ => raises_stop _) fun _ =>
      raises_bind (raises_forM fun p => raises_openParent n p) fun _ _ => ?_
    split
    · exact raises_stop _
    refine raises_ite (fun _ => raises_stop _) fun _ => raises_ite (fun _ => raises_stop _) fun _ => ?_
    exact raises_ite (fun _ => raises_stop _) fun _ => raises_ite (fun _ => raises_stop _) fun _ => raises_ok _
  unfold removeNode checked
  split
  · rename_i e he
    exact hcheck e he
  · trivial

theorem sane_seek (owner h offset : Nat) (n : SfNamespace) : Sane (· = offset) (sfNsSeek owner h offset n).1 := by
  refine sane_withDescription fun k d _ => ?_
  dsimp only
  split
  · exact sane_stop _
  split
  · exact sane_stop _
  · rfl

theorem sane_poll (owner h : Nat) (n : SfNamespace) : Sane (· ≤ 7) (sfNsPoll owner h n).1 := by
  refine sane_withDescription fun k d _ => ?_
  change pollMask _ _ ≤ 7
  unfold pollMask
  split_ifs <;> omega

/-- An answer of `sf_ns_stat` passes the checks of the client, and its fields have their widths. -/
theorem sane_stat (hn : Good n) (owner h : Nat) :
    Sane (fun v => statOk v = true ∧ v.size < 2 ^ 64 ∧ v.offset < 2 ^ 64) (sfNsStat owner h n).1 := by
  refine sane_withDescription fun k d hd => ?_
  obtain ⟨hheld, -, -⟩ := description_some hd
  have hlive : Live n d := hn.counted.pos hheld
  obtain ⟨hbits, hmode⟩ := hn.modes hlive
  have htype : ∃ t, (n.node d).type = some t := Option.ne_none_iff_exists'.1 (hn.live hlive)
  obtain ⟨t, ht⟩ := htype
  refine ⟨?_, Nat.mod_lt _ (by decide), Nat.mod_lt _ (by decide)⟩
  have hcode : 1 ≤ t.code ∧ t.code ≤ 5 := by cases t <;> decide
  have hflags : (if (n.node d).readonly then 1 else 0) + (if (n.node d).mountTag = 0 then 0 else 2) +
      (if seekable (n.node d) then 4 else 0) ≤ 7 := by split_ifs <;> omega
  simp [statOk, ht, hcode, hbits, hmode, hflags]

end Answers

/-! ## Agreement -/

/-- A result as the C function returns it. -/
def statusOf {α : Type} (f : α → Int) : Except Int α → Int
  | .ok a => f a
  | .error e => e

/-- The caller's buffer after a call: the bytes of a success are in front, a failure leaves it. -/
def delivered (out : Option Mem) : Except Int (List UInt8) → Option Mem
  | .ok bs => out.map (blit · 0 bs)
  | .error _ => out

/-- The strings that the client sends. -/
def SendablePath (p : Path) : Prop := p ≠ [] ∧ p.length < messageBytes ∧ ∀ x ∈ p, x ≠ 0

/-- **Client and server agree** on every call: the result is that of the operation, the buffer has the bytes of the
operation, and the client has found nothing wrong. -/
structure Agree (t : Transport) (b : Backend) (owner root : Nat) (n : SfNamespace) (c : ClientState) : Prop where
  root : sfFileRoot t c = (if root = 0 then SfError.denied.code else root, c.next)
  console : sfFileConsole t c = (statusOf Int.ofNat (sfNsOpen b owner rootPath consolePath openWrite n).1, c.next)
  openat : ∀ h path mode, Sendable h → SendablePath path →
    sfFileOpenat t c h (some path) mode = (statusOf Int.ofNat (sfNsOpenat b owner h path mode n).1, c.next)
  dup : ∀ h, Sendable h → sfFileDup t c h = (statusOf Int.ofNat (sfNsDup owner h n).1, c.next)
  read : ∀ h out bytes, Sendable h → (bytes = 0 ∨ out ≠ none) → sfFileRead t c h out bytes =
    (statusOf (fun bs => bs.length) (sfNsRead b owner h (min bytes messageBytes) n).1,
      delivered out (sfNsRead b owner h (min bytes messageBytes) n).1, c.next)
  pread : ∀ h out bytes offset, Sendable h → (bytes = 0 ∨ out ≠ none) → sfFilePread t c h out bytes offset =
    (statusOf (fun bs => bs.length) (sfNsPread b owner h (min bytes messageBytes) offset n).1,
      delivered out (sfNsPread b owner h (min bytes messageBytes) offset n).1, c.next)
  write : ∀ h data bytes, Sendable h → bytes = (data.getD []).length → sfFileWrite t c h data bytes =
    (statusOf Int.ofNat (sfNsWrite b owner h ((data.getD []).take messageBytes) n).1, c.next)
  enumerate : ∀ h out bytes, Sendable h → (bytes = 0 ∨ out ≠ none) → sfFileEnumerate t c h out bytes =
    (statusOf (fun bs => bs.length) (sfNsEnumerate owner h (min bytes messageBytes) n).1,
      delivered out (sfNsEnumerate owner h (min bytes messageBytes) n).1, c.next)
  stat : ∀ h old, Sendable h → sfFileStat t c h (some old) =
    (statusOf (fun _ => 0) (sfNsStat owner h n).1, some ((sfNsStat owner h n).1.toOption.getD old), c.next)
  seek : ∀ h offset, Sendable h → offset ≤ 0x7fffffffffffffff →
    sfFileSeek t c h offset = (statusOf Int.ofNat (sfNsSeek owner h offset n).1, c.next)
  poll : ∀ h, Sendable h → sfFilePoll t c h = (statusOf Int.ofNat (sfNsPoll owner h n).1, c.next)
  close : ∀ h, Sendable h → sfFileClose t c h = (statusOf (fun _ => 0) (sfNsClose owner h n).1, c.next)
  truncate : ∀ h bytes, Sendable h → sfFileTruncate t c h bytes =
    (statusOf (fun _ => 0) (sfNsTruncate b owner h bytes n).1, c.next)
  unlink : ∀ h path, Sendable h → SendablePath path →
    sfFileUnlink t c h (some path) = (statusOf (fun _ => 0) (sfNsUnlink owner h path n).1, c.next)
  rmdir : ∀ h path, Sendable h → SendablePath path →
    sfFileRmdir t c h (some path) = (statusOf (fun _ => 0) (sfNsRmdir owner h path n).1, c.next)

section Agreement

variable {b : Backend} {owner root h : Nat} {n : SfNamespace} {ticks : Int} {c : ClientState} {m : SfMessage}
  {path : Path} {r : Except Int (List UInt8)} {op : FileOp}

/-! ### Replies -/

theorem opened_ok (hm : Sendable m.handle) (c : ClientState) : opened (0, m, c) = ((m.handle : Int), c) := by
  obtain ⟨hzero, hle⟩ := hm
  have hchecks : ¬ ((0 : Int) ≠ 0 ∨ m.handle = 0 ∨ 0xffffffff < m.handle) := by omega
  exact (if_neg (lt_irrefl _)).trans (if_neg hchecks)

theorem NewHandle.sendable {h : Nat} (hh : NewHandle h) : Sendable h := by
  obtain ⟨hpos, hlt⟩ := hh
  exact ⟨by omega, by omega⟩

theorem opened_reply {r : Except Int Nat} (hr : Sane NewHandle r) (c : ClientState) :
    opened ((m.opened r).status, (m.opened r).sentBy 1, c) = (statusOf Int.ofNat r, c) := by
  cases r with
  | error e => exact if_pos hr
  | ok v =>
    have hv : NewHandle v := hr
    exact opened_ok (m := (m.opened (.ok v)).sentBy 1) hv.sendable c

theorem copied_reply {size : Nat} (hr : Sane (fun bs => bs.length ≤ size) r) (c : ClientState)
    (out : Option Mem) : copied ((m.filled r).status, (m.filled r).sentBy 1, c) size true out =
      (statusOf (fun bs => bs.length) r, delivered out r, c) := by
  cases r with
  | error e => exact if_pos hr
  | ok bs =>
    have hle : bs.length ≤ size := hr
    simp only [copied, SfMessage.filled, SfMessage.sentBy, statusOf, delivered, Int.toNat_natCast, slice_blit_self]
    rw [if_neg (by omega), if_neg (by simp; omega)]

theorem pathMessage_some (hp : SendablePath path) : pathMessage m (some path) = some (m.withPath path) := by
  obtain ⟨hne, hlen, -⟩ := hp
  exact if_neg (by simp only [not_or]; exact ⟨hne, by omega⟩)

/-- The server reads the string that the client has put into the message. -/
theorem messageText_path (hp : SendablePath path) (hdata : m.data = blit zeros 0 (path ++ [0]))
    (hlen : m.length = path.length + 1) :
    messageText m = some path := by
  obtain ⟨-, hlt, hzero⟩ := hp
  have hlast : m.data path.length = 0 := by
    rw [hdata, ← Nat.zero_add path.length, blit_of_mem (by simp)]
    simp
  have htext : slice m.data 0 path.length = path := by
    have hpart := slice_blit zeros 0 (path ++ [0]) (a := 0) (k := path.length) (by simp)
    rw [hdata]
    simpa using hpart
  unfold messageText
  simp only [hlen, Nat.add_sub_cancel, hlast, htext]
  rw [if_neg (by unfold messageBytes at *; simp; omega), if_pos]
  simpa using hzero

/-! ### The calls -/

theorem head_opened (m : SfMessage) (r : Except Int Nat) : (m.opened r).h = m.h ∧ (m.opened r).length = m.length := by
  cases r <;> exact ⟨rfl, rfl⟩

theorem head_done (m : SfMessage) (r : Except Int Unit) : (m.done r).h = m.h ∧ (m.done r).length = m.length := by
  cases r <;> exact ⟨rfl, rfl⟩

theorem head_counted (m : SfMessage) (r : Except Int Nat) : (m.counted r).h = m.h ∧ (m.counted r).length = m.length := by
  cases r <;> exact ⟨rfl, rfl⟩

theorem head_filled {size : Nat} (hr : Sane (fun bs => bs.length ≤ size) r)
    (hm : m.length ≤ size) :
    (m.filled r).h = m.h ∧ (m.filled r).length ≤ size := by
  cases r with
  | ok bs => exact ⟨rfl, hr⟩
  | error e => exact ⟨rfl, hm⟩

theorem agree_root (hc : Healthy c ticks) (hroot : root ≤ 0xffffffff) :
    sfFileRoot (toServer b owner root n ticks) c = (if root = 0 then SfError.denied.code else root, c.next) := by
  have hx := exchange_served b owner root .opRoot false (n := n) (m := emptyMessage)
    hc nofun (Nat.zero_le _) (Nat.zero_le _) rfl rfl (Nat.zero_le _)
  unfold sfFileRoot
  rw [hx]
  by_cases h : root = 0
  · subst h
    rfl
  have hstatus : (serveOp b owner root (sent c ticks emptyMessage .opRoot) n .opRoot).reply.status = 0 := if_pos h
  rw [hstatus, if_neg h]
  exact opened_ok ⟨h, hroot⟩ c.next

theorem sendable_consolePath : SendablePath consolePath := ⟨by decide, by decide, by simp [consolePath]⟩

theorem agree_console (hc : Healthy c ticks) : sfFileConsole (toServer b owner root n ticks) c =
    (statusOf Int.ofNat (sfNsOpen b owner rootPath consolePath openWrite n).1, c.next) := by
  obtain ⟨m, hcall, hzero, hdata, hlength, hmode⟩ : ∃ m, sfFileConsole (toServer b owner root n ticks) c =
      opened (exchange (toServer b owner root n ticks) c m .opOpen false) ∧ m.handle = 0 ∧
        m.data = blit zeros 0 (consolePath ++ [0]) ∧ m.length = consolePath.length + 1 ∧ m.mode = openWrite := by
    unfold sfFileConsole
    rw [pathMessage_some sendable_consolePath]
    exact ⟨_, rfl, rfl, rfl, rfl, rfl⟩
  have hserved : (serveOp b owner root (sent c ticks m .opOpen) n .opOpen).reply =
      (sent c ticks m .opOpen).opened (sfNsOpen b owner rootPath consolePath openWrite n).1 := by
    have hmode' : (sent c ticks m .opOpen).mode = openWrite := hmode
    simp only [serveOp, messageText_path (m := sent c ticks m .opOpen) sendable_consolePath hdata hlength, hmode', ne_eq,
      not_true_eq_false, or_self, if_false]
  obtain ⟨hhead, hlen⟩ := head_opened (sent c ticks m .opOpen) (sfNsOpen b owner rootPath consolePath openWrite n).1
  have hshort : m.length ≤ messageBytes := hlength.trans_le (by decide)
  have hx := exchange_served b owner root _ false hc (by rintro ⟨⟩) (by omega) hshort hserved hhead (hlen.trans_le hshort)
  rw [hcall, hx]
  exact opened_reply (sane_open b owner _ _ _ n) _

theorem SendablePath.length_le (hp : SendablePath path) : path.length + 1 ≤ messageBytes := hp.2.1

section

variable (hc : Healthy c ticks) (hh : Sendable h)

include hc hh

theorem agree_openat (hp : SendablePath path) (mode : Nat) :
    sfFileOpenat (toServer b owner root n ticks) c h (some path) mode =
      (statusOf Int.ofNat (sfNsOpenat b owner h path mode n).1, c.next) := by
  unfold sfFileOpenat
  rw [pathMessage_some hp]
  have hserved : (serveOp b owner root
    (sent c ticks { emptyMessage.withPath path with handle := h, mode := mode } .opOpenat) n
      .opOpenat).reply = (sent c ticks { emptyMessage.withPath path with handle := h, mode := mode } .opOpenat).opened
        (sfNsOpenat b owner h path mode n).1 := by
    simp only [serveOp]
    rw [messageText_path hp rfl rfl]
    rfl
  obtain ⟨hhead, hlen⟩ := head_opened (sent c ticks { emptyMessage.withPath path with handle := h, mode := mode } .opOpenat)
    (sfNsOpenat b owner h path mode n).1
  have hx := exchange_served b owner root _ true hc (fun _ => hh.1) hh.2 hp.length_le hserved hhead
    (hlen.trans_le hp.length_le)
  dsimp only
  rw [hx]
  exact opened_reply (sane_openat b owner h path mode n) _

theorem agree_dup :
    sfFileDup (toServer b owner root n ticks) c h = (statusOf Int.ofNat (sfNsDup owner h n).1, c.next) := by
  have hserved : (serveOp b owner root (sent c ticks { emptyMessage with handle := h } .opDup) n .opDup).reply =
      (sent c ticks { emptyMessage with handle := h } .opDup).opened (sfNsDup owner h n).1 := rfl
  obtain ⟨hhead, hlen⟩ := head_opened (sent c ticks { emptyMessage with handle := h } .opDup) (sfNsDup owner h n).1
  have hx := exchange_served b owner root _ true hc (fun _ => hh.1) hh.2 (Nat.zero_le _) hserved hhead
    (hlen.trans_le (Nat.zero_le _))
  have hsane := sane_dup owner h n
  unfold sfFileDup
  rw [hx]
  dsimp only
  rw [if_neg, opened_reply (hsane.imp fun _ ha => ha.1)]
  -- the reply of a success has a new handle and nothing else
  cases hr : (sfNsDup owner h n).1 with
  | error e =>
    rw [hr] at hsane
    exact fun hbad => absurd hbad.1 (not_le.2 hsane)
  | ok v =>
    rw [hr] at hsane
    rintro ⟨-, hbad⟩
    simp [SfMessage.opened, SfMessage.sentBy, sent, emptyMessage, hsane.2] at hbad

theorem agree_readData {out : Option Mem} {bytes : Nat} (hout : bytes = 0 ∨ out ≠ none)
    (hr : Sane (fun bs => bs.length ≤ min bytes messageBytes) r)
    (hserved : ∀ m : SfMessage, m.handle = h → m.length = min bytes messageBytes →
      (serveOp b owner root m n op).reply = m.filled r) :
    readData (toServer b owner root n ticks) c h out bytes op =
      (statusOf (fun bs => bs.length) r, delivered out r, c.next) := by
  have hshort : min bytes messageBytes ≤ messageBytes := min_le_right _ _
  obtain ⟨hhead, hlen⟩ := head_filled
    (m := sent c ticks { emptyMessage with handle := h, length := min bytes messageBytes } op) hr le_rfl
  have hx := exchange_served b owner root _ true hc (fun _ => hh.1) hh.2 hshort
    (hserved (sent c ticks { emptyMessage with handle := h, length := min bytes messageBytes } op) rfl rfl) hhead
    (hlen.trans hshort)
  unfold readData
  rw [if_neg (by tauto)]
  dsimp only
  rw [hx]
  exact copied_reply hr c.next out

theorem agree_pread (out : Option Mem) {bytes : Nat} (offset : Nat)
    (hout : bytes = 0 ∨ out ≠ none) : sfFilePread (toServer b owner root n ticks) c h out bytes offset =
      (statusOf (fun bs => bs.length) (sfNsPread b owner h (min bytes messageBytes) offset n).1,
        delivered out (sfNsPread b owner h (min bytes messageBytes) offset n).1, c.next) := by
  have hr := sane_pread b owner h (min bytes messageBytes) offset n
  have hshort : min bytes messageBytes ≤ messageBytes := min_le_right _ _
  obtain ⟨m, hcall, rfl, hlength, rfl, hmode⟩ : ∃ m, sfFilePread (toServer b owner root n ticks) c h out bytes offset =
      copied (exchange (toServer b owner root n ticks) c m .opPread true) (min bytes messageBytes)
        ((exchange (toServer b owner root n ticks) c m .opPread true).2.1.handle = h ∧
          (exchange (toServer b owner root n ticks) c m .opPread true).2.1.offset = offset ∧
          (exchange (toServer b owner root n ticks) c m .opPread true).2.1.mode = 0) out ∧
      m.handle = h ∧ m.length = min bytes messageBytes ∧ m.offset = offset ∧ m.mode = 0 :=
    ⟨_, if_neg (by tauto), rfl, rfl, rfl, rfl⟩
  have hserved : (serveOp b owner root (sent c ticks m .opPread) n .opPread).reply =
      (sent c ticks m .opPread).filled (sfNsPread b owner m.handle (min bytes messageBytes) m.offset n).1 := by
    have hmode' : (sent c ticks m .opPread).mode = 0 := hmode
    simp only [serveOp, hmode', ne_eq, not_true_eq_false, if_false]
    rw [← hlength]
    rfl
  obtain ⟨hhead, hlen⟩ := head_filled (m := sent c ticks m .opPread) hr hlength.le
  have hx := exchange_served b owner root _ true hc (fun _ => hh.1) hh.2 (hlength.trans_le hshort) hserved hhead
    (hlen.trans hshort)
  rw [hcall, hx, ← copied_reply hr c.next out (m := sent c ticks m .opPread)]
  -- the reply has the handle, the position and the mode of the request
  congr 1
  generalize (sfNsPread b owner m.handle (min bytes messageBytes) m.offset n).1 = r
  cases r <;> simp [SfMessage.filled, SfMessage.sentBy, sent, hmode]

end

theorem agree_counted (b : Backend) (owner root : Nat) (op : FileOp) {r : Except Int Nat} {P : Nat → Prop}
    (hc : Healthy c ticks) (hm : Sendable m.handle) (hb : m.length ≤ messageBytes) (hr : Sane P r)
    (hserved : (serveOp b owner root (sent c ticks m op) n op).reply = (sent c ticks m op).counted r) :
    (exchange (toServer b owner root n ticks) c m op true).1 = statusOf Int.ofNat r ∧
      (exchange (toServer b owner root n ticks) c m op true).2.2 = c.next ∧
      (0 ≤ statusOf Int.ofNat r → P (statusOf Int.ofNat r).toNat) := by
  obtain ⟨hhead, hlen⟩ := head_counted (sent c ticks m op) r
  have hx := exchange_served b owner root _ true hc (fun _ => hm.1) hm.2 hb hserved hhead (hlen.trans_le hb)
  rw [hx]
  cases r with
  | ok v => exact ⟨rfl, rfl, fun _ => hr⟩
  | error e => exact ⟨rfl, rfl, fun hpos => absurd hpos (not_le.2 hr)⟩

theorem agree_write (hc : Healthy c ticks) (hb : b.Modest) (hh : Sendable h) (data : Option (List UInt8)) :
    sfFileWrite (toServer b owner root n ticks) c h data (data.getD []).length =
      (statusOf Int.ofNat (sfNsWrite b owner h ((data.getD []).take messageBytes) n).1, c.next) := by
  obtain ⟨size, hsize⟩ : ∃ size, size = min (data.getD []).length messageBytes := ⟨_, rfl⟩
  have htake : (data.getD []).take size = (data.getD []).take messageBytes := by
    rw [hsize, min_comm, ← List.take_take, List.take_length]
  have hlength : ((data.getD []).take messageBytes).length = size := by rw [List.length_take, hsize, min_comm]
  obtain ⟨m, hcall, rfl, hbytes, hdata⟩ : ∃ m, sfFileWrite (toServer b owner root n ticks) c h data (data.getD []).length =
      (if 0 ≤ (exchange (toServer b owner root n ticks) c m .opWrite true).1 ∧
          size < (exchange (toServer b owner root n ticks) c m .opWrite true).1.toNat
        then badReply (exchange (toServer b owner root n ticks) c m .opWrite true).2.2
        else ((exchange (toServer b owner root n ticks) c m .opWrite true).1,
          (exchange (toServer b owner root n ticks) c m .opWrite true).2.2)) ∧
      m.handle = h ∧ m.length = size ∧ m.data = blit zeros 0 ((data.getD []).take messageBytes) := by
    rw [← htake, hsize]
    refine ⟨_, if_neg ?_, rfl, rfl, rfl⟩
    rintro ⟨hne, rfl⟩
    exact hne rfl
  have hslice : slice m.data 0 m.length = (data.getD []).take messageBytes := by
    rw [hdata, hbytes, ← hlength, slice_blit_self]
  obtain ⟨hresult, hclient, hP⟩ := agree_counted b owner root .opWrite hc hh
    (by rw [hbytes, hsize]; exact min_le_right _ _) (sane_write hb owner m.handle (slice m.data 0 m.length) n) rfl
  rw [hcall, hresult, hclient, hslice, if_neg]
  rintro ⟨hpos, hlt⟩
  rw [hslice, hlength] at hP
  exact absurd hlt (not_lt.2 (hP hpos))

theorem agree_seek (hc : Healthy c ticks) (hh : Sendable h) {offset : Nat} (hoff : offset ≤ 0x7fffffffffffffff) :
    sfFileSeek (toServer b owner root n ticks) c h offset = (statusOf Int.ofNat (sfNsSeek owner h offset n).1, c.next) := by
  obtain ⟨hresult, hclient, hP⟩ := agree_counted b owner root .opSeek
    (m := { emptyMessage with handle := h, offset := offset }) hc hh (Nat.zero_le _) (sane_seek owner h offset n) rfl
  unfold sfFileSeek
  rw [if_neg (by omega)]
  dsimp only
  rw [hresult, hclient, if_neg]
  rintro ⟨hpos, hne⟩
  exact hne (hP hpos)

theorem agree_poll (hc : Healthy c ticks) (hh : Sendable h) :
    sfFilePoll (toServer b owner root n ticks) c h = (statusOf Int.ofNat (sfNsPoll owner h n).1, c.next) := by
  obtain ⟨hresult, hclient, hP⟩ := agree_counted b owner root .opPoll
    (m := { emptyMessage with handle := h }) hc hh (Nat.zero_le _) (sane_poll owner h n) rfl
  unfold sfFilePoll
  dsimp only
  rw [hresult, hclient, if_neg]
  intro hbig
  have hle := hP (by omega)
  omega

theorem load_blit {m : Mem} {bs : List UInt8} {a k v : Nat} (ha : a + k ≤ bs.length) (hv : v < 256 ^ k)
    (hpart : (bs.drop a).take k = toLe k v) : load (blit m 0 bs) a k = v := by
  have hs := slice_blit m 0 bs ha
  rw [Nat.zero_add] at hs
  rw [load, hs, hpart, le_toLe hv]

/-- The fields of an answer come through the message. -/
theorem statOf_statBytes (m : Mem) {v : SfFileStat} (hv : statOk v = true) (hsize : v.size < 2 ^ 64)
    (hoff : v.offset < 2 ^ 64) :
    statOf (blit m 0 (statBytes v)) = v := by
  simp only [statOk, Bool.and_eq_true, decide_eq_true_eq] at hv
  obtain ⟨⟨⟨⟨⟨hbytes, -⟩, htype⟩, -⟩, hmode⟩, hflags⟩ := hv
  have hlen : (statBytes v).length = 32 := by simp [statBytes]
  unfold statOf
  rw [load_blit (v := v.bytes) (by omega) (by omega), load_blit (v := v.type) (by omega) (by omega),
    load_blit (v := v.mode) (by omega) (by omega), load_blit (v := v.flags) (by omega) (by omega),
    load_blit (v := v.size) (by omega) (by omega), load_blit (v := v.offset) (by omega) (by omega)]
  all_goals simp [statBytes, toLe]

theorem described_ok {out : Option SfFileStat} (hlen : m.length = 32) (hok : statOk (statOf m.data) = true)
    (c : ClientState) :
    described (0, m, c) out = (0, some (statOf m.data), c) := by
  have hchecks : ¬ ((0 : Int) ≠ 0 ∨ m.length ≠ 32 ∨ statOk (statOf m.data) = false) := by simp [hlen, hok]
  exact (if_neg (lt_irrefl _)).trans (if_neg hchecks)

theorem agree_stat (hc : Healthy c ticks) (hn : Good n) (hh : Sendable h) (old : SfFileStat) :
    sfFileStat (toServer b owner root n ticks) c h (some old) =
      (statusOf (fun _ => 0) (sfNsStat owner h n).1, some ((sfNsStat owner h n).1.toOption.getD old), c.next) := by
  have hr := sane_stat hn owner h
  have hserved : (serveOp b owner root (sent c ticks { emptyMessage with handle := h } .opStat) n .opStat).reply =
      (sent c ticks { emptyMessage with handle := h } .opStat).described (sfNsStat owner h n).1 := rfl
  have hcall : sfFileStat (toServer b owner root n ticks) c h (some old) =
      described (exchange (toServer b owner root n ticks) c { emptyMessage with handle := h } .opStat true)
        (some old) := if_neg nofun
  generalize (sfNsStat owner h n).1 = r at hr hserved ⊢
  cases r with
  | error e =>
    have hx := exchange_served b owner root _ true hc (fun _ => hh.1) hh.2 (Nat.zero_le _) hserved rfl (Nat.zero_le _)
    rw [hcall, hx]
    exact if_pos hr
  | ok v =>
    obtain ⟨hok, hsize, hoff⟩ := hr
    have hvalue := statOf_statBytes zeros hok hsize hoff
    have hx := exchange_served b owner root _ true hc (fun _ => hh.1) hh.2 (Nat.zero_le _) hserved rfl
      (show 32 ≤ messageBytes by decide)
    rw [hcall, hx]
    refine (described_ok rfl ?_ c.next).trans ?_
    · rw [← hvalue] at hok
      exact hok
    · exact congrArg (fun x => ((0 : Int), some x, c.next)) hvalue

theorem agree_mutate {r : Except Int Unit} (hc : Healthy c ticks) (hm : Sendable m.handle)
    (hb : m.length ≤ messageBytes) (hr : Sane (fun _ => True) r)
    (hserved : (serveOp b owner root (sent c ticks m op) n op).reply = (sent c ticks m op).done r) :
    mutate (toServer b owner root n ticks) c m op = (statusOf (fun _ => 0) r, c.next) := by
  obtain ⟨hhead, hlen⟩ := head_done (sent c ticks m op) r
  have hx := exchange_served b owner root _ true hc (fun _ => hm.1) hm.2 hb hserved hhead (hlen.trans_le hb)
  unfold mutate
  rw [hx]
  cases r with
  | ok u => rfl
  | error e => exact if_neg (not_lt.2 (le_of_lt hr))

theorem agree_mutation_path {r : Except Int Unit} (hc : Healthy c ticks) (hh : Sendable h)
    (hp : SendablePath path) (hr : Sane (fun _ => True) r)
    (hserved : ∀ m : SfMessage, m.handle = h → messageText m = some path → (serveOp b owner root m n op).reply = m.done r) :
    mutation (toServer b owner root n ticks) c h op 0 (some path) = (statusOf (fun _ => 0) r, c.next) := by
  unfold mutation
  dsimp only
  rw [if_pos (show (some path).isSome = true from rfl), pathMessage_some hp]
  exact agree_mutate hc hh hp.length_le hr (hserved _ rfl (messageText_path hp rfl rfl))

/-- **The client and the server agree.** In every reachable state of the namespace, for every process and every root
handle, a client that is healthy stays healthy and gets from each call what the operation answers. -/
theorem client_agrees {s : Service} (reachable : Reachable s) (healthy : Healthy c ticks) (modest : b.Modest)
    (word : root ≤ 0xffffffff) : Agree (toServer b owner root s.ns ticks) b owner root s.ns c where
  root := agree_root healthy word
  console := agree_console healthy
  openat _ _ mode hh hp := agree_openat healthy hh hp mode
  dup _ hh := agree_dup healthy hh
  read _ _ _ hh hout := by
    refine agree_readData healthy hh hout (sane_read b owner _ _ s.ns) ?_
    rintro m rfl hlen
    rw [← hlen]
    rfl
  pread _ out _ offset hh hout := agree_pread healthy hh out offset hout
  write _ data _ hh hbytes := by
    rw [hbytes]
    exact agree_write healthy modest hh data
  enumerate _ _ _ hh hout := by
    refine agree_readData healthy hh hout (sane_enumerate owner _ _ s.ns) ?_
    rintro m rfl hlen
    rw [← hlen]
    rfl
  stat _ old hh := agree_stat healthy (reachable_fit reachable).good hh old
  seek _ _ hh hoff := agree_seek healthy hh hoff
  poll _ hh := agree_poll healthy hh
  close h hh := agree_mutate (m := { emptyMessage with handle := h }) healthy hh (Nat.zero_le _)
    (sane_close owner h s.ns) rfl
  truncate h bytes hh := agree_mutate (m := { emptyMessage with handle := h, offset := bytes }) healthy hh (Nat.zero_le _)
    (sane_truncate b owner h bytes s.ns) rfl
  unlink _ _ hh hp := by
    refine agree_mutation_path healthy hh hp (sane_remove owner _ _ .file s.ns) ?_
    rintro m rfl htext
    simp only [serveOp, htext]
  rmdir _ _ hh hp := by
    refine agree_mutation_path healthy hh hp (sane_remove owner _ _ .dir s.ns) ?_
    rintro m rfl htext
    simp only [serveOp, htext]

/-- A client with no requests yet. -/
def freshClient : ClientState := ⟨⟨257, 258, 1000, 0⟩, 0⟩

/-- The process that has the pipe open writes three bytes to it. -/
theorem client_agrees_pipe : Healthy freshClient 0 ∧
    Agree (toServer bareBackend 1 0 pipeNamespace 0) bareBackend 1 0 pipeNamespace freshClient ∧
    sfFileWrite (toServer bareBackend 1 0 pipeNamespace 0) freshClient 257 (some [1, 2, 3]) 3 = (3, freshClient.next) := by
  have hhealthy : Healthy freshClient 0 :=
    ⟨by decide, by decide, ⟨by decide, by decide⟩, rfl, by decide, ⟨le_rfl, Nat.zero_le _⟩⟩
  have hagree := @client_agrees bareBackend 1 0 0 freshClient _ pipe_reachable hhealthy nofun (Nat.zero_le 0xffffffff)
  have hwritten : statusOf Int.ofNat (sfNsWrite bareBackend 1 257 ([1, 2, 3].take messageBytes) pipeNamespace).1 = 3 := by
    decide +kernel
  refine ⟨hhealthy, hagree, (hagree.write 257 (some [1, 2, 3]) 3 ⟨by decide, by decide⟩ rfl).trans ?_⟩
  exact congrArg (·, freshClient.next) hwritten

end Agreement

end SpiritFox.Ns
