import SpiritFox.Ns.Effects

/-!
# Requests over messages

`sf_file_dispatch` of `services/file_rpc.c`, which turns a message of a process into a call of the namespace and the
answer into the reply. Handles are 64 bits wide on the wire; one that does not fit in 32 is refused before anything
else.
-/

namespace SpiritFox.Ns

open ByteMem

structure SfIpcHeader where
  size : Nat
  protocolMajor : Nat
  protocolMinor : Nat
  opcode : Nat
  flags : Nat
  requestId : Nat
  payloadBytes : Nat
  capCount : Nat
  deadline : Nat
  deriving DecidableEq

structure SfMessage where
  h : SfIpcHeader
  status : Int
  handle : Nat
  offset : Nat
  length : Nat
  mode : Nat
  data : Mem

/-- `sizeof(m->data)` -/
def messageBytes : Nat := 256

inductive FileOp where
  | opOpen
  | opRead
  | opWrite
  | opClose
  | opSeek
  | opPoll
  | opEnumerate
  | opOpenat
  | opRoot
  | opTruncate
  | opUnlink
  | opStat
  | opRmdir
  | opDup
  | opPread
  deriving DecidableEq, Repr

/-- The numbers of `include/sf.h`; `OP_CREATE` and `OP_DESCRIBE` have no case. -/
def FileOp.code : FileOp → Nat
  | .opOpen => 10
  | .opRead => 11
  | .opWrite => 12
  | .opClose => 13
  | .opSeek => 14
  | .opPoll => 15
  | .opEnumerate => 18
  | .opOpenat => 19
  | .opRoot => 20
  | .opTruncate => 21
  | .opUnlink => 22
  | .opStat => 23
  | .opRmdir => 24
  | .opDup => 25
  | .opPread => 26

def FileOp.ofCode : Nat → Option FileOp
  | 10 => some .opOpen
  | 11 => some .opRead
  | 12 => some .opWrite
  | 13 => some .opClose
  | 14 => some .opSeek
  | 15 => some .opPoll
  | 18 => some .opEnumerate
  | 19 => some .opOpenat
  | 20 => some .opRoot
  | 21 => some .opTruncate
  | 22 => some .opUnlink
  | 23 => some .opStat
  | 24 => some .opRmdir
  | 25 => some .opDup
  | 26 => some .opPread
  | _ => none

/-- The operations that take a handle. -/
def FileOp.onHandle : FileOp → Bool
  | .opOpen | .opRoot => false
  | _ => true

/-- The operations whose length is a count of bytes. -/
def FileOp.onBytes : FileOp → Bool
  | .opRead | .opWrite | .opEnumerate | .opPread => true
  | _ => false

/-- `"/dev/console"` -/
def consolePath : Path := [47, 100, 101, 118, 47, 99, 111, 110, 115, 111, 108, 101]

/-- The string of a message, if it ends where its length says and nowhere before. -/
def messageText (m : SfMessage) : Option Path :=
  if m.length = 0 ∨ messageBytes < m.length ∨ m.data (m.length - 1) ≠ 0 then none
  else
    let text := slice m.data 0 (m.length - 1)
    if text.all (· ≠ 0) then some text else none

/-- `memcpy(m->data, &info, sizeof(info))` -/
def statBytes (info : SfFileStat) : List UInt8 :=
  toLe 4 info.bytes ++ toLe 4 info.type ++ toLe 4 info.mode ++ toLe 4 info.flags ++ toLe 8 info.size ++ toLe 8 info.offset

/-- What the dispatcher leaves: the reply, `*root` and the namespace. -/
structure Served where
  reply : SfMessage
  root : Nat
  ns : SfNamespace

namespace SfMessage

variable (m : SfMessage)

/-- The reply of a call that returns a code only. -/
def done : Except Int Unit → SfMessage
  | .ok () => { m with status := 0 }
  | .error e => { m with status := e }

/-- The reply of a call that returns a number. -/
def counted : Except Int Nat → SfMessage
  | .ok v => { m with status := v }
  | .error e => { m with status := e }

/-- The reply of a call that returns a handle. -/
def opened : Except Int Nat → SfMessage
  | .ok h => { m with handle := h, status := 0 }
  | .error e => { m with status := e }

/-- The reply of a call that leaves bytes in the message. -/
def filled : Except Int (List UInt8) → SfMessage
  | .ok bs => { m with length := bs.length, status := bs.length, data := blit m.data 0 bs }
  | .error e => { m with status := e }

/-- The reply of `OP_STAT`; the length is cleared first. -/
def described : Except Int SfFileStat → SfMessage
  | .ok info => { m with length := 32, status := 0, data := blit m.data 0 (statBytes info) }
  | .error e => { m with length := 0, status := e }

def refused (e : SfError) : SfMessage := { m with status := e.code }

end SfMessage

/-- The cases of the dispatcher. -/
def serveOp (b : Backend) (owner root : Nat) (m : SfMessage) (n : SfNamespace) : FileOp → Served
  | .opPread =>
    if m.mode ≠ 0 then ⟨m.refused .invalid, root, n⟩
    else
      let (r, n') := sfNsPread b owner m.handle m.length m.offset n
      ⟨m.filled r, root, n'⟩
  | .opDup =>
    if m.length ≠ 0 ∨ m.mode ≠ 0 ∨ m.offset ≠ 0 then ⟨m.refused .invalid, root, n⟩
    else
      let (r, n') := sfNsDup owner m.handle n
      ⟨m.opened r, root, n'⟩
  | .opStat =>
    if m.length ≠ 0 then ⟨{ m with length := 0 }.refused .invalid, root, n⟩
    else
      let (r, n') := sfNsStat owner m.handle n
      ⟨m.described r, root, n'⟩
  | .opRoot => ⟨{ m with handle := root, status := if root ≠ 0 then 0 else SfError.denied.code }, root, n⟩
  | .opRmdir => match messageText m with
    | none => ⟨m.refused .invalid, root, n⟩
    | some path =>
      let (r, n') := sfNsRmdir owner m.handle path n
      ⟨m.done r, root, n'⟩
  | .opUnlink => match messageText m with
    | none => ⟨m.refused .invalid, root, n⟩
    | some path =>
      let (r, n') := sfNsUnlink owner m.handle path n
      ⟨m.done r, root, n'⟩
  | .opOpenat => match messageText m with
    | none => ⟨m.refused .invalid, root, n⟩
    | some path =>
      let (r, n') := sfNsOpenat b owner m.handle path m.mode n
      ⟨m.opened r, root, n'⟩
  | .opOpen => match messageText m with
    | none => ⟨m.refused .invalid, root, n⟩
    | some path =>
      if path ≠ consolePath ∨ m.mode ≠ openWrite then ⟨m.refused .denied, root, n⟩
      else
        let (r, n') := sfNsOpen b owner rootPath path m.mode n
        ⟨m.opened r, root, n'⟩
  | .opWrite =>
    let (r, n') := sfNsWrite b owner m.handle (slice m.data 0 m.length) n
    ⟨m.counted r, root, n'⟩
  | .opTruncate =>
    let (r, n') := sfNsTruncate b owner m.handle m.offset n
    ⟨m.done r, root, n'⟩
  | .opRead =>
    let (r, n') := sfNsRead b owner m.handle m.length n
    ⟨m.filled r, root, n'⟩
  | .opClose =>
    let (r, n') := sfNsClose owner m.handle n
    ⟨m.done r, if r.isOk ∧ m.handle = root then 0 else root, n'⟩
  | .opSeek =>
    let (r, n') := sfNsSeek owner m.handle m.offset n
    ⟨m.counted r, root, n'⟩
  | .opPoll =>
    let (r, n') := sfNsPoll owner m.handle n
    ⟨m.counted r, root, n'⟩
  | .opEnumerate =>
    let (r, n') := sfNsEnumerate owner m.handle m.length n
    ⟨m.filled r, root, n'⟩

def sfFileDispatch (b : Backend) (owner root : Nat) (m : SfMessage) (n : SfNamespace) : Served :=
  match FileOp.ofCode m.h.opcode with
  | none => ⟨m.refused .invalid, root, n⟩
  | some op =>
    if op.onHandle ∧ 0xffffffff < m.handle then ⟨{ m with length := 0 }.refused .staleHandle, root, n⟩
    else if op.onBytes ∧ messageBytes < m.length then ⟨{ m with length := 0 }.refused .invalid, root, n⟩
    else serveOp b owner root m n op

/-! ## What the dispatcher does to the namespace -/

section Dispatch

variable {n : SfNamespace} {α : Type}

/-- The calls that only look leave the namespace as it is. -/
theorem withDescription_looks {owner h : Nat} {f : SlotId → DescId → SfNamespace → Except Int α × SfNamespace}
    (hf : ∀ k d, (f k d n).2 = n) : (withDescription owner h f n).2 = n := by
  unfold withDescription
  split
  · rfl
  · exact hf _ _

theorem sfNsPread_looks (b : Backend) (owner h bytes offset : Nat) (n : SfNamespace) :
    (sfNsPread b owner h bytes offset n).2 = n := withDescription_looks fun _ _ => rfl

theorem sfNsStat_looks (owner h : Nat) (n : SfNamespace) : (sfNsStat owner h n).2 = n := withDescription_looks fun _ _ => rfl

theorem sfNsPoll_looks (owner h : Nat) (n : SfNamespace) : (sfNsPoll owner h n).2 = n := withDescription_looks fun _ _ => rfl

theorem sfNsEnumerate_looks (owner h size : Nat) (n : SfNamespace) : (sfNsEnumerate owner h size n).2 = n := by
  refine withDescription_looks fun _ d => ?_
  split
  · rfl
  split
  · rfl
  · rfl

/-- The call of the namespace that a message leads to, if there is one that changes it. -/
def SfMessage.request (owner : Nat) (m : SfMessage) : Option Request :=
  match FileOp.ofCode m.h.opcode with
  | some .opDup => some (.nsDup owner m.handle)
  | some .opRmdir => (messageText m).map (.nsRmdir owner m.handle)
  | some .opUnlink => (messageText m).map (.nsUnlink owner m.handle)
  | some .opOpenat => (messageText m).map fun path => .nsOpenat owner m.handle path m.mode
  | some .opOpen => if m.mode = openWrite then some (.nsOpen owner rootPath consolePath openWrite) else none
  | some .opWrite => some (.nsWrite owner m.handle (slice m.data 0 m.length))
  | some .opTruncate => some (.nsTruncate owner m.handle m.offset)
  | some .opRead => some (.nsRead owner m.handle m.length)
  | some .opClose => some (.nsClose owner m.handle)
  | some .opSeek => some (.nsSeek owner m.handle m.offset)
  | _ => none

/-- An `OP_READ` returns what it reads, unless it is refused at once. -/
theorem sfFileDispatch_read (b : Backend) (owner root : Nat) (m : SfMessage) (n : SfNamespace)
    (hop : FileOp.ofCode m.h.opcode = some .opRead) : (sfFileDispatch b owner root m n).ns = n ∨
      (sfFileDispatch b owner root m n).reply = m.filled (sfNsRead b owner m.handle m.length n).1 ∧
      (sfFileDispatch b owner root m n).ns = (sfNsRead b owner m.handle m.length n).2 := by
  unfold sfFileDispatch
  rw [hop]
  dsimp only
  split
  · exact .inl rfl
  split
  · exact .inl rfl
  · exact .inr ⟨rfl, rfl⟩

/-- **A message does what its request does, or nothing.** -/
theorem sfFileDispatch_ns (b : Backend) (owner root : Nat) (m : SfMessage) (n : SfNamespace) :
    (sfFileDispatch b owner root m n).ns = n ∨
      ∃ r, m.request owner = some r ∧ (sfFileDispatch b owner root m n).ns = r.run b n := by
  unfold sfFileDispatch SfMessage.request
  split
  · exact .inl rfl
  rename_i op hop
  split
  · exact .inl rfl
  split
  · exact .inl rfl
  rw [hop]
  cases op with
  | opPread =>
    simp only [serveOp]
    split
    · exact .inl rfl
    · exact .inl (sfNsPread_looks b owner _ _ _ n)
  | opStat =>
    simp only [serveOp]
    split
    · exact .inl rfl
    · exact .inl (sfNsStat_looks owner _ n)
  | opRoot => exact .inl rfl
  | opPoll => exact .inl (sfNsPoll_looks owner _ n)
  | opEnumerate => exact .inl (sfNsEnumerate_looks owner _ _ n)
  | opDup =>
    simp only [serveOp]
    split
    · exact .inl rfl
    · exact .inr ⟨_, rfl, rfl⟩
  | opOpen =>
    simp only [serveOp]
    split
    · exact .inl rfl
    split
    · exact .inl rfl
    rename_i path _ hconsole
    simp only [not_or, not_not] at hconsole
    obtain ⟨rfl, hmode⟩ := hconsole
    refine .inr ⟨_, if_pos hmode, ?_⟩
    rw [hmode]
    rfl
  | opOpenat | opUnlink | opRmdir =>
    simp only [serveOp]
    split
    · exact .inl rfl
    rename_i path htext
    rw [htext]
    exact .inr ⟨_, rfl, rfl⟩
  | opRead | opWrite | opClose | opSeek | opTruncate => exact .inr ⟨_, rfl, rfl⟩

end Dispatch

end SpiritFox.Ns
