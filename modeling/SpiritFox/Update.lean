import Mathlib.Data.List.Basic
import SpiritFox.Abi
import SpiritFox.Lib.Proc

/-!
# The update record

`/boot/current` holds one `SfUpdate`: which of the two package slots is confirmed, which one is a candidate, how far the
candidate has got, and the digest of each. `services/update.c` encodes it in 160 bytes and moves it along
stable → pending → trying → stable.

- `sfUpdateDecode_updateBytes`: a valid record is read back from its encoding;
- `updateBytes_of_decode`: a text that is accepted is the encoding of the record read from it;
- `sfUpdateStage_ok`, `sfUpdateBegin_ok`, `sfUpdateFinish_ok`: everything a transition that succeeds does;
- `Call.run`: the transitions as they write the record field by field; `update_record` is what they keep.
-/

namespace SpiritFox.Update

open List

/-- `SF_UPDATE_STABLE`, `SF_UPDATE_PENDING`, `SF_UPDATE_TRYING` -/
inductive Phase where
  | stable
  | pending
  | trying
  deriving DecidableEq, Repr

/-- The package slots `'a'` and `'b'`. -/
inductive Slot where
  | a
  | b
  deriving DecidableEq, Repr

def Phase.byte : Phase → UInt8
  | .stable => 0
  | .pending => 1
  | .trying => 2

def phaseOf (c : UInt8) : Option Phase :=
  if c = 0 then some .stable else if c = 1 then some .pending else if c = 2 then some .trying else none

def slotByte : Option Slot → UInt8
  | none => 0
  | some .a => 97
  | some .b => 98

/-- `slot` and the byte 0: any other byte is refused. -/
def slotOf (c : UInt8) : Option (Option Slot) :=
  if c = 0 then some none else if c = 97 then some (some .a) else if c = 98 then some (some .b) else none

/-- `SfUpdate`; `appId` is the string in the 64-byte field. -/
structure SfUpdate where
  phase : Phase
  good : Option Slot
  candidate : Option Slot
  goodHash : Digest
  candidateHash : Digest
  appId : List UInt8
  deriving DecidableEq

def zeroHash : Digest := Vector.replicate 32 0

/-- The record that `memset` leaves. -/
def SfUpdate.zero : SfUpdate := ⟨.stable, none, none, zeroHash, zeroHash, []⟩

def identityChar (c : UInt8) : Bool :=
  (97 ≤ c && c ≤ 122) || (65 ≤ c && c ≤ 90) || (48 ≤ c && c ≤ 57) || c == 46 || c == 45 || c == 95

/-- `identity` on the string before the terminator. -/
def identity (s : List UInt8) : Bool := s.all identityChar && 0 < s.length && s.length < 64

/-- `valid` -/
def valid (s : SfUpdate) : Bool :=
  (s.good.isNone == (s.goodHash == zeroHash)) && (s.candidate.isNone == (s.candidateHash == zeroHash)) &&
    (match s.phase with
      | .stable => s.candidate.isNone
      | _ => s.candidate.isSome && s.candidate != s.good) &&
    (if s.good.isSome || s.candidate.isSome then identity s.appId else s.appId.isEmpty)

/-! ## The codec -/

/-- `"SFUPD1\0\0"` -/
def updateMagic : List UInt8 := [83, 70, 85, 80, 68, 49, 0, 0]

def updateHead (s : SfUpdate) : List UInt8 :=
  updateMagic ++ [s.phase.byte, slotByte s.good, slotByte s.candidate] ++ List.replicate 21 0

/-- The 160 bytes of a record. -/
def updateBytes (s : SfUpdate) : List UInt8 :=
  updateHead s ++ (s.goodHash.toList ++ (s.candidateHash.toList ++ (s.appId ++ List.replicate (64 - s.appId.length) 0)))

/-- `sf_update_encode` -/
def sfUpdateEncode (s : SfUpdate) : Except SfError (List UInt8) :=
  if valid s then .ok (updateBytes s) else .error .badFormat

/-- 32 bytes as a digest. -/
def toDigest (l : List UInt8) : Digest := Vector.ofFn fun i => l.getD i 0

/-- `sf_update_decode` -/
def sfUpdateDecode (data : List UInt8) : Except SfError SfUpdate :=
  if data.length ≠ 160 ∨ data.take 8 ≠ updateMagic ∨ (data.drop 11).take 21 ≠ List.replicate 21 0 then .error .badFormat
  else match phaseOf (data.getD 8 0), slotOf (data.getD 9 0), slotOf (data.getD 10 0) with
    | some phase, some good, some candidate =>
      let field := data.drop 96
      let s : SfUpdate := ⟨phase, good, candidate, toDigest ((data.drop 32).take 32), toDigest ((data.drop 64).take 32),
        field.takeWhile (· != 0)⟩
      -- both checks of the field in `valid` look past the terminator
      if valid s && (field.dropWhile (· != 0)).all (· == 0) then .ok s else .error .badFormat
    | _, _, _ => .error .badFormat

/-! ## Transitions -/

/-- The slot that is not confirmed. -/
def otherSlot (good : Option Slot) : Slot := if good = some .a then .b else .a

/-- `sf_update_stage` -/
def sfUpdateStage (s : SfUpdate) (id : List UInt8) (hash : Digest) : Except SfError SfUpdate :=
  if valid s = false then .error .badFormat
  else if s.phase ≠ .stable then .error .busy
  else if 64 ≤ id.length then .error .badFormat
  else if identity id = false ∨ hash = zeroHash then .error .badFormat
  else if s.good ≠ none ∧ s.appId ≠ id then .error .dependency
  else .ok
    { s with
      appId := id
      candidate := some (otherSlot s.good)
      candidateHash := hash
      phase := .pending }

/-- `sf_update_begin` -/
def sfUpdateBegin (s : SfUpdate) : Except SfError SfUpdate :=
  if valid s = false then .error .badFormat
  else if s.phase ≠ .pending then .error .invalid
  else .ok { s with phase := .trying }

/-- `sf_update_finish` -/
def sfUpdateFinish (s : SfUpdate) (success : Bool) : Except SfError SfUpdate :=
  if valid s = false then .error .badFormat
  else if s.phase ≠ .trying then .error .invalid
  else
    let s := if success then { s with good := s.candidate, goodHash := s.candidateHash } else s
    .ok
      { s with
        phase := .stable
        candidate := none
        candidateHash := zeroHash
        appId := if s.good = none then [] else s.appId }

/-! ## Reading a record back -/

theorem toDigest_toList (h : Digest) : toDigest h.toList = h := by
  ext i hi
  simp [toDigest]

theorem phaseOf_byte (p : Phase) : phaseOf p.byte = some p := by cases p <;> rfl

theorem slotOf_byte (s : Option Slot) : slotOf (slotByte s) = some s := by
  rcases s with _ | s
  · rfl
  · cases s <;> rfl

theorem length_updateHead (s : SfUpdate) : (updateHead s).length = 32 := by simp [updateHead, updateMagic]

theorem length_updateBytes {s : SfUpdate} (h : s.appId.length ≤ 64) : (updateBytes s).length = 160 := by
  simp only [updateBytes, length_append, length_updateHead, Vector.length_toList, length_replicate]
  omega

/-- The string of a valid record is a C string that fits its field. -/
theorem valid_appId {s : SfUpdate} (h : valid s = true) : s.appId.length < 64 ∧ ∀ c ∈ s.appId, c ≠ 0 := by
  simp only [valid, Bool.and_eq_true] at h
  have hid := h.2
  split at hid
  · simp only [identity, Bool.and_eq_true, all_eq_true, decide_eq_true_eq] at hid
    refine ⟨hid.2, fun c hc h0 => ?_⟩
    have := hid.1.1 c hc
    rw [h0] at this
    exact absurd this (by decide)
  · rw [isEmpty_iff.1 hid]
    exact ⟨by decide, fun c hc => absurd hc not_mem_nil⟩

/-- **A valid record is read back from its encoding.** -/
theorem sfUpdateDecode_updateBytes {s : SfUpdate} (h : valid s = true) : sfUpdateDecode (updateBytes s) = .ok s := by
  obtain ⟨hlen, hne⟩ := valid_appId h
  have hhead := length_updateHead s
  have hlength := length_updateBytes (Nat.le_of_lt hlen)
  have hmagic : (updateBytes s).take 8 = updateMagic := rfl
  have hpad : ((updateBytes s).drop 11).take 21 = replicate 21 0 := rfl
  have h32 : (updateBytes s).drop 32 =
      s.goodHash.toList ++ (s.candidateHash.toList ++ (s.appId ++ replicate (64 - s.appId.length) 0)) :=
    drop_left' hhead
  have h64 : (updateBytes s).drop 64 =
      s.candidateHash.toList ++ (s.appId ++ replicate (64 - s.appId.length) 0) := by
    rw [show 64 = 32 + 32 by rfl, ← drop_drop, h32, drop_left' (Vector.length_toList)]
  have h96 : (updateBytes s).drop 96 = s.appId ++ replicate (64 - s.appId.length) 0 := by
    rw [show 96 = 64 + 32 by rfl, ← drop_drop, h64, drop_left' (Vector.length_toList)]
  have hstr : ∀ c ∈ s.appId, (c != 0) = true := fun c hc => by simpa using hne c hc
  have hzero : replicate (64 - s.appId.length) (0 : UInt8) = 0 :: replicate (63 - s.appId.length) 0 := by
    rw [← replicate_succ]
    congr 1
    omega
  have htake : (s.appId ++ replicate (64 - s.appId.length) 0).takeWhile (· != 0) = s.appId := by
    rw [takeWhile_append_of_pos hstr, hzero]
    simp
  have hdrop : (s.appId ++ replicate (64 - s.appId.length) 0).dropWhile (· != 0) =
      replicate (64 - s.appId.length) 0 := by
    rw [dropWhile_append_of_pos hstr, hzero]
    simp
  have hbytes : (updateBytes s).getD 8 0 = s.phase.byte ∧ (updateBytes s).getD 9 0 = slotByte s.good ∧
      (updateBytes s).getD 10 0 = slotByte s.candidate := ⟨rfl, rfl, rfl⟩
  unfold sfUpdateDecode
  rw [if_neg (by simp [hlength, hmagic, hpad]), hbytes.1, hbytes.2.1, hbytes.2.2, phaseOf_byte, slotOf_byte, slotOf_byte]
  simp only [h32, h64, h96, htake, hdrop, take_left' (Vector.length_toList), toDigest_toList]
  rw [if_pos (by simp [h])]

/-! ## Accepted texts are encodings -/

theorem byte_of_phaseOf {c : UInt8} {p : Phase} (h : phaseOf c = some p) : p.byte = c := by
  unfold phaseOf at h
  split at h
  · cases h; exact Eq.symm ‹_›
  split at h
  · cases h; exact Eq.symm ‹_›
  split at h
  · cases h; exact Eq.symm ‹_›
  · cases h

theorem slotByte_of_slotOf {c : UInt8} {s : Option Slot} (h : slotOf c = some s) : slotByte s = c := by
  unfold slotOf at h
  split at h
  · cases h; exact Eq.symm ‹_›
  split at h
  · cases h; exact Eq.symm ‹_›
  split at h
  · cases h; exact Eq.symm ‹_›
  · cases h

theorem toList_toDigest {l : List UInt8} (h : l.length = 32) : (toDigest l).toList = l := by
  apply ext_getElem (by simp [h])
  intro i h₁ h₂
  simp [toDigest, h₂]

/-- A field of 64 bytes with nothing but zeros after its string is that string, padded. -/
theorem padded_field {field : List UInt8} (h : (field.dropWhile (· != 0)).all (· == 0) = true) {n : Nat}
    (hn : field.length = n) :
    field.takeWhile (· != 0) ++ replicate (n - (field.takeWhile (· != 0)).length) 0 = field := by
  have hsplit := takeWhile_append_dropWhile (p := (· != 0)) (l := field)
  have hlen := congrArg length hsplit
  rw [length_append, hn] at hlen
  have hzero : field.dropWhile (· != 0) = replicate (field.dropWhile (· != 0)).length 0 :=
    eq_replicate_of_mem fun c hc => by simpa using all_eq_true.1 h c hc
  rw [show n - (field.takeWhile (· != 0)).length = (field.dropWhile (· != 0)).length by omega, ← hzero, hsplit]

/-- The head of an accepted text is made of the magic, its three bytes and zeros. -/
theorem take_head {data : List UInt8} (hlen : data.length = 160) :
    data.take 32 = data.take 8 ++ [data.getD 8 0, data.getD 9 0, data.getD 10 0] ++ (data.drop 11).take 21 := by
  apply ext_getElem (by simp [hlen])
  intro i h₁ h₂
  simp only [length_take, hlen] at h₁
  simp only [getElem_take, getElem_append, length_take, length_append, length_cons,
    length_nil, hlen, getElem_drop]
  split
  · split
    · rfl
    · obtain rfl | rfl | rfl : i = 8 ∨ i = 9 ∨ i = 10 := by omega
      all_goals simp [hlen]
  · congr 1
    omega

/-- **An accepted text is the encoding of the record read from it.** -/
theorem updateBytes_of_decode {data : List UInt8} {s : SfUpdate} (h : sfUpdateDecode data = .ok s) :
    valid s = true ∧ updateBytes s = data := by
  unfold sfUpdateDecode at h
  split at h
  · cases h
  rename_i hchk
  simp only [not_or, ne_eq, Decidable.not_not] at hchk
  obtain ⟨hlen, hmagic, hpad⟩ := hchk
  split at h
  · rename_i phase good candidate hphase hgood hcandidate
    dsimp only at h
    split at h
    · rename_i hv
      cases h
      obtain ⟨hv, hzero⟩ := Bool.and_eq_true _ _ ▸ hv
      refine ⟨hv, ?_⟩
      have hhead : updateHead ⟨phase, good, candidate, toDigest ((data.drop 32).take 32), toDigest ((data.drop 64).take 32),
          (data.drop 96).takeWhile (· != 0)⟩ = data.take 32 := by
        rw [take_head hlen, hmagic, hpad, ← byte_of_phaseOf hphase, ← slotByte_of_slotOf hgood,
          ← slotByte_of_slotOf hcandidate]
        rfl
      simp only [updateBytes, hhead, toList_toDigest (l := (data.drop 32).take 32) (by simp [hlen]),
        toList_toDigest (l := (data.drop 64).take 32) (by simp [hlen]), padded_field hzero (n := 64) (by simp [hlen])]
      calc data.take 32 ++ ((data.drop 32).take 32 ++ ((data.drop 64).take 32 ++ data.drop 96))
          = data.take 32 ++ ((data.drop 32).take 32 ++ ((data.drop 64).take 32 ++ (data.drop 64).drop 32)) := by
            rw [drop_drop]
        _ = data.take 32 ++ ((data.drop 32).take 32 ++ (data.drop 32).drop 32) := by
            rw [take_append_drop, drop_drop]
        _ = data := by rw [take_append_drop, take_append_drop]
    · cases h
  · cases h

/-! ## What the transitions do -/

section Transitions

variable {s s' : SfUpdate}

theorem valid_zero : valid SfUpdate.zero = true := by decide

/-- The fields of a valid record agree with each other. -/
theorem valid_iff : valid s = true ↔ (s.good = none ↔ s.goodHash = zeroHash) ∧
    (s.candidate = none ↔ s.candidateHash = zeroHash) ∧ (s.phase = .stable ↔ s.candidate = none) ∧
    (s.candidate ≠ none → s.candidate ≠ s.good) ∧
    (if s.good = none ∧ s.candidate = none then s.appId = [] else identity s.appId = true) := by
  obtain ⟨phase, good, candidate, goodHash, candidateHash, appId⟩ := s
  cases phase <;> cases good <;> cases candidate <;> simp [valid, and_assoc]

theorem otherSlot_ne (good : Option Slot) : some (otherSlot good) ≠ good := by
  rcases good with _ | _ | _ <;> decide

theorem sfUpdateStage_ok {id : List UInt8} {hash : Digest} (h : sfUpdateStage s id hash = .ok s') :
    valid s = true ∧ s.phase = .stable ∧ (s.good = none ∨ s.appId = id) ∧ valid s' = true ∧
      s' = { s with appId := id, candidate := some (otherSlot s.good), candidateHash := hash, phase := .pending } := by
  unfold sfUpdateStage at h
  split at h
  · cases h
  split at h
  · cases h
  split at h
  · cases h
  split at h
  · cases h
  split at h
  · cases h
  rename_i hv hp _ hid happ
  cases h
  simp only [not_or, ne_eq, Decidable.not_not, Bool.not_eq_false] at hv hp hid happ
  refine ⟨hv, hp, ?_, ?_, rfl⟩
  · by_cases hg : s.good = none
    · exact Or.inl hg
    · exact Or.inr (Decidable.not_not.1 fun hne => happ ⟨hg, hne⟩)
  · obtain ⟨hgood, _⟩ := valid_iff.1 hv
    exact valid_iff.2 ⟨hgood, by simp [hid.2], by simp, fun _ => otherSlot_ne s.good, by simp [hid.1]⟩

theorem sfUpdateBegin_ok (h : sfUpdateBegin s = .ok s') :
    valid s = true ∧ s.phase = .pending ∧ valid s' = true ∧ s' = { s with phase := .trying } := by
  unfold sfUpdateBegin at h
  split at h
  · cases h
  split at h
  · cases h
  rename_i hv hp
  cases h
  simp only [ne_eq, Decidable.not_not, Bool.not_eq_false] at hv hp
  obtain ⟨hgood, hcand, hphase, hne, hid⟩ := valid_iff.1 hv
  rw [hp] at hphase
  exact ⟨hv, hp, valid_iff.2 ⟨hgood, hcand, by simpa using hphase, hne, hid⟩, rfl⟩

theorem sfUpdateFinish_ok {success : Bool} (h : sfUpdateFinish s success = .ok s') :
    valid s = true ∧ s.phase = .trying ∧ valid s' = true ∧ s'.phase = .stable ∧ s'.candidate = none ∧
      s'.good = (if success then s.candidate else s.good) ∧
      s'.goodHash = (if success then s.candidateHash else s.goodHash) ∧
      (s'.good ≠ none → s'.appId = s.appId) := by
  unfold sfUpdateFinish at h
  split at h
  · cases h
  split at h
  · cases h
  rename_i hv hp
  cases h
  simp only [ne_eq, Decidable.not_not, Bool.not_eq_false] at hv hp
  obtain ⟨hgood, hcand, hphase, hne, hid⟩ := valid_iff.1 hv
  have hsome : s.candidate ≠ none := fun hn => by rw [hp] at hphase; exact absurd (hphase.2 hn) (by decide)
  refine ⟨hv, hp, valid_iff.2 ?_, rfl, rfl, by cases success <;> rfl, by cases success <;> rfl, ?_⟩
  · cases success with
    | true => simp_all
    | false => by_cases hg : s.good = none <;> simp_all
  · cases success <;> simp_all

end Transitions

/-! ## The calls on a record in place -/

/-- The calls that move a record along. -/
inductive Call where
  | stage (id : List UInt8) (hash : Digest)
  | begin
  | finish (success : Bool)

/-- The calls as the source writes them, field by field into the record they are given. -/
def Call.run : Call → Proc SfUpdate SfError Unit
  | .stage id hash => do
    let s ← Proc.read
    if valid s = false then Proc.fail .badFormat
    else if s.phase ≠ .stable then Proc.fail .busy
    else if 64 ≤ id.length then Proc.fail .badFormat
    else if identity id = false ∨ hash = zeroHash then Proc.fail .badFormat
    else if s.good ≠ none ∧ s.appId ≠ id then Proc.fail .dependency
    else
      Proc.update fun s => { s with appId := id }
      Proc.update fun s => { s with candidate := some (otherSlot s.good) }
      Proc.update fun s => { s with candidateHash := hash }
      Proc.update fun s => { s with phase := .pending }
  | .begin => do
    let s ← Proc.read
    if valid s = false then Proc.fail .badFormat
    else if s.phase ≠ .pending then Proc.fail .invalid
    else Proc.update fun s => { s with phase := .trying }
  | .finish success => do
    let s ← Proc.read
    if valid s = false then Proc.fail .badFormat
    else if s.phase ≠ .trying then Proc.fail .invalid
    else
      if success then
        Proc.update fun s => { s with good := s.candidate }
        Proc.update fun s => { s with goodHash := s.candidateHash }
      Proc.update fun s => { s with phase := .stable }
      Proc.update fun s => { s with candidate := none }
      Proc.update fun s => { s with candidateHash := zeroHash }
      let s ← Proc.read
      if s.good = none then Proc.update fun s => { s with appId := [] }

/-- What a call makes of a record. -/
def Call.result (s : SfUpdate) : Call → Except SfError SfUpdate
  | .stage id hash => sfUpdateStage s id hash
  | .begin => sfUpdateBegin s
  | .finish success => sfUpdateFinish s success

/-- In place, a call that fails has written nothing. -/
theorem Call.run_eq (c : Call) (s : SfUpdate) : c.run s = match c.result s with
    | .ok s' => (.ok (), s')
    | .error e => (.error e, s) := by
  cases c with
  | stage id hash =>
    simp only [Call.run, Call.result, sfUpdateStage]
    rw [Proc.run_bind (p := Proc.read) rfl]
    split_ifs <;> rfl
  | begin =>
    simp only [Call.run, Call.result, sfUpdateBegin]
    rw [Proc.run_bind (p := Proc.read) rfl]
    split_ifs <;> rfl
  | finish success =>
    simp only [Call.run, Call.result, sfUpdateFinish]
    rw [Proc.run_bind (p := Proc.read) rfl]
    by_cases hv : valid s = false
    · rw [if_pos hv, if_pos hv]
      rfl
    by_cases hp : s.phase ≠ .trying
    · rw [if_neg hv, if_neg hv, if_pos hp, if_pos hp]
      rfl
    rw [if_neg hv, if_neg hv, if_neg hp, if_neg hp]
    obtain ⟨phase, good, candidate, goodHash, candidateHash, appId⟩ := s
    cases success <;> cases good <;> cases candidate <;> rfl

/-- A call on a valid record leaves a valid record, whether it succeeds or not. -/
theorem Call.run_spec (c : Call) (s : SfUpdate) : match c.run s with
    | (.ok _, s') => valid s' = true
    | (.error _, s') => s' = s := by
  rw [c.run_eq]
  cases hr : c.result s with
  | error e => rfl
  | ok s' =>
    cases c with
    | stage id hash => exact (sfUpdateStage_ok hr).2.2.2.1
    | begin => exact (sfUpdateBegin_ok hr).2.2.1
    | finish success => exact (sfUpdateFinish_ok hr).2.2.1

/-- Staging a package, starting it and finishing the trial. -/
def trial (id : List UInt8) (hash : Digest) (success : Bool) : Proc SfUpdate SfError Unit := do
  (Call.stage id hash).run
  Call.begin.run
  (Call.finish success).run

section Trial

variable {s s₁ : SfUpdate} {id : List UInt8} {hash : Digest}

theorem Call.run_ok_iff {c : Call} : c.run s = (.ok (), s₁) ↔ c.result s = .ok s₁ := by
  rw [c.run_eq]
  cases c.result s <;> simp

/-- Once a package is staged, the trial runs to its end. -/
theorem trial_of_stage (h : (Call.stage id hash).run s = (.ok (), s₁)) (success : Bool) :
    trial id hash success s =
      (.ok (), if success then { s with good := some (otherSlot s.good), goodHash := hash, appId := id } else s) := by
  obtain ⟨hv, hphase, happ, hv₁, hs₁⟩ := sfUpdateStage_ok (Call.run_ok_iff.1 h)
  have hbegin : Call.begin.result s₁ = .ok { s₁ with phase := .trying } := by
    simp only [Call.result, sfUpdateBegin, hv₁]
    simp [hs₁]
  obtain ⟨-, -, hv₂, -⟩ := sfUpdateBegin_ok hbegin
  have hfinish : (Call.finish success).result { s₁ with phase := .trying } =
      .ok (if success then { s with good := some (otherSlot s.good), goodHash := hash, appId := id } else s) := by
    simp only [Call.result, sfUpdateFinish, hv₂]
    obtain ⟨-, hcand, hstable, -, hid⟩ := valid_iff.1 hv
    have hnone := hstable.1 hphase
    have hzero := hcand.1 hnone
    obtain ⟨phase, good, candidate, goodHash, candidateHash, appId⟩ := s
    simp only at hphase hnone hzero happ hid
    subst hphase hnone hzero hs₁
    cases success with
    | true => simp
    | false => cases good <;> simp_all
  rw [trial, Proc.run_bind h, Proc.run_bind (Call.run_ok_iff.2 hbegin), Call.run_ok_iff.2 hfinish]

end Trial

/-- **The record is a bijection between valid states and accepted texts, and its transitions keep it valid.** A trial
that fails gives back the state before staging; one that succeeds confirms the staged digest in the other slot. -/
theorem update_record :
    (∀ s, valid s = true → ∃ data, sfUpdateEncode s = .ok data ∧ data.length = 160 ∧ sfUpdateDecode data = .ok s) ∧
    (∀ data s, sfUpdateDecode data = .ok s → sfUpdateEncode s = .ok data) ∧
    (∀ (c : Call) s, valid s = true → match c.run s with
      | (.ok _, s') => valid s' = true
      | (.error _, s') => s' = s) ∧
    ∀ s id hash s₁, valid s = true → (Call.stage id hash).run s = (.ok (), s₁) →
      trial id hash false s = (.ok (), s) ∧
      ∃ s', trial id hash true s = (.ok (), s') ∧ s'.phase = .stable ∧ s'.goodHash = hash ∧ s'.appId = id ∧
        s'.good = some (otherSlot s.good) ∧ s'.good ≠ s.good := by
  refine ⟨fun s hv => ?_, fun data s hd => ?_, fun c s _ => c.run_spec s, fun s id hash s₁ hv hstage => ?_⟩
  · exact ⟨updateBytes s, if_pos hv, length_updateBytes (Nat.le_of_lt (valid_appId hv).1), sfUpdateDecode_updateBytes hv⟩
  · obtain ⟨hv, rfl⟩ := updateBytes_of_decode hd
    exact if_pos hv
  · refine ⟨trial_of_stage hstage false, _, trial_of_stage hstage true, ?_, rfl, rfl, rfl, otherSlot_ne s.good⟩
    exact (sfUpdateStage_ok (Call.run_ok_iff.1 hstage)).2.1

/-- A first package, staged over the record that `memset` leaves. -/
theorem update_record_first :
    valid SfUpdate.zero = true ∧ trial [97] (Vector.replicate 32 1) false SfUpdate.zero = (.ok (), SfUpdate.zero) :=
  ⟨valid_zero, (update_record.2.2.2 _ [97] (Vector.replicate 32 1) _ valid_zero rfl).1⟩

end SpiritFox.Update
