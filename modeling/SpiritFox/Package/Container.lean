import SpiritFox.Lib.ByteMem
import SpiritFox.Package.Manifest
import SpiritFox.Trust

/-!
# Packages

`sf_package_open_trusted` of `services/package.c`: the header, the section table, the tiling of the file, the manifest, the
signature and the relocations. A pointer into the file is the list of the bytes from there on. Numbers are natural: every sum
stands after a `span` that keeps it below the size of the file or of the image.

- `checkTable_ok`: what the loop over the section table establishes;
- `tile_ok`: what the scan for gaps establishes, for ranges in any order;
- `open_view`: opening a package is `Trust.sfPackageOpenTrusted`, for the code that is modelled here.

The main result is `package_canonical`.
-/

namespace SpiritFox.Package

open ByteMem (le)
open Checks List
open Trust (SfTrustStore SfTrustKey)

/-! ## Numbers and sections -/

def sfU16 (p : List UInt8) : Nat := le (p.take 2)

def sfU32 (p : List UInt8) : Nat := le (p.take 4)

def sfU64 (p : List UInt8) : Nat := le (p.take 8)

def zero (p : List UInt8) (n : Nat) : Bool := (p.take n).all (· == 0)

def sfPackageMax : Nat := 32 * 1024 * 1024

def sfImageMax : Nat := 0x200000

def sfRelocationMax : Nat := 256

structure SfSection where
  type : Nat
  flags : Nat
  offset : Nat
  bytes : Nat
  memory : Nat
  rva : Nat
  alignment : Nat

structure SfPackage where
  data : List UInt8
  manifest : List UInt8
  /-- 1 is a module, 2 an application. -/
  kind : Nat
  entry : Nat
  signature : Nat
  keyId : List UInt8
  sections : List SfSection
  nativeProfile : Nat
  relocationOffset : Nat
  relocationCount : Nat

/-- Text, data and read-only sections are mapped; the others are only read. -/
def SfSection.mapped (s : SfSection) : Bool := s.type ≤ 3

/-- The end of a section's last page. -/
def SfSection.pageEnd (s : SfSection) : Nat := (s.rva + s.memory + 4095) / 4096 * 4096

/-! ## Looking up the manifest -/

/-- `"module_id"` -/
def moduleKey : List UInt8 := [109, 111, 100, 117, 108, 101, 95, 105, 100]

/-- `"app_id"` -/
def appKey : List UInt8 := [97, 112, 112, 95, 105, 100]

/-- `"version"` -/
def versionKey : List UInt8 := [118, 101, 114, 115, 105, 111, 110]

/-- `"runtime_id"` -/
def runtimeKey : List UInt8 := [114, 117, 110, 116, 105, 109, 101, 95, 105, 100]

/-- `"app_abi"` -/
def abiKey : List UInt8 := [97, 112, 112, 95, 97, 98, 105]

/-- `"requested_caps"` -/
def capsKey : List UInt8 := [114, 101, 113, 117, 101, 115, 116, 101, 100, 95, 99, 97, 112, 115]

/-- `"resource_limits"` -/
def limitsKey : List UInt8 := [114, 101, 115, 111, 117, 114, 99, 101, 95, 108, 105, 109, 105, 116, 115]

/-- `"memory"` -/
def memoryKey : List UInt8 := [109, 101, 109, 111, 114, 121]

/-- `"native_profile"` -/
def profileKey : List UInt8 := [110, 97, 116, 105, 118, 101, 95, 112, 114, 111, 102, 105, 108, 101]

/-- `"import_relocations"` -/
def importRelocationsKey : List UInt8 :=
  [105, 109, 112, 111, 114, 116, 95, 114, 101, 108, 111, 99, 97, 116, 105, 111, 110, 115]

/-- `"native_imports"` -/
def nativeImportsKey : List UInt8 := [110, 97, 116, 105, 118, 101, 95, 105, 109, 112, 111, 114, 116, 115]

/-- `"relative_relocations"` -/
def relocationsKey : List UInt8 :=
  [114, 101, 108, 97, 116, 105, 118, 101, 95, 114, 101, 108, 111, 99, 97, 116, 105, 111, 110, 115]

/-- `"section"` -/
def sectionKey : List UInt8 := [115, 101, 99, 116, 105, 111, 110]

/-- `"offset"` -/
def offsetKey : List UInt8 := [111, 102, 102, 115, 101, 116]

/-- `"bytes"` -/
def bytesKey : List UInt8 := [98, 121, 116, 101, 115]

/-- `"static-v1"` -/
def staticProfile : List UInt8 := [115, 116, 97, 116, 105, 99, 45, 118, 49]

/-- `"relative-v1"` -/
def relativeProfile : List UInt8 := [114, 101, 108, 97, 116, 105, 118, 101, 45, 118, 49]

/-- A failing scan is a bad format. -/
def scanned {α : Type} (x : Scan α) : Except SfError α :=
  match x with
  | .ok a => pure a
  | .error _ => throw .badFormat

/-- `!head(&c, &t, &n) || t != type` -/
def headOf (type : Nat) (c : Cursor) : Except SfError (Nat × Cursor) := do
  let (t, n, c) ← scanned (head c)
  if t ≠ type then throw .badFormat else pure (n, c)

/-- `!head(&c, &t, &len) || t != 3 || !span(0, len, c.end - c.p)` -/
def textOf (c : Cursor) : Except SfError (List UInt8 × Cursor) := do
  let (len, c) ← headOf 3 c
  if span 0 len c.length = false then throw .badFormat else pure (c.take len, c.drop len)

/-- The loop that looks for a key among `n` entries. -/
def findValue (key : List UInt8) : Nat → Cursor → Except SfError Cursor
  | 0, _ => throw .notFound
  | n + 1, c => do
    let (k, c) ← textOf c
    if k = key then pure c
    else do
      let c ← scanned (item c 1)
      findValue key n c

def manifestValue (p : SfPackage) (key : List UInt8) : Except SfError Cursor := do
  let (n, c) ← headOf 5 p.manifest
  findValue key n c

/-- `sf_manifest_text`: the text under a key, when it is shorter than `size`. -/
def sfManifestText (p : SfPackage) (key : List UInt8) (size : Nat) : Except SfError (List UInt8) := do
  let c ← manifestValue p key
  let (len, c) ← headOf 3 c
  if size ≤ len ∨ span 0 len c.length = false then throw .badFormat else pure (c.take len)

/-- What a C string function sees of the text. -/
def cstring (text : List UInt8) : List UInt8 := text.takeWhile (· != 0)

def appAbi (p : SfPackage) : Bool :=
  match manifestValue p abiKey >>= headOf 0 with
  | .ok (abi, _) => abi = 1
  | .error _ => false

/-- The loop over the requested capabilities. -/
def capabilitiesOk : Nat → Cursor → Except SfError Unit
  | 0, _ => pure ()
  | n + 1, c => do
    let (text, c) ← textOf c
    if text.length = 0 ∨ 64 < text.length then throw .badFormat
    else do
      scanned (utf8 text)
      capabilitiesOk n c

/-- The loop over the resource limits, with the declared memory so far. -/
def declaredMemory : Nat → Option Nat → Cursor → Except SfError (Option Nat)
  | 0, memory, _ => pure memory
  | n + 1, memory, c => do
    let (k, c) ← textOf c
    if k = memoryKey then
      if memory.isSome then throw .badFormat
      else do
        let (v, c) ← headOf 0 c
        declaredMemory n (some v) c
    else do
      let c ← scanned (item c 1)
      declaredMemory n memory c

/-- The memory of the mapped sections, unless it overflows. -/
def mappedMemory : List SfSection → Nat → Option Nat
  | [], sum => some sum
  | s :: rest, sum =>
    if s.mapped then
      if 2 ^ 64 - 1 - s.memory < sum then none else mappedMemory rest (sum + s.memory)
    else mappedMemory rest sum

/-- `app_manifest` -/
def checkAppManifest (p : SfPackage) : Except SfError Unit := do
  let caps ← manifestValue p capsKey
  let (n, caps) ← headOf 4 caps
  if 32 < n then throw .badFormat
  else do
    capabilitiesOk n caps
    let limits ← manifestValue p limitsKey
    let (n, limits) ← headOf 5 limits
    if n = 0 ∨ 16 < n then throw .badFormat
    else do
      match ← declaredMemory n none limits, mappedMemory p.sections 0 with
      | some memory, some mapped => if mapped ≤ memory ∧ memory ≤ sfPackageMax then pure () else throw .badFormat
      | _, _ => throw .badFormat

def appManifest (p : SfPackage) : Bool := (checkAppManifest p).isOk

/-! ## The container -/

/-- `"SFMOD1\0\0"` -/
def moduleMagic : List UInt8 := [83, 70, 77, 79, 68, 49, 0, 0]

/-- `"SFK1\r\n\032\n"` -/
def appMagic : List UInt8 := [83, 70, 75, 49, 13, 10, 26, 10]

/-- A run of bytes of the file. -/
structure Extent where
  start : Nat
  length : Nat

/-- What the header says. -/
structure Header where
  kind : Nat
  count : Nat
  table : Nat
  manifest : Nat
  manifestBytes : Nat
  signature : Nat
  entry : Nat

variable {d : List UInt8} {h : Header} {p : SfPackage}

def readHeader (d : List UInt8) : Header where
  kind := if d.take 8 = moduleMagic then 1 else 2
  count := sfU32 (d.drop 36)
  table := sfU64 (d.drop 40)
  manifest := sfU64 (d.drop 48)
  manifestBytes := sfU64 (d.drop 56)
  signature := sfU64 (d.drop 64)
  entry := sfU64 (d.drop 80)

/-- The checks before the section table. -/
def checkHeader (d : List UInt8) : Except SfError Header :=
  let h := readHeader d
  if d.length < 264 ∨ sfPackageMax < d.length then throw .badFormat
  else if d.take 8 ≠ moduleMagic ∧ d.take 8 ≠ appMagic then throw .badFormat
  else if sfU16 (d.drop 8) ≠ 1 ∨ sfU16 (d.drop 10) ≠ 0 ∨ sfU32 (d.drop 12) ≠ 96 ∨ sfU64 (d.drop 16) ≠ d.length ∨
      sfU16 (d.drop 24) ≠ h.kind ∨ sfU16 (d.drop 26) ≠ 1 then throw .badFormat
  else if sfU16 (d.drop 28) ≠ 1 ∨ sfU16 (d.drop 30) ≠ 0 then throw .abiMismatch
  else if sfU32 (d.drop 32) ≠ 0 ∨ sfU32 (d.drop 76) ≠ 0 ∨ zero (d.drop 88) 8 = false ∨ sfU32 (d.drop 72) ≠ 104 then
    throw .badFormat
  else if h.count = 0 ∨ 64 < h.count ∨ h.manifestBytes = 0 ∨ 65536 < h.manifestBytes ∨
      span h.table (h.count * 64) d.length = false ∨ span h.manifest h.manifestBytes d.length = false ∨
      span h.signature 104 d.length = false ∨ h.signature + 104 ≠ d.length then throw .badFormat
  else pure h

def readSection (s : List UInt8) : SfSection where
  type := sfU32 s
  flags := sfU32 (s.drop 4)
  offset := sfU64 (s.drop 8)
  bytes := sfU64 (s.drop 16)
  memory := sfU64 (s.drop 24)
  rva := sfU64 (s.drop 32)
  alignment := sfU64 (s.drop 40)

/-- What the loop over the section table has gathered. -/
structure Table where
  sections : List SfSection
  ranges : List Extent
  entryOk : Bool
  mapped : Nat

def mappedFlags (type : Nat) : Nat := if type = 1 then 5 else if type = 2 then 1 else 3

/-- The file bytes of a section, if there are any. -/
def SfSection.payload (s : SfSection) : List Extent := if s.bytes ≠ 0 then [⟨s.offset, s.bytes⟩] else []

/-- The entry point is in the file-backed part of this text section. -/
def SfSection.holdsEntry (s : SfSection) (entry : Nat) : Bool := s.type = 1 ∧ s.rva ≤ entry ∧ entry - s.rva < s.bytes

/-- The two sections share a page. -/
def SfSection.overlaps (x y : SfSection) : Bool := x.rva < y.pageEnd ∧ y.rva < x.pageEnd

/-- One round of the loop over the section table. -/
def checkSection (d : List UInt8) (h : Header) (acc : Table) (i : Nat) : Except SfError Table :=
  let s := d.drop (h.table + i * 64)
  let x := readSection s
  if zero (s.drop 48) 16 = false ∨ span x.offset x.bytes h.signature = false ∨ x.type < 1 ∨ 5 < x.type then throw .badFormat
  else if x.type ≤ 3 then
    if x.flags ≠ mappedFlags x.type ∨ x.alignment ≠ 4096 ∨ x.rva % 4096 ≠ 0 ∨ x.offset % 4096 ≠ 0 ∨ x.memory = 0 ∨
        x.memory < x.bytes ∨ span x.rva x.memory sfImageMax = false then throw .badFormat
    else if acc.sections.any (fun y => y.mapped && x.overlaps y) then throw .badFormat
    else pure ⟨acc.sections ++ [x], acc.ranges ++ x.payload, acc.entryOk || x.holdsEntry h.entry, acc.mapped + 1⟩
  else if x.flags ≠ 0 ∨ x.rva ≠ 0 ∨ x.alignment ≠ 8 ∨ x.offset % 8 ≠ 0 ∨ x.bytes ≠ x.memory then throw .badFormat
  else pure ⟨acc.sections ++ [x], acc.ranges ++ x.payload, acc.entryOk, acc.mapped⟩

/-- The header, the section table, the manifest and the signature. -/
def fixedRanges (h : Header) : List Extent :=
  [⟨0, 96⟩, ⟨h.table, h.count * 64⟩, ⟨h.manifest, h.manifestBytes⟩, ⟨h.signature, 104⟩]

def checkTable (d : List UInt8) (h : Header) : Except SfError Table := do
  let t ← (List.range h.count).foldlM (checkSection d h) ⟨[], fixedRanges h, false, 0⟩
  if t.entryOk = false ∨ 8 < t.mapped then throw .badFormat else pure t

/-- The inner loop of the sort in place: the range at `i` is exchanged with every later one that starts before it. -/
def exchange : Extent → List Extent → Extent × List Extent
  | r, [] => (r, [])
  | r, s :: rest =>
    if s.start < r.start then ((exchange s rest).1, r :: (exchange s rest).2)
    else ((exchange r rest).1, s :: (exchange r rest).2)

/-- The outer loop, for as many ranges as there are. -/
def sortRanges : Nat → List Extent → List Extent
  | _, [] => []
  | 0, r :: rest => r :: rest
  | n + 1, r :: rest => (exchange r rest).1 :: sortRanges n (exchange r rest).2

/-- The scan for gaps: each range starts after the last one, and what is between them is zero. -/
def tile (d : List UInt8) : Nat → List Extent → Except SfError Nat
  | stop, [] => pure stop
  | stop, r :: rest =>
    if r.start < stop ∨ zero (d.drop stop) (r.start - stop) = false then throw .badFormat
    else tile d (r.start + r.length) rest

def checkTiling (d : List UInt8) (ranges : List Extent) : Except SfError Unit := do
  let stop ← tile d 0 (sortRanges ranges.length ranges)
  if stop ≠ d.length then throw .badFormat else pure ()

/-- The text under a key is there and does not start with NUL. -/
def identityText (p : SfPackage) (key : List UInt8) : Bool :=
  match sfManifestText p key 96 with
  | .ok text => text.headD 0 ≠ 0
  | .error _ => false

/-- The checks of the manifest. -/
def checkManifest (p : SfPackage) : Except SfError Unit :=
  if (p.manifest.headD 0).toNat / 32 ≠ 5 ∨ item p.manifest 0 ≠ .ok [] then throw .badFormat
  else if identityText p (if p.kind = 1 then moduleKey else appKey) = false ∨
    (sfManifestText p versionKey 96).isOk = false then
    throw .badFormat
  else if p.kind = 2 ∧ (sfManifestText p runtimeKey 96).isOk = false then throw .badFormat
  else if p.kind = 2 ∧ appAbi p = false then throw .abiMismatch
  else if p.kind = 2 ∧ appManifest p = false then throw .badFormat
  else pure ()

/-- Everything before the search for the key. -/
def parse (d : List UInt8) : Except SfError SfPackage := do
  let h ← checkHeader d
  let t ← checkTable d h
  checkTiling d t.ranges
  let sig := d.drop h.signature
  let p : SfPackage :=
    { data := d, manifest := (d.drop h.manifest).take h.manifestBytes, kind := h.kind, entry := h.entry
      signature := h.signature, keyId := sig.take 32, sections := t.sections
      nativeProfile := 0, relocationOffset := 0, relocationCount := 0 }
  checkManifest p
  if sfU16 (sig.drop 32) ≠ 1 ∨ sfU16 (sig.drop 34) ≠ 0 ∨ sfU32 (sig.drop 36) ≠ 64 then throw .badFormat else pure p

/-! ## Relocations -/

/-- The target of a relocation is a word of a data section. -/
def SfSection.holdsWord (s : SfSection) (target : Nat) : Bool :=
  s.type = 3 ∧ s.rva ≤ target ∧ span (target - s.rva) 8 s.memory

/-- The value of a relocation is an address in a mapped section. -/
def SfSection.holdsAddress (s : SfSection) (addend : Nat) : Bool := s.mapped ∧ s.rva ≤ addend ∧ addend - s.rva < s.memory

/-- The loop over the relocations, with the target before them. -/
def relocationsOk (sections : List SfSection) : Nat → Option Nat → List UInt8 → Bool
  | 0, _, _ => true
  | n + 1, previous, r =>
    let target := sfU64 r
    let addend := sfU64 (r.drop 8)
    if target % 8 ≠ 0 ∨ previous.any (target ≤ ·) ∨ sfImageMax ≤ addend then false
    else if (sections.any (·.holdsWord target)) = false ∨ (sections.any (·.holdsAddress addend)) = false then false
    else relocationsOk sections n (some target) (r.drop 16)

/-- `sf_native_relocations_validate` -/
def sfNativeRelocationsValidate (p : SfPackage) : Except SfError Unit :=
  if 64 < p.sections.length ∨ 1 < p.nativeProfile ∨ sfRelocationMax < p.relocationCount then throw .badFormat
  else if p.nativeProfile = 0 then
    if p.relocationCount ≠ 0 ∨ p.relocationOffset ≠ 0 then throw .badFormat else pure ()
  else if p.kind ≠ 2 ∨ span p.relocationOffset (p.relocationCount * 16) p.data.length = false then throw .badFormat
  else if relocationsOk p.sections p.relocationCount none (p.data.drop p.relocationOffset) = false then throw .badFormat
  else pure ()

/-- The profile that the manifest declares. -/
def declaredProfile (p : SfPackage) : Except SfError Nat :=
  match sfManifestText p profileKey 32 with
  | .error .notFound => pure 0
  | .error _ => throw .badFormat
  | .ok text =>
    if cstring text = staticProfile then pure 0
    else if cstring text ≠ relativeProfile ∨ p.kind ≠ 2 then throw .badFormat
    else pure 1

/-- `manifest_value(p, key, &c) != SF_NOT_FOUND` -/
def declares (p : SfPackage) (key : List UInt8) : Bool :=
  match manifestValue p key with
  | .error .notFound => false
  | _ => true

/-- Where the relocations are, as the manifest has it. -/
structure Placement where
  sectionIndex : Nat
  offset : Nat
  bytes : Nat

/-- The loop over the three fields of a placement. -/
def placement : Nat → Placement → Cursor → Except SfError Placement
  | 0, x, _ => pure x
  | n + 1, x, c => do
    let (k, c) ← textOf c
    let (v, c) ← headOf 0 c
    if k = sectionKey then placement n { x with sectionIndex := v } c
    else if k = offsetKey then placement n { x with offset := v } c
    else if k = bytesKey then placement n { x with bytes := v } c
    else throw .badFormat

/-- The relocation section is the only one of its type, and the placement covers it. -/
def placementOk (sections : List SfSection) (x : Placement) : Option SfSection :=
  if x.offset ≠ 0 ∨ sfRelocationMax * 16 < x.bytes ∨ x.bytes % 16 ≠ 0 then none
  else match sections[x.sectionIndex]? with
    | none => none
    | some s =>
      if s.type ≠ 4 ∨ x.bytes ≠ s.bytes then none
      else if ((sections.eraseIdx x.sectionIndex).any (·.type = 4)) then none
      else some s

/-- `native_profile` -/
def nativeProfile (p : SfPackage) : Except SfError SfPackage := do
  let profile ← declaredProfile p
  if declares p importRelocationsKey ∨ declares p nativeImportsKey then throw .badFormat
  else if profile = 0 then
    if declares p relocationsKey ∨ p.sections.any (fun s => s.type = 4 ∧ s.bytes ≠ 0) then throw .badFormat else pure p
  else do
    let c ← scannedValue p
    let (n, c) ← headOf 5 c
    if n ≠ 3 then throw .badFormat
    else do
      let x ← placement 3 ⟨2 ^ 64 - 1, 2 ^ 64 - 1, 2 ^ 64 - 1⟩ c
      match placementOk p.sections x with
      | none => throw .badFormat
      | some s =>
        let p := { p with nativeProfile := 1, relocationOffset := s.offset, relocationCount := x.bytes / 16 }
        sfNativeRelocationsValidate p
        pure p
where
  /-- `r = manifest_value(p, "relative_relocations", &c)`, where every failure is a bad format. -/
  scannedValue (p : SfPackage) : Except SfError Cursor :=
    match manifestValue p relocationsKey with
    | .ok c => pure c
    | .error _ => throw .badFormat

/-! ## The signature -/

/-- `"SpiritFoxOS-Package-v1"`, with its NUL. -/
def domain : List UInt8 :=
  [83, 112, 105, 114, 105, 116, 70, 111, 120, 79, 83, 45, 80, 97, 99, 107, 97, 103, 101, 45, 118, 49, 0]

section Open

variable (sha256 : List UInt8 → Digest) (ed25519Check : List UInt8 → List UInt8 → List UInt8 → Bool)

/-- What is signed: the digest of the file without the signature, in its domain. -/
def signedMessage (d : List UInt8) : List UInt8 := domain ++ (sha256 (d.take (d.length - 64))).toList

/-- The signature at the end of the file is one of this key. -/
def signatureOk (d publicKey : List UInt8) : Bool :=
  ed25519Check (d.drop (d.length - 64)) publicKey (signedMessage sha256 d)

/-- What a key must be meant for. -/
def usageOf (p : SfPackage) : Nat := if p.kind = 1 then 1 else 2

/-- `sf_package_open_trusted` -/
def sfPackageOpenTrusted (trust : SfTrustStore) (d : List UInt8) : Except SfError SfPackage := do
  Trust.sfTrustValidate trust
  let p ← parse d
  match Trust.selectKey sha256 trust p.keyId with
  | none => throw .badSignature
  | some key =>
    if key.revoked ≠ 0 then throw .revoked
    else if key.usage &&& usageOf p = 0 then throw .denied
    else if signatureOk sha256 ed25519Check d key.publicKey = false then throw .badSignature
    else nativeProfile p

end Open

/-! ## The section table -/

theorem span_eq_false {a n limit : Nat} : span a n limit = false ↔ ¬ a + n ≤ limit := by
  rw [← Bool.not_eq_true, span]
  simp only [Bool.and_eq_true, decide_eq_true_eq]
  omega

/-- The header has its magic, and the table, the manifest and the signature are in the file. -/
structure HeaderOk (d : List UInt8) (h : Header) : Prop where
  eq : h = readHeader d
  length : 264 ≤ d.length ∧ d.length ≤ sfPackageMax
  magic : d.take 8 = moduleMagic ∨ d.take 8 = appMagic
  count : 1 ≤ h.count ∧ h.count ≤ 64
  table : h.table + h.count * 64 ≤ d.length
  manifest : 1 ≤ h.manifestBytes ∧ h.manifest + h.manifestBytes ≤ d.length
  signature : h.signature + 104 = d.length

theorem checkHeader_ok (hok : checkHeader d = .ok h) : HeaderOk d h := by
  simp only [checkHeader, guard_eq_ok, pure_eq_ok, not_or, span_eq_false, not_not] at hok
  obtain ⟨⟨hmin, hmax⟩, hmagic, -, -, -, ⟨hcount, hcount', hbytes, -, htable, hmanifest, -, hsig⟩, rfl⟩ := hok
  exact ⟨rfl, ⟨by omega, by omega⟩, by tauto, ⟨by omega, by omega⟩, htable, ⟨by omega, hmanifest⟩, hsig⟩

/-- A section within the limits of its type. -/
structure SectionOk (sig : Nat) (x : SfSection) : Prop where
  type : 1 ≤ x.type ∧ x.type ≤ 5
  payload : x.offset + x.bytes ≤ sig
  mapped : x.mapped = true → x.flags = mappedFlags x.type ∧ x.rva % 4096 = 0 ∧ x.memory ≠ 0 ∧ x.bytes ≤ x.memory ∧
    x.rva + x.memory ≤ sfImageMax

/-- What a round of the loop has checked and added. -/
theorem checkSection_ok {acc acc' : Table} {i : Nat}
    (hok : checkSection d h acc i = .ok acc') :
    ∃ x, SectionOk h.signature x ∧ (x.mapped = true → ∀ y ∈ acc.sections, y.mapped = true → x.overlaps y = false) ∧
      acc'.sections = acc.sections ++ [x] ∧ acc'.ranges = acc.ranges ++ x.payload ∧
      (acc'.entryOk = true → acc.entryOk = true ∨ x.mapped = true ∧ x.holdsEntry h.entry = true) ∧
      acc'.mapped = acc.mapped + if x.mapped then 1 else 0 := by
  refine ⟨readSection (d.drop (h.table + i * 64)), ?_⟩
  simp only [checkSection, guard_eq_ok, not_or, span_eq_false, not_not] at hok
  obtain ⟨⟨-, hspan, htype, htype'⟩, hok⟩ := hok
  generalize readSection (d.drop (h.table + i * 64)) = x at *
  by_cases hx : x.type ≤ 3
  · have hmapped : x.mapped = true := decide_eq_true hx
    rw [if_pos hx] at hok
    simp only [guard_eq_ok, pure_eq_ok, not_or, not_not] at hok
    obtain ⟨⟨hflags, -, hrva, -, hmem, hbytes, himage⟩, hapart, rfl⟩ := hok
    refine ⟨⟨⟨by omega, by omega⟩, hspan, fun _ => ⟨hflags, hrva, hmem, by omega, himage⟩⟩, fun _ y hy hym => ?_,
      rfl, rfl, ?_, ?_⟩
    · simp only [any_eq_true, Bool.and_eq_true, not_exists, not_and, Bool.not_eq_true] at hapart
      exact hapart y hy hym
    · intro he
      exact (Bool.or_eq_true _ _ ▸ he).imp_right fun h => ⟨hmapped, h⟩
    · simp [hmapped]
  · have hmapped : x.mapped = false := decide_eq_false hx
    rw [if_neg hx] at hok
    simp only [guard_eq_ok, pure_eq_ok] at hok
    obtain ⟨-, rfl⟩ := hok
    refine ⟨⟨⟨by omega, by omega⟩, hspan, ?_⟩, ?_, rfl, rfl, Or.inl, ?_⟩ <;> simp [hmapped]

/-- The state of the loop over the section table. -/
structure Tabled (h : Header) (t : Table) : Prop where
  sections : ∀ x ∈ t.sections, SectionOk h.signature x
  apart : t.sections.Pairwise fun y x => y.mapped = true → x.mapped = true → x.overlaps y = false
  ranges : t.ranges = fixedRanges h ++ t.sections.flatMap SfSection.payload
  entry : t.entryOk = true → ∃ x ∈ t.sections, x.mapped = true ∧ x.holdsEntry h.entry = true
  mapped : t.mapped = t.sections.countP SfSection.mapped

theorem checkTable_ok {t : Table} (hok : checkTable d h = .ok t) :
    Tabled h t ∧ t.entryOk = true ∧ t.mapped ≤ 8 := by
  obtain ⟨t', hloop, hend⟩ := bind_eq_ok.1 hok
  obtain ⟨hgood, hpure⟩ := guard_eq_ok.1 hend
  obtain rfl := pure_eq_ok.1 hpure
  simp only [not_or, Bool.not_eq_false, Nat.not_lt] at hgood
  refine ⟨?_, hgood⟩
  refine foldlM_ok (I := Tabled h) ?_ ⟨by simp, .nil, by simp, by simp, rfl⟩ hloop
  intro acc i acc' hacc hround
  obtain ⟨x, hx, hapart, hsections, hranges, hentry, hmapped⟩ := checkSection_ok hround
  constructor
  · rw [hsections, forall_mem_append, forall_mem_singleton]
    exact ⟨hacc.sections, hx⟩
  · rw [hsections, pairwise_append]
    refine ⟨hacc.apart, pairwise_singleton _ x, ?_⟩
    intro y hy x' hx' hym hxm
    obtain rfl := mem_singleton.1 hx'
    exact hapart hxm y hy hym
  · rw [hranges, hacc.ranges, hsections, flatMap_append, append_assoc, flatMap_singleton]
  · intro he
    rw [hsections]
    rcases hentry he with he | he
    · obtain ⟨y, hy, hrest⟩ := hacc.entry he
      exact ⟨y, mem_append_left _ hy, hrest⟩
    · exact ⟨x, mem_append_right _ (mem_singleton_self x), he⟩
  · rw [hmapped, hacc.mapped, hsections, countP_append, countP_singleton]

/-! ## The tiling of the file -/

/-- The offset is in the range. -/
def Extent.contains (r : Extent) (o : Nat) : Bool := r.start ≤ o ∧ o < r.start + r.length

theorem exchange_perm : ∀ (r : Extent) (rest : List Extent), ((exchange r rest).1 :: (exchange r rest).2).Perm (r :: rest)
  | r, [] => List.Perm.refl _
  | r, s :: rest => by
    rw [exchange]
    split
    · exact (List.Perm.swap _ _ _).trans ((exchange_perm s rest).cons r)
    · exact ((List.Perm.swap _ _ _).trans ((exchange_perm r rest).cons s)).trans (List.Perm.swap _ _ _)

theorem sortRanges_perm : ∀ (n : Nat) (rs : List Extent), (sortRanges n rs).Perm rs
  | 0, [] => List.Perm.refl _
  | 0, _ :: _ => List.Perm.refl _
  | _ + 1, [] => List.Perm.refl _
  | n + 1, r :: rest => ((sortRanges_perm n _).cons _).trans (exchange_perm r rest)

theorem zero_drop {e n o : Nat} (h : zero (d.drop e) n = true) (he : e ≤ o) (hn : o < e + n) :
    d.getD o 0 = 0 := by
  rcases Nat.lt_or_ge o d.length with ho | ho
  · have hlt : o - e < ((d.drop e).take n).length := by
      rw [length_take, length_drop]
      omega
    have hget : ((d.drop e).take n)[o - e] = d[o] := by
      rw [getElem_take, getElem_drop]
      congr 1
      omega
    have hzero := all_eq_true.1 h _ (getElem_mem hlt)
    rw [hget] at hzero
    rw [getD_eq_getElem?_getD, getElem?_eq_getElem ho]
    exact beq_iff_eq.1 hzero
  · rw [getD_eq_getElem?_getD, getElem?_eq_none ho]
    rfl

/-- Every offset before the end is in one range, or in none and zero. -/
theorem tile_ok : ∀ {rs : List Extent} {e f : Nat}, tile d e rs = .ok f →
    e ≤ f ∧ (∀ r ∈ rs, e ≤ r.start) ∧ ∀ o, e ≤ o → o < f →
      rs.countP (·.contains o) = 1 ∨ rs.countP (·.contains o) = 0 ∧ d.getD o 0 = 0
  | [], e, f, h => by
    obtain rfl := pure_eq_ok.1 h
    exact ⟨Nat.le_refl _, nofun, fun o h₁ h₂ => absurd h₁ (by omega)⟩
  | r :: rs, e, f, h => by
    obtain ⟨hgood, hrest⟩ := guard_eq_ok.1 h
    simp only [not_or, Bool.not_eq_false, Nat.not_lt] at hgood
    obtain ⟨hle, hstarts, hcover⟩ := tile_ok hrest
    have hlater : ∀ o, o < r.start + r.length → rs.countP (·.contains o) = 0 := by
      intro o ho
      rw [countP_eq_zero]
      intro s hs
      have := hstarts s hs
      simp only [Extent.contains, decide_eq_true_eq]
      omega
    refine ⟨by omega, forall_mem_cons.2 ⟨hgood.1, fun s hs => by have := hstarts s hs; omega⟩, ?_⟩
    intro o h₁ h₂
    rw [countP_cons]
    by_cases hbefore : o < r.start
    · have hout : r.contains o = false := decide_eq_false (by omega)
      rw [hout, hlater o (by omega)]
      exact .inr ⟨rfl, zero_drop hgood.2 h₁ (by omega)⟩
    · by_cases hin : o < r.start + r.length
      · have hhit : r.contains o = true := decide_eq_true (by omega)
        rw [hhit, hlater o hin]
        exact .inl rfl
      · have hout : r.contains o = false := decide_eq_false (by omega)
        rw [hout]
        exact hcover o (by omega) h₂

theorem checkTiling_ok {ranges : List Extent} (h : checkTiling d ranges = .ok ()) :
    ∀ o < d.length, ranges.countP (·.contains o) = 1 ∨ ranges.countP (·.contains o) = 0 ∧ d.getD o 0 = 0 := by
  obtain ⟨stop, htile, hend⟩ := bind_eq_ok.1 h
  obtain ⟨hstop, -⟩ := guard_eq_ok.1 hend
  obtain rfl : stop = d.length := by omega
  intro o ho
  rw [← (sortRanges_perm ranges.length ranges).countP_eq]
  exact (tile_ok htile).2.2 o (Nat.zero_le o) ho

/-! ## Accepted packages -/

/-- The runs of bytes that have a meaning. -/
def regions (d : List UInt8) (p : SfPackage) : List Extent :=
  fixedRanges (readHeader d) ++ p.sections.flatMap SfSection.payload

/-- A file in its one form, with an image of disjoint pages that are never both writable and executable. -/
structure Canonical (d : List UInt8) (p : SfPackage) : Prop where
  covered : ∀ o < d.length,
    (regions d p).countP (·.contains o) = 1 ∨ (regions d p).countP (·.contains o) = 0 ∧ d.getD o 0 = 0
  trailer : (readHeader d).signature + 104 = d.length
  apart : (p.sections.filter SfSection.mapped).Pairwise fun x y => x.pageEnd ≤ y.rva ∨ y.pageEnd ≤ x.rva
  mapped : ∀ x ∈ p.sections, x.mapped = true →
    x.rva % 4096 = 0 ∧ x.memory ≠ 0 ∧ x.bytes ≤ x.memory ∧ x.pageEnd ≤ sfImageMax ∧
    (x.flags = 5 ∨ x.flags = 1 ∨ x.flags = 3)
  entry : ∃ x ∈ p.sections, x.mapped = true ∧ x.flags = 5 ∧ x.rva ≤ p.entry ∧ p.entry < x.rva + x.bytes
  few : p.sections.countP SfSection.mapped ≤ 8

theorem mappedFlags_cases (type : Nat) : mappedFlags type = 5 ∨ mappedFlags type = 1 ∨ mappedFlags type = 3 := by
  unfold mappedFlags
  split_ifs <;> simp

theorem pageEnd_le {x : SfSection} (h : x.rva + x.memory ≤ sfImageMax) : x.pageEnd ≤ sfImageMax := by
  unfold SfSection.pageEnd sfImageMax at *
  omega

/-- What the parts of `parse` have established. -/
theorem parse_ok (hok : parse d = .ok p) : Canonical d p ∧ p.data = d := by
  obtain ⟨h, hheader, hrest⟩ := bind_eq_ok.1 hok
  obtain ⟨t, htable, hrest⟩ := bind_eq_ok.1 hrest
  obtain ⟨⟨⟩, htiling, hrest⟩ := bind_eq_ok.1 hrest
  obtain ⟨⟨⟩, -, hrest⟩ := bind_eq_ok.1 hrest
  obtain rfl := pure_eq_ok.1 (guard_eq_ok.1 hrest).2
  have hhead := checkHeader_ok hheader
  obtain ⟨htab, hentry, hfew⟩ := checkTable_ok htable
  obtain rfl := hhead.eq
  refine ⟨⟨?_, hhead.signature, ?_, ?_, ?_, ?_⟩, rfl⟩
  · have hcover := checkTiling_ok htiling
    rw [htab.ranges] at hcover
    exact hcover
  · rw [pairwise_filter]
    apply htab.apart.imp
    intro x y hxy hx hy
    have := decide_eq_false_iff_not.1 (hxy hx hy)
    omega
  · intro x hx hm
    obtain ⟨hflags, hrva, hmem, hbytes, himage⟩ := (htab.sections x hx).mapped hm
    exact ⟨hrva, hmem, hbytes, pageEnd_le himage, hflags ▸ mappedFlags_cases x.type⟩
  · obtain ⟨x, hx, hm, hholds⟩ := htab.entry hentry
    obtain ⟨htype, hlo, hhi⟩ := of_decide_eq_true hholds
    have hlt : (readHeader d).entry < x.rva + x.bytes := by omega
    refine ⟨x, hx, hm, ?_, hlo, hlt⟩
    rw [((htab.sections x hx).mapped hm).1, htype]
    rfl
  · rw [← htab.mapped]
    exact hfew

/-- The flags of a mapped section follow from its type. -/
theorem parse_flags (hok : parse d = .ok p) :
    ∀ x ∈ p.sections, x.mapped = true → x.flags = mappedFlags x.type := by
  obtain ⟨h, -, hrest⟩ := bind_eq_ok.1 hok
  obtain ⟨t, htable, hrest⟩ := bind_eq_ok.1 hrest
  obtain ⟨⟨⟩, -, hrest⟩ := bind_eq_ok.1 hrest
  obtain ⟨⟨⟩, -, hrest⟩ := bind_eq_ok.1 hrest
  obtain rfl := pure_eq_ok.1 (guard_eq_ok.1 hrest).2
  intro x hx hm
  exact (((checkTable_ok htable).1.sections x hx).mapped hm).1

/-- The relocations are all that the profile adds. -/
theorem nativeProfile_ok {q : SfPackage} (h : nativeProfile p = .ok q) :
    ∃ profile offset count,
      q = { p with nativeProfile := profile, relocationOffset := offset, relocationCount := count } := by
  obtain ⟨profile, -, h⟩ := bind_eq_ok.1 h
  obtain ⟨-, h⟩ := guard_eq_ok.1 h
  split at h
  · obtain ⟨-, h⟩ := guard_eq_ok.1 h
    exact ⟨_, _, _, (pure_eq_ok.1 h).symm⟩
  obtain ⟨c, -, h⟩ := bind_eq_ok.1 h
  obtain ⟨x, -, h⟩ := bind_eq_ok.1 h
  obtain ⟨-, h⟩ := guard_eq_ok.1 h
  obtain ⟨x, -, h⟩ := bind_eq_ok.1 h
  split at h
  · cases h
  · obtain ⟨-, -, h⟩ := bind_eq_ok.1 h
    exact ⟨_, _, _, (pure_eq_ok.1 h).symm⟩

/-- The file is signed by this key of the store: the signature is checked over all bytes before it. -/
structure SignedUnder (sha256 : List UInt8 → Digest) (ed25519Check : List UInt8 → List UInt8 → List UInt8 → Bool)
    (trust : SfTrustStore) (d : List UInt8) (p : SfPackage) (key : SfTrustKey) : Prop where
  mem : key ∈ trust
  keyId : (sha256 key.publicKey).toList = p.keyId
  revoked : key.revoked = 0
  usage : key.usage &&& usageOf p ≠ 0
  signature : ed25519Check (d.drop (d.length - 64)) key.publicKey (domain ++ (sha256 (d.take (d.length - 64))).toList) = true

section Open

variable {sha256 : List UInt8 → Digest} {ed25519Check : List UInt8 → List UInt8 → List UInt8 → Bool} {trust : SfTrustStore}
  {d : List UInt8} {p : SfPackage}

theorem open_ok (h : sfPackageOpenTrusted sha256 ed25519Check trust d = .ok p) :
    ∃ q key, parse d = .ok q ∧ nativeProfile q = .ok p ∧ SignedUnder sha256 ed25519Check trust d q key := by
  obtain ⟨⟨⟩, -, h⟩ := bind_eq_ok.1 h
  obtain ⟨q, hparse, h⟩ := bind_eq_ok.1 h
  cases hkey : Trust.selectKey sha256 trust q.keyId with
  | none => rw [hkey] at h; cases h
  | some key =>
    rw [hkey] at h
    simp only [guard_eq_ok, not_not] at h
    obtain ⟨hrev, husage, hsig, hprofile⟩ := h
    obtain ⟨hmem, hid⟩ := Trust.selectKey_mem hkey
    exact ⟨q, key, hparse, hprofile, hmem, hid, hrev, husage, by simpa [signatureOk, signedMessage] using hsig⟩

theorem open_canonical (h : sfPackageOpenTrusted sha256 ed25519Check trust d = .ok p) : Canonical d p := by
  obtain ⟨q, key, hparse, hprofile, -⟩ := open_ok h
  obtain ⟨profile, offset, count, rfl⟩ := nativeProfile_ok hprofile
  obtain ⟨hq, -⟩ := parse_ok hparse
  exact ⟨hq.covered, hq.trailer, hq.apart, hq.mapped, hq.entry, hq.few⟩

/-- **Accepted packages are canonical, page-disjoint and never writable and executable**, and signed over everything but the
signature by an unrevoked key of the store that is meant for them. -/
theorem package_canonical (h : sfPackageOpenTrusted sha256 ed25519Check trust d = .ok p) :
    Canonical d p ∧ ∃ key, SignedUnder sha256 ed25519Check trust d p key := by
  obtain ⟨q, key, -, hprofile, hsigned⟩ := open_ok h
  obtain ⟨profile, offset, count, rfl⟩ := nativeProfile_ok hprofile
  exact ⟨open_canonical h, key, hsigned.mem, hsigned.keyId, hsigned.revoked, hsigned.usage, hsigned.signature⟩

/-- The manifest of an application that asks for one capability and 4096 bytes of memory. -/
def sampleManifest : List UInt8 :=
  [0xa6, 0x66] ++ appKey ++ [0x61, 97, 0x67] ++ abiKey ++ [1, 0x67] ++ versionKey ++ [0x61, 49, 0x6a] ++ runtimeKey ++
    [0x61, 110, 0x6e] ++ capsKey ++ [0x81, 0x61, 108, 0x6f] ++ limitsKey ++ [0xa1, 0x66] ++ memoryKey ++ [0x19, 16, 0]

/-- An application with one byte of text. -/
def sampleApp : List UInt8 :=
  let u (n v : Nat) : List UInt8 := ByteMem.toLe n v
  appMagic ++ u 2 1 ++ u 2 0 ++ u 4 96 ++ u 8 4201 ++ u 2 2 ++ u 2 1 ++ u 2 1 ++ u 2 0 ++ u 4 0 ++ u 4 1 ++
    u 8 96 ++ u 8 160 ++ u 8 87 ++ u 8 4097 ++ u 4 104 ++ u 4 0 ++ u 8 0 ++ u 8 0 ++
  u 4 1 ++ u 4 5 ++ u 8 4096 ++ u 8 1 ++ u 8 1 ++ u 8 0 ++ u 8 4096 ++ u 16 0 ++ sampleManifest ++
  List.replicate 3849 0 ++ [0x90] ++ List.replicate 32 0 ++ u 2 1 ++ u 2 0 ++ u 4 64 ++ List.replicate 64 0

/-- Opening the sample with a constant digest and a check that accepts every signature. -/
def sampleOpen : Except SfError SfPackage :=
  sfPackageOpenTrusted (fun _ => Vector.replicate 32 0) (fun _ _ _ => true) [⟨List.replicate 32 7, 2, 0⟩] sampleApp

theorem sampleOpen_ok : ∃ p, sampleOpen = .ok p ∧ p.kind = 2 := by
  have hkind : sampleOpen.toOption.map SfPackage.kind = some 2 := by decide +kernel
  cases h : sampleOpen with
  | error e =>
    rw [h] at hkind
    cases hkind
  | ok p =>
    rw [h] at hkind
    exact ⟨p, rfl, Option.some.inj hkind⟩

theorem package_canonical_sample : ∃ p, sampleOpen = .ok p ∧ Canonical sampleApp p := by
  obtain ⟨p, h, -⟩ := sampleOpen_ok
  exact ⟨p, h, (package_canonical h).1⟩

end Open

/-! ## The code behind the trust decisions -/

section View

/-- What trust decisions see of a package. -/
def SfPackage.view (p : SfPackage) : Trust.SfPackage := ⟨p.data, p.kind, p.keyId⟩

/-- An error that is not about a key. -/
abbrev Plain {α : Type} (x : Except SfError α) : Prop := Raises (· ≠ SfError.revoked) x

theorem plain_scanned {α : Type} (x : Scan α) : Plain (scanned x) := by
  cases x with
  | ok a => exact raises_ok a
  | error e => exact raises_throw nofun

theorem plain_headOf (type : Nat) (c : Cursor) : Plain (headOf type c) :=
  raises_bind (plain_scanned _) fun _ _ => raises_guard nofun fun _ => raises_ok _

theorem plain_textOf (c : Cursor) : Plain (textOf c) :=
  raises_bind (plain_headOf 3 c) fun _ _ => raises_guard nofun fun _ => raises_ok _

theorem plain_placement : ∀ (n : Nat) (x : Placement) (c : Cursor), Plain (placement n x c)
  | 0, _, _ => raises_ok _
  | n + 1, x, c => by
    refine raises_bind (plain_textOf c) fun _ _ => raises_bind (plain_headOf 0 _) fun _ _ => ?_
    refine raises_ite (fun _ => plain_placement n _ _) fun _ => raises_ite (fun _ => plain_placement n _ _) fun _ => ?_
    exact raises_ite (fun _ => plain_placement n _ _) fun _ => raises_throw nofun

theorem plain_checkSection (d : List UInt8) (h : Header) (acc : Table) (i : Nat) : Plain (checkSection d h acc i) := by
  refine raises_guard nofun fun _ => raises_ite (fun _ => ?_) fun _ => raises_guard nofun fun _ => raises_ok _
  exact raises_guard nofun fun _ => raises_guard nofun fun _ => raises_ok _

theorem plain_checkTable (d : List UInt8) (h : Header) : Plain (checkTable d h) :=
  raises_bind (raises_foldlM (plain_checkSection d h)) fun _ _ => raises_guard nofun fun _ => raises_ok _

theorem plain_tile (d : List UInt8) : ∀ (stop : Nat) (rs : List Extent), Plain (tile d stop rs)
  | _, [] => raises_ok _
  | _, _ :: rs => raises_guard nofun fun _ => plain_tile d _ rs

theorem plain_parse (d : List UInt8) : Plain (parse d) := by
  have hheader : Plain (checkHeader d) := by
    refine raises_guard nofun fun _ => raises_guard nofun fun _ => raises_guard nofun fun _ => raises_guard nofun fun _ => ?_
    exact raises_guard nofun fun _ => raises_guard nofun fun _ => raises_ok _
  have htiling : ∀ rs, Plain (checkTiling d rs) := fun rs =>
    raises_bind (plain_tile d 0 _) fun _ _ => raises_guard nofun fun _ => raises_ok _
  have hmanifest : ∀ p, Plain (checkManifest p) := by
    intro p
    refine raises_guard nofun fun _ => raises_guard nofun fun _ => raises_guard nofun fun _ => ?_
    exact raises_guard nofun fun _ => raises_guard nofun fun _ => raises_ok _
  refine raises_bind hheader fun h _ => raises_bind (plain_checkTable d h) fun t _ => raises_bind (htiling _) fun _ _ => ?_
  exact raises_bind (hmanifest _) fun _ _ => raises_guard nofun fun _ => raises_ok _

theorem plain_nativeProfile (p : SfPackage) : Plain (nativeProfile p) := by
  have hprofile : Plain (declaredProfile p) := by
    unfold declaredProfile
    split
    · exact raises_ok _
    · exact raises_throw nofun
    · exact raises_ite (fun _ => raises_ok _) fun _ => raises_guard nofun fun _ => raises_ok _
  have hvalue : Plain (nativeProfile.scannedValue p) := by
    unfold nativeProfile.scannedValue
    split
    · exact raises_ok _
    · exact raises_throw nofun
  have hvalidate : ∀ q, Plain (sfNativeRelocationsValidate q) := by
    intro q
    refine raises_guard nofun fun _ => raises_ite (fun _ => raises_guard nofun fun _ => raises_ok _) fun _ => ?_
    exact raises_guard nofun fun _ => raises_guard nofun fun _ => raises_ok _
  refine raises_bind hprofile fun _ _ => raises_guard nofun fun _ => raises_ite (fun _ => ?_) fun _ => ?_
  · exact raises_guard nofun fun _ => raises_ok _
  refine raises_bind hvalue fun _ _ => raises_bind (plain_headOf 5 _) fun _ _ => raises_guard nofun fun _ => ?_
  refine raises_bind (plain_placement 3 _ _) fun _ _ => ?_
  split
  · exact raises_throw nofun
  · exact raises_bind (hvalidate _) fun _ _ => raises_ok _

variable (sha256 : List UInt8 → Digest) (ed25519Check : List UInt8 → List UInt8 → List UInt8 → Bool)

/-- The code of this module, for the trust decisions: a package is parsed again from its bytes. -/
def packageCode : Trust.PackageCode where
  parse d := (parse d).map SfPackage.view
  verify p publicKey := signatureOk sha256 ed25519Check p.data publicKey
  nativeProfile p := do
    let q ← parse p.data
    let _ ← nativeProfile q
    pure ()
  manifestText p key size := do
    let q ← parse p.data
    sfManifestText q key size
  parse_ne d := by
    cases h : parse d with
    | ok p => exact nofun
    | error e => exact fun he => plain_parse d e h (Except.error.inj he)
  nativeProfile_ne p := fun he =>
    raises_bind (plain_parse p.data) (fun q _ => raises_bind (plain_nativeProfile q) fun _ _ => raises_ok ()) _ he rfl

theorem nativeProfile_view {d : List UInt8} {p : SfPackage} (hparse : parse d = .ok p) :
    (packageCode sha256 ed25519Check).nativeProfile p.view >>= (fun _ => pure p.view) =
      (nativeProfile p).map SfPackage.view := by
  have hstep : (packageCode sha256 ed25519Check).nativeProfile p.view = nativeProfile p >>= fun _ => pure () := by
    change parse p.data >>= _ = _
    rw [(parse_ok hparse).2, hparse]
    rfl
  rw [hstep]
  cases hq : nativeProfile p with
  | error e => rfl
  | ok q =>
    obtain ⟨profile, offset, count, rfl⟩ := nativeProfile_ok hq
    rfl

/-- **Opening a package is the trust decision over this code.** -/
theorem open_view (trust : SfTrustStore) (d : List UInt8) :
    Trust.sfPackageOpenTrusted sha256 (packageCode sha256 ed25519Check) trust d =
      (sfPackageOpenTrusted sha256 ed25519Check trust d).map SfPackage.view := by
  have hcode : (packageCode sha256 ed25519Check).parse d = (parse d).map SfPackage.view := rfl
  unfold Trust.sfPackageOpenTrusted sfPackageOpenTrusted
  rw [hcode]
  cases Trust.sfTrustValidate trust with
  | error e => rfl
  | ok u =>
    cases hparse : parse d with
    | error e => rfl
    | ok p =>
      have hprofile := nativeProfile_view sha256 ed25519Check hparse
      have hverify : (packageCode sha256 ed25519Check).verify p.view = signatureOk sha256 ed25519Check d :=
        congrArg (signatureOk sha256 ed25519Check) (parse_ok hparse).2
      change (match Trust.selectKey sha256 trust p.keyId with | none => _ | some key => _) =
        Except.map _ (match Trust.selectKey sha256 trust p.keyId with | none => _ | some key => _)
      cases Trust.selectKey sha256 trust p.keyId with
      | none => rfl
      | some key =>
        dsimp only
        rw [hverify, hprofile, show Trust.usageBit p.view = usageOf p from rfl]
        split_ifs <;> rfl

end View

end SpiritFox.Package
