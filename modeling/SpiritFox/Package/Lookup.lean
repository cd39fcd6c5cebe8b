import SpiritFox.Package.Container

/-!
# Looking up the manifest

The functions of `services/package.c` that look something up scan the bytes of the manifest again and skip what they
do not look for. On a manifest that the validator has accepted they agree with the map that it denotes:
`Reads.value` for the scan, `sfManifestText_eq` and `sfManifestCapability_eq` for what is found. The main result is
`manifest_lookups`.
-/

namespace SpiritFox.Package

open Checks List
open Cbor (Value Fits encodable KeyLt TextOk)
open Trust (SfTrustStore)

variable {p : SfPackage} {es : List (List Char × Value)}

/-! ## Capabilities -/

/-- The inner loop of `sf_manifest_capability`, which looks at every entry of the list. -/
def capabilityFound (capability : List UInt8) : Nat → Bool → Cursor → Except SfError Bool
  | 0, found, _ => pure found
  | n + 1, found, c => do
    let (text, c) ← textOf c
    scanned (utf8 text)
    capabilityFound capability n (found || text = capability) c

def sfManifestCapability (p : SfPackage) (capability : List UInt8) : Except SfError Bool :=
  match manifestValue p capsKey with
  -- the loop over the entries ends with 0
  | .error .notFound => pure false
  | .error e => throw e
  | .ok c => do
    let (count, c) ← headOf 4 c
    if 65536 < count then throw .badFormat else capabilityFound capability count false c

/-! ## The manifest as a map -/

/-- What a manifest has under a key. -/
def lookup (es : List (List Char × Value)) (key : List UInt8) : Option Value :=
  (es.find? fun e => Cbor.utf8 e.1 = key).map Prod.snd

/-- The texts of a list of texts. -/
def texts : List Value → Option (List (List UInt8))
  | [] => some []
  | .text t :: vs => (texts vs).map (Cbor.utf8 t :: ·)
  | _ :: _ => none

/-- The entries of a map that was accepted at some level. -/
def Entries (l : Nat) (es : List (List Char × Value)) : Prop := ∀ e ∈ es, TextOk e.1 ∧ Fits (encodable KeyLt) l e.2

/-- The entries as they stand in the manifest. -/
def written (es : List (List Char × Value)) : List UInt8 := Cbor.join (es.map fun e => (Cbor.text e.1, Cbor.encode e.2))

/-- The memory of the mapped sections. -/
def mappedTotal (ss : List SfSection) : Nat := ((ss.filter SfSection.mapped).map SfSection.memory).sum

section Scan

variable {l : Nat} {v : Value} {es : List (List Char × Value)} {key : List UInt8} {vs : List Value}

theorem written_cons (e : List Char × Value) (es : List (List Char × Value)) (r : Cursor) :
    written (e :: es) ++ r = Cbor.text e.1 ++ (Cbor.encode e.2 ++ (written es ++ r)) := by
  simp [written, Cbor.join]

/-- The head of a value is that of its type. -/
theorem headOf_encode (hv : Fits (encodable KeyLt) l v) (type : Nat) (r : Cursor) : headOf type (Cbor.encode v ++ r) =
    if v.major ≠ type then throw .badFormat else pure (v.argument, v.body ++ r) := by
  unfold headOf
  rw [Cbor.encode_eq, append_assoc, head_head (Cbor.major_lt v) (Cbor.argument_lt hv)]
  rfl

theorem textOf_text {k : List Char} (hk : TextOk k) (r : Cursor) : textOf (Cbor.text k ++ r) = pure (Cbor.utf8 k, r) := by
  unfold textOf headOf
  rw [Cbor.text, append_assoc, head_head (by decide) hk.2]
  change (if span 0 (Cbor.utf8 k).length (Cbor.utf8 k ++ r).length = false then throw SfError.badFormat
    else pure ((Cbor.utf8 k ++ r).take (Cbor.utf8 k).length, (Cbor.utf8 k ++ r).drop (Cbor.utf8 k).length)) = _
  rw [if_neg (span_append _ _), take_left, drop_left]

/-- A value is passed over, however it is nested. -/
theorem item_encode (hv : Fits (encodable KeyLt) l v) (hl : l ≤ 16) (r : Cursor) :
    scanned (item (Cbor.encode v ++ r) 1) = pure r := by
  have hne {k k' : List Char} (h : KeyLt k k') : k ≠ k' := by
    rintro rfl
    exact lt_irrefl _ h
  have hfits : Fits (encodable (· ≠ ·)) 16 v := hv.mono hne hl
  rw [item, itemAt_encode hfits r]
  rfl

theorem findValue_eq (hes : Entries l es) (hl : l ≤ 16) (r : Cursor) :
    (lookup es key = none → findValue key es.length (written es ++ r) = throw .notFound) ∧
      ∀ v, lookup es key = some v → ∃ rest, findValue key es.length (written es ++ r) = pure (Cbor.encode v ++ rest) := by
  induction es with
  | nil => exact ⟨fun _ => rfl, nofun⟩
  | cons e es ih =>
    obtain ⟨hkey, hvalue⟩ := hes e mem_cons_self
    have hrest := ih fun e he => hes e (mem_cons_of_mem _ he)
    have hstep : findValue key (e :: es).length (written (e :: es) ++ r) =
        if Cbor.utf8 e.1 = key then pure (Cbor.encode e.2 ++ (written es ++ r)) else findValue key es.length
          (written es ++ r) := by
      rw [written_cons, length_cons, findValue, textOf_text hkey, pure_bind]
      dsimp only
      rw [item_encode hvalue hl, pure_bind]
    rw [hstep, lookup, find?_cons]
    by_cases hk : Cbor.utf8 e.1 = key
    · rw [if_pos hk, decide_eq_true hk]
      refine ⟨nofun, fun v hv => ?_⟩
      cases hv
      exact ⟨_, rfl⟩
    · rw [if_neg hk, decide_eq_false hk]
      exact hrest

/-- The head tells the kinds of values apart. -/
theorem major_eq_zero : v.major = 0 ↔ ∃ m : Nat, v = .int m := by
  cases v with
  | int i =>
    simp only [Value.major, Value.int.injEq]
    constructor
    · intro h
      split at h
      · rename_i hi
        exact ⟨i.toNat, (Int.toNat_of_nonneg hi).symm⟩
      · cases h
    · rintro ⟨m, rfl⟩
      exact if_pos (Int.natCast_nonneg m)
  | _ => simp [Value.major]

theorem major_int_lt (i : Int) : (Value.int i).major < 2 := by
  rw [Value.major]
  split <;> decide

theorem major_eq_three : v.major = 3 ↔ ∃ t, v = .text t := by
  cases v with
  | int i =>
    have := major_int_lt i
    exact iff_of_false (by omega) nofun
  | _ => simp [Value.major]

theorem major_eq_four : v.major = 4 ↔ ∃ vs, v = .list vs := by
  cases v with
  | int i =>
    have := major_int_lt i
    exact iff_of_false (by omega) nofun
  | _ => simp [Value.major]

theorem major_eq_five : v.major = 5 ↔ ∃ es, v = .map es := by
  cases v with
  | int i =>
    have := major_int_lt i
    exact iff_of_false (by omega) nofun
  | _ => simp [Value.major]

/-- Only a text is read as one. -/
theorem textOf_encode (hv : Fits (encodable KeyLt) l v) (r : Cursor) : textOf (Cbor.encode v ++ r) =
    match v with
    | .text t => pure (Cbor.utf8 t, r)
    | _ => throw .badFormat := by
  by_cases hmajor : v.major = 3
  · obtain ⟨t, rfl⟩ := major_eq_three.1 hmajor
    cases l with
    | zero => exact hv.elim
    | succ l => exact textOf_text hv r
  · have hfail : textOf (Cbor.encode v ++ r) = throw .badFormat := by
      unfold textOf
      rw [headOf_encode hv, if_pos hmajor]
      rfl
    rw [hfail]
    cases v with
    | text t => exact absurd rfl hmajor
    | _ => rfl

theorem texts_cons (v : Value) (vs : List Value) : texts (v :: vs) =
    match v with
    | .text t => (texts vs).map (Cbor.utf8 t :: ·)
    | _ => none := by
  cases v <;> rfl

theorem length_texts {ss : List (List UInt8)} (h : texts vs = some ss) : ss.length = vs.length := by
  induction vs generalizing ss with
  | nil =>
    cases h
    rfl
  | cons v vs ih =>
    cases v with
    | text t =>
      obtain ⟨ss, hss, rfl⟩ := Option.map_eq_some_iff.1 h
      rw [length_cons, length_cons, ih hss]
    | _ => cases h

/-- The loop over a list fails on anything but a text, and finds what is among the texts. -/
theorem capabilityFound_eq (capability : List UInt8) (hvs : ∀ v ∈ vs, Fits (encodable KeyLt) l v)
    (found : Bool) (r : Cursor) : capabilityFound capability vs.length found (vs.flatMap Cbor.encode ++ r) =
      match texts vs with
      | none => throw .badFormat
      | some ss => pure (found || decide (capability ∈ ss)) := by
  induction vs generalizing found with
  | nil => simp [capabilityFound, texts]
  | cons v vs ih =>
    have hv := hvs v mem_cons_self
    rw [flatMap_cons, append_assoc, length_cons, capabilityFound, textOf_encode hv, texts_cons]
    cases v with
    | text t =>
      cases l with
      | zero => exact hv.elim
      | succ l =>
        dsimp only
        rw [pure_bind]
        dsimp only
        rw [utf8_utf8 hv.1]
        change capabilityFound capability vs.length (found || Cbor.utf8 t = capability) _ = _
        rw [ih fun v hv => hvs v (mem_cons_of_mem _ hv)]
        cases texts vs with
        | none => rfl
        | some ss =>
          have hmem : decide (capability ∈ Cbor.utf8 t :: ss) =
            (decide (Cbor.utf8 t = capability) || decide (capability ∈ ss)) := by
            simp [eq_comm]
          dsimp only [Option.map_some]
          rw [hmem, Bool.or_assoc]
    | _ => rfl

theorem capabilitiesOk_iff (hvs : ∀ v ∈ vs, Fits (encodable KeyLt) l v) (r : Cursor) :
    capabilitiesOk vs.length (vs.flatMap Cbor.encode ++ r) = .ok () ↔
      ∃ ss, texts vs = some ss ∧ ∀ s ∈ ss, 1 ≤ s.length ∧ s.length ≤ 64 := by
  induction vs with
  | nil => exact iff_of_true rfl ⟨[], rfl, nofun⟩
  | cons v vs ih =>
    have hv := hvs v mem_cons_self
    have hrest := ih fun v hv => hvs v (mem_cons_of_mem _ hv)
    rw [flatMap_cons, append_assoc, length_cons, capabilitiesOk, textOf_encode hv, texts_cons]
    cases v with
    | text t =>
      cases l with
      | zero => exact hv.elim
      | succ l =>
        dsimp only
        rw [pure_bind]
        dsimp only
        rw [guard_eq_ok, utf8_utf8 hv.1]
        change _ ∧ capabilitiesOk vs.length (vs.flatMap Cbor.encode ++ r) = .ok () ↔ _
        rw [hrest]
        simp only [Option.map_eq_some_iff]
        constructor
        · rintro ⟨hlen, ss, hss, hall⟩
          refine ⟨_, ⟨ss, hss, rfl⟩, forall_mem_cons.2 ⟨by omega, hall⟩⟩
        rintro ⟨_, ⟨ss, hss, rfl⟩, hall⟩
        obtain ⟨hlen, hall⟩ := forall_mem_cons.1 hall
        exact ⟨by omega, ss, hss, hall⟩
    | _ => exact iff_of_false nofun (by rintro ⟨ss, hss, -⟩; cases hss)

/-- The loop over the resource limits runs over the other keys. -/
theorem declaredMemory_skip (hes : Entries l es) (hl : l ≤ 16) (hkeys : ∀ e ∈ es, Cbor.utf8 e.1 ≠ memoryKey)
    (memory : Option Nat) (r : Cursor) : declaredMemory es.length memory (written es ++ r) = pure memory := by
  induction es with
  | nil => rfl
  | cons e es ih =>
    obtain ⟨hkey, hvalue⟩ := hes e mem_cons_self
    rw [written_cons, length_cons, declaredMemory, textOf_text hkey, pure_bind]
    dsimp only
    rw [if_neg (hkeys e mem_cons_self), item_encode hvalue hl, pure_bind]
    exact ih (fun e he => hes e (mem_cons_of_mem _ he)) fun e he => hkeys e (mem_cons_of_mem _ he)

/-- It finds the natural number under its key. -/
theorem declaredMemory_iff (hes : Entries l es) (hl : l ≤ 16) (hkeys : (es.map Prod.fst).Pairwise KeyLt) (r : Cursor)
    {m : Nat} :
    declaredMemory es.length none (written es ++ r) = .ok (some m) ↔ lookup es memoryKey = some (.int m) := by
  induction es with
  | nil => exact iff_of_false nofun nofun
  | cons e es ih =>
    obtain ⟨hkey, hvalue⟩ := hes e mem_cons_self
    have hrest : Entries l es := fun e he => hes e (mem_cons_of_mem _ he)
    obtain ⟨hfirst, hkeys⟩ := pairwise_cons.1 hkeys
    rw [written_cons, length_cons, declaredMemory, textOf_text hkey, pure_bind, lookup, find?_cons]
    dsimp only
    by_cases hk : Cbor.utf8 e.1 = memoryKey
    · rw [if_pos hk, decide_eq_true hk, Option.isSome_none, if_neg Bool.false_ne_true, headOf_encode hvalue]
      -- the key is there once, so the rest of the loop skips
      have hother : ∀ f ∈ es, Cbor.utf8 f.1 ≠ memoryKey := by
        intro f hf hsame
        have hlt := hfirst f.1 (mem_map_of_mem hf)
        rw [Cbor.utf8_injective (hk.trans hsame.symm)] at hlt
        exact lt_irrefl _ hlt
      by_cases hmajor : e.2.major = 0
      · obtain ⟨v, hv⟩ := major_eq_zero.1 hmajor
        have harg : e.2.argument = v := by
          rw [hv]
          rfl
        have hbody : e.2.body = [] := by
          rw [hv]
          rfl
        rw [if_neg (not_not.2 hmajor), pure_bind]
        dsimp only
        rw [hbody, nil_append, declaredMemory_skip hrest hl hother, harg, Option.map_some, hv]
        simp [pure, Except.pure]
      · rw [if_pos hmajor]
        refine iff_of_false nofun fun hv => hmajor (major_eq_zero.2 ⟨m, ?_⟩)
        exact Option.some.inj hv
    · rw [if_neg hk, decide_eq_false hk, item_encode hvalue hl, pure_bind]
      exact ih hrest hkeys

theorem mappedTotal_cons (s : SfSection) (ss : List SfSection) :
    mappedTotal (s :: ss) = (if s.mapped then s.memory else 0) + mappedTotal ss := by
  unfold mappedTotal
  rw [filter_cons]
  split <;> simp

theorem mappedMemory_ok {total : Nat} : ∀ {ss : List SfSection} {sum : Nat}, mappedMemory ss sum = some total →
    total = sum + mappedTotal ss
  | [], _, h => (Option.some.inj h).symm
  | s :: ss, sum, h => by
    rw [mappedMemory] at h
    rw [mappedTotal_cons]
    split at h
    · rename_i hs
      rw [if_pos hs]
      split at h
      · cases h
      · rw [mappedMemory_ok h]
        omega
    · rename_i hs
      rw [if_neg hs, mappedMemory_ok h]
      omega

theorem mappedMemory_eq : ∀ {ss : List SfSection} {sum : Nat}, sum + mappedTotal ss < 2 ^ 64 →
    mappedMemory ss sum = some (sum + mappedTotal ss)
  | [], _, _ => rfl
  | s :: ss, sum, h => by
    rw [mappedTotal_cons] at h ⊢
    rw [mappedMemory]
    split
    · rename_i hs
      rw [if_pos hs] at h
      rw [if_neg (by omega), mappedMemory_eq (by omega), Nat.add_assoc]
    · rename_i hs
      rw [if_neg hs] at h
      rw [mappedMemory_eq (by omega), Nat.zero_add]

end Scan

/-! ## Lookups -/

/-- The manifest of `p` is the encoding of this map. -/
structure Reads (p : SfPackage) (es : List (List Char × Value)) : Prop where
  eq : p.manifest = Cbor.head 5 es.length ++ written es
  few : es.length ≤ 65536
  keys : (es.map Prod.fst).Pairwise KeyLt
  entries : Entries 16 es

theorem Denotes.reads (h : Denotes (.map es) p.manifest) : Reads p es := by
  obtain ⟨hfew, hkeys, hes⟩ := h.fits
  refine ⟨?_, hfew, hkeys, hes⟩
  rw [← h.eq, Cbor.encode_eq, Cbor.join_sorted hkeys]
  rfl

/-- The resource limits cover the mapped sections. -/
def Budget (sections : List SfSection) (rs : List (List Char × Value)) : Prop :=
  1 ≤ rs.length ∧ rs.length ≤ 16 ∧
    ∃ m : Nat, lookup rs memoryKey = some (.int m) ∧ mappedTotal sections ≤ m ∧ m ≤ sfPackageMax

/-- What an application must declare. -/
structure AppManifest (es : List (List Char × Value)) (sections : List SfSection) : Prop where
  caps : ∃ vs ss, lookup es capsKey = some (.list vs) ∧ texts vs = some ss ∧ ss.length ≤ 32 ∧
    ∀ s ∈ ss, 1 ≤ s.length ∧ s.length ≤ 64
  limits : ∃ rs, lookup es limitsKey = some (.map rs) ∧ Budget sections rs

section Lookups

variable {p : SfPackage} {es : List (List Char × Value)} {key : List UInt8}

theorem Reads.fits (h : Reads p es) {v : Value} (hv : lookup es key = some v) : Fits (encodable KeyLt) 16 v := by
  obtain ⟨e, he, rfl⟩ := Option.map_eq_some_iff.1 hv
  exact (h.entries e (mem_of_find?_eq_some he)).2

theorem Reads.value (h : Reads p es) :
    (lookup es key = none → manifestValue p key = throw .notFound) ∧
      ∀ v, lookup es key = some v → ∃ rest, manifestValue p key = pure (Cbor.encode v ++ rest) := by
  have hstart : manifestValue p key = findValue key es.length (written es ++ []) := by
    unfold manifestValue headOf
    rw [h.eq, head_head (by decide) (Nat.lt_of_le_of_lt h.few (by decide)), append_nil]
    rfl
  rw [hstart]
  exact findValue_eq h.entries (Nat.le_refl 16) []

/-- The head of what the key has. -/
theorem Reads.typed (h : Reads p es) (key : List UInt8) : ∃ rest, ∀ type, manifestValue p key >>= headOf type =
    match lookup es key with
    | none => throw .notFound
    | some v => if v.major ≠ type then throw .badFormat else pure (v.argument, v.body ++ rest) := by
  cases hv : lookup es key with
  | none =>
    refine ⟨[], fun type => ?_⟩
    rw [h.value.1 hv]
    rfl
  | some v =>
    obtain ⟨rest, hrest⟩ := h.value.2 v hv
    refine ⟨rest, fun type => ?_⟩
    rw [hrest, pure_bind, headOf_encode (h.fits hv)]

/-- `sf_manifest_text` on what the key has. -/
theorem sfManifestText_eq (h : Reads p es) (size : Nat) : sfManifestText p key size =
    match lookup es key with
    | none => throw .notFound
    | some (.text t) => if size ≤ (Cbor.utf8 t).length then throw .badFormat else pure (Cbor.utf8 t)
    | some _ => throw .badFormat := by
  obtain ⟨rest, htyped⟩ := h.typed key
  unfold sfManifestText
  rw [← bind_assoc, htyped]
  cases hv : lookup es key with
  | none => rfl
  | some v =>
    by_cases hmajor : v.major = 3
    · obtain ⟨t, rfl⟩ := major_eq_three.1 hmajor
      dsimp only
      rw [if_neg (not_not.2 hmajor), pure_bind]
      change (if size ≤ (Cbor.utf8 t).length ∨ span 0 (Cbor.utf8 t).length (Cbor.utf8 t ++ rest).length = false
        then throw SfError.badFormat else pure ((Cbor.utf8 t ++ rest).take (Cbor.utf8 t).length)) = _
      rw [take_left, if_congr (or_iff_left (span_append _ _)) rfl rfl]
    · dsimp only
      rw [if_pos hmajor]
      cases v with
      | text t => exact absurd rfl hmajor
      | _ => rfl

/-- `sf_manifest_capability` on what `requested_caps` has. -/
theorem sfManifestCapability_eq (h : Reads p es) (capability : List UInt8) : sfManifestCapability p capability =
    match lookup es capsKey with
    | none => pure false
    | some (.list vs) => match texts vs with
      | none => throw .badFormat
      | some ss => pure (decide (capability ∈ ss))
    | some _ => throw .badFormat := by
  unfold sfManifestCapability
  cases hv : lookup es capsKey with
  | none =>
    rw [h.value.1 hv]
    rfl
  | some v =>
    obtain ⟨rest, hrest⟩ := h.value.2 v hv
    rw [hrest]
    change headOf 4 _ >>= _ = _
    rw [headOf_encode (h.fits hv)]
    by_cases hmajor : v.major = 4
    · obtain ⟨vs, rfl⟩ := major_eq_four.1 hmajor
      obtain ⟨hfew, hvs⟩ := h.fits hv
      rw [if_neg (not_not.2 hmajor), pure_bind]
      change (if 65536 < vs.length then throw SfError.badFormat
        else capabilityFound capability vs.length false (vs.flatMap Cbor.encode ++ rest)) = _
      rw [if_neg (Nat.not_lt.2 hfew), capabilityFound_eq capability hvs]
      simp only [Bool.false_or]
    · rw [if_pos hmajor]
      cases v with
      | list vs => exact absurd rfl hmajor
      | _ => rfl

theorem appAbi_iff (h : Reads p es) : appAbi p = true ↔ lookup es abiKey = some (.int 1) := by
  obtain ⟨rest, htyped⟩ := h.typed abiKey
  unfold appAbi
  rw [htyped]
  cases hv : lookup es abiKey with
  | none => exact iff_of_false Bool.false_ne_true nofun
  | some v =>
    dsimp only
    by_cases hmajor : v.major = 0
    · obtain ⟨m, rfl⟩ := major_eq_zero.1 hmajor
      rw [if_neg (not_not.2 hmajor)]
      change decide (m = 1) = true ↔ _
      rw [decide_eq_true_iff, Option.some.injEq, Value.int.injEq]
      omega
    · rw [if_pos hmajor]
      exact iff_of_false Bool.false_ne_true fun heq => hmajor (major_eq_zero.2 ⟨1, Option.some.inj heq⟩)

/-- The last steps of `app_manifest`. -/
def checkBudget (sections : List SfSection) (n : Nat) (limits : Cursor) : Except SfError Unit :=
  if n = 0 ∨ 16 < n then throw .badFormat
  else do
    match ← declaredMemory n none limits, mappedMemory sections 0 with
    | some memory, some mapped => if mapped ≤ memory ∧ memory ≤ sfPackageMax then pure () else throw .badFormat
    | _, _ => throw .badFormat

theorem checkAppManifest_eq (p : SfPackage) : checkAppManifest p = (manifestValue p capsKey >>= headOf 4) >>= fun x =>
    if 32 < x.1 then throw .badFormat
    else capabilitiesOk x.1 x.2 >>= fun _ => (manifestValue p limitsKey >>= headOf 5) >>= fun y =>
      checkBudget p.sections y.1 y.2 := by
  simp only [bind_assoc]
  rfl

theorem checkBudget_iff {rs : List (List Char × Value)} {l : Nat} (hrs : Entries l rs) (hl : l ≤ 16)
    (hkeys : (rs.map Prod.fst).Pairwise KeyLt) (sections : List SfSection) (r : Cursor) :
    checkBudget sections rs.length (written rs ++ r) = .ok () ↔ Budget sections rs := by
  unfold checkBudget Budget
  rw [guard_eq_ok, bind_eq_ok]
  constructor
  · rintro ⟨hfew, memory, hmemory, hok⟩
    refine ⟨by omega, by omega, ?_⟩
    split at hok
    · rename_i memory mapped hmapped
      split at hok
      · rename_i hle
        rw [mappedMemory_ok hmapped, Nat.zero_add] at hle
        exact ⟨memory, (declaredMemory_iff hrs hl hkeys r).1 hmemory, hle⟩
      · cases hok
    · cases hok
  · rintro ⟨hpos, hfew, m, hm, hle⟩
    refine ⟨by omega, some m, (declaredMemory_iff hrs hl hkeys r).2 hm, ?_⟩
    have hmapped : mappedMemory sections 0 = some (0 + mappedTotal sections) := by
      refine mappedMemory_eq ?_
      unfold sfPackageMax at hle
      omega
    rw [hmapped, Nat.zero_add]
    exact if_pos hle

/-- `app_manifest` on the map. -/
theorem appManifest_iff (h : Reads p es) : appManifest p = true ↔ AppManifest es p.sections := by
  obtain ⟨rest, hcaps⟩ := h.typed capsKey
  obtain ⟨rest', hlimits⟩ := h.typed limitsKey
  have hok : appManifest p = true ↔ checkAppManifest p = .ok () := by
    unfold appManifest
    cases checkAppManifest p with
    | error e => exact iff_of_false Bool.false_ne_true nofun
    | ok u => exact iff_of_true rfl rfl
  have hlist {vs : List Value} (hv : lookup es capsKey = some (.list vs)) :
    capabilitiesOk vs.length (vs.flatMap Cbor.encode ++ rest) =
      .ok () ↔ ∃ ss, texts vs = some ss ∧ ∀ s ∈ ss, 1 ≤ s.length ∧ s.length ≤ 64 := capabilitiesOk_iff (h.fits hv).2 rest
  have hmap {rs : List (List Char × Value)} (hv : lookup es limitsKey = some (.map rs)) :
      checkBudget p.sections rs.length ((Value.map rs).body ++ rest') = .ok () ↔ Budget p.sections rs := by
    obtain ⟨-, hkeys, hrs⟩ := h.fits hv
    rw [Cbor.join_sorted hkeys]
    exact checkBudget_iff hrs (by decide) hkeys p.sections rest'
  rw [hok, checkAppManifest_eq, hcaps, bind_eq_ok]
  constructor
  · rintro ⟨x, hx, hrest⟩
    obtain ⟨hfew, hrest⟩ := guard_eq_ok.1 hrest
    obtain ⟨⟨⟩, htexts, hrest⟩ := bind_eq_ok.1 hrest
    rw [hlimits] at hrest
    obtain ⟨y, hy, hbudget⟩ := bind_eq_ok.1 hrest
    cases hv : lookup es capsKey with
    | none =>
      rw [hv] at hx
      cases hx
    | some v =>
      rw [hv, guard_eq_ok] at hx
      obtain ⟨vs, rfl⟩ := major_eq_four.1 (not_not.1 hx.1)
      obtain rfl := pure_eq_ok.1 hx.2
      obtain ⟨ss, hss, hall⟩ := (hlist hv).1 htexts
      refine ⟨⟨vs, ss, hv, hss, ?_, hall⟩, ?_⟩
      · rw [length_texts hss]
        exact Nat.not_lt.1 hfew
      cases hw : lookup es limitsKey with
      | none =>
        rw [hw] at hy
        cases hy
      | some w =>
        rw [hw, guard_eq_ok] at hy
        obtain ⟨rs, rfl⟩ := major_eq_five.1 (not_not.1 hy.1)
        obtain rfl := pure_eq_ok.1 hy.2
        exact ⟨rs, rfl, (hmap hw).1 hbudget⟩
  · rintro ⟨⟨vs, ss, hv, hss, hfew, hall⟩, rs, hw, hbudget⟩
    rw [length_texts hss] at hfew
    refine ⟨(vs.length, vs.flatMap Cbor.encode ++ rest), ?_,
      guard_eq_ok.2 ⟨Nat.not_lt.2 hfew, bind_eq_ok.2 ⟨(), (hlist hv).2 ⟨ss, hss, hall⟩, ?_⟩⟩⟩
    · rw [hv]
      rfl
    · rw [hlimits, hw]
      exact (hmap hw).2 hbudget

end Lookups

/-! ## Accepted packages -/

/-- What the manifest of `p` answers is what the map has. -/
structure LookupsAgree (p : SfPackage) (es : List (List Char × Value)) : Prop where
  /-- The scan finds the value of a key. -/
  value : ∀ key, (manifestValue p key = .error .notFound ↔ lookup es key = none) ∧
    ∀ v, lookup es key = some v → ∃ rest, manifestValue p key = .ok (Cbor.encode v ++ rest)
  text : ∀ key size, (∀ s, sfManifestText p key size = .ok s ↔
      (∃ t, lookup es key = some (.text t) ∧ s = Cbor.utf8 t) ∧ s.length < size) ∧
    (sfManifestText p key size = .error .notFound ↔ lookup es key = none) ∧
    ∀ e, sfManifestText p key size = .error e → e = .notFound ∨ e = .badFormat
  capability : ∀ c, (sfManifestCapability p c = .ok true ↔
      ∃ vs ss, lookup es capsKey = some (.list vs) ∧ texts vs = some ss ∧ c ∈ ss) ∧
    (sfManifestCapability p c = .ok false ↔
      lookup es capsKey = none ∨ ∃ vs ss, lookup es capsKey = some (.list vs) ∧ texts vs = some ss ∧ c ∉ ss)
  abi : appAbi p = true ↔ lookup es abiKey = some (.int 1)
  app : appManifest p = true ↔ AppManifest es p.sections

/-- What the scan for a text returns. -/
theorem Reads.text (h : Reads p es) (key : List UInt8) (size : Nat) :
    (∀ s, sfManifestText p key size = .ok s ↔
        (∃ t, lookup es key = some (.text t) ∧ s = Cbor.utf8 t) ∧ s.length < size) ∧
      (sfManifestText p key size = .error .notFound ↔ lookup es key = none) ∧
      ∀ e, sfManifestText p key size = .error e → e = .notFound ∨ e = .badFormat := by
  have hother (hv : ∀ t, lookup es key ≠ some (.text t)) (s : List UInt8) (e : SfError) :
      (.error e : Except SfError (List UInt8)) = .ok s ↔
        (∃ t, lookup es key = some (.text t) ∧ s = Cbor.utf8 t) ∧ s.length < size :=
    iff_of_false nofun fun ⟨⟨t, ht, _⟩, _⟩ => hv t ht
  rw [sfManifestText_eq h]
  cases hv : lookup es key with
  | none =>
    rw [hv] at hother
    exact ⟨fun s => hother nofun s _, iff_of_true rfl rfl, fun e he => .inl (Except.error.inj he).symm⟩
  | some v =>
    have hbad : (throw .badFormat : Except SfError (List UInt8)) ≠ .error .notFound := nofun
    cases v with
    | text t =>
      dsimp only
      by_cases hsize : size ≤ (Cbor.utf8 t).length
      · rw [if_pos hsize]
        refine ⟨fun s => iff_of_false nofun ?_, iff_of_false hbad nofun, fun e he => .inr (Except.error.inj he).symm⟩
        rintro ⟨⟨u, hu, rfl⟩, hlt⟩
        cases hu
        omega
      · rw [if_neg hsize]
        refine ⟨fun s => ⟨fun hs => ?_, ?_⟩, iff_of_false nofun nofun, nofun⟩
        · obtain rfl := pure_eq_ok.1 hs
          exact ⟨⟨t, rfl, rfl⟩, Nat.not_le.1 hsize⟩
        rintro ⟨⟨u, hu, rfl⟩, -⟩
        cases hu
        rfl
    | _ =>
      rw [hv] at hother
      exact ⟨fun s => hother nofun s _, iff_of_false hbad nofun, fun e he => .inr (Except.error.inj he).symm⟩

theorem Reads.agree (h : Reads p es) : LookupsAgree p es where
  value key := by
    refine ⟨⟨fun hnone => ?_, h.value.1⟩, h.value.2⟩
    cases hv : lookup es key with
    | none => rfl
    | some v =>
      obtain ⟨rest, hrest⟩ := h.value.2 v hv
      rw [hrest] at hnone
      cases hnone
  text key size := h.text key size
  capability c := by
    rw [sfManifestCapability_eq h]
    cases hv : lookup es capsKey with
    | none => exact ⟨iff_of_false nofun nofun, iff_of_true rfl (.inl rfl)⟩
    | some v =>
      cases v with
      | list vs =>
        dsimp only
        cases hss : texts vs with
        | none => simp [hss, throw_eq_ok]
        | some ss => simp [hss, pure_eq_ok]
      | _ => simp [throw_eq_ok]
  abi := appAbi_iff h
  app := appManifest_iff h

theorem parse_manifest {d : List UInt8} (hok : parse d = .ok p) : checkManifest p = .ok () := by
  obtain ⟨h, -, hrest⟩ := bind_eq_ok.1 hok
  obtain ⟨t, -, hrest⟩ := bind_eq_ok.1 hrest
  obtain ⟨⟨⟩, -, hrest⟩ := bind_eq_ok.1 hrest
  obtain ⟨⟨⟩, hmanifest, hrest⟩ := bind_eq_ok.1 hrest
  obtain rfl := pure_eq_ok.1 (guard_eq_ok.1 hrest).2
  exact hmanifest

/-- The manifest that was checked is a map. -/
theorem checkManifest_denotes (hok : checkManifest p = .ok ()) : ∃ es, Denotes (.map es) p.manifest := by
  obtain ⟨htop, -⟩ := guard_eq_ok.1 hok
  rw [not_or, not_not, not_not] at htop
  obtain ⟨v, hv, -⟩ := manifest_agrees.denotes htop.2
  have hmajor : v.major = 5 := by
    have hfirst := htop.1
    have hlt := Cbor.major_lt v
    have htag := Cbor.tag_lt v.argument
    rw [← hv.eq, Cbor.encode_eq, Cbor.head, cons_append, headD_cons, toNat_byte (by omega)] at hfirst
    omega
  obtain ⟨es, rfl⟩ := major_eq_five.1 hmajor
  exact ⟨es, hv⟩

section Open

variable {sha256 : List UInt8 → Digest} {ed25519Check : List UInt8 → List UInt8 → List UInt8 → Bool} {trust : SfTrustStore}
  {d : List UInt8} {p : SfPackage}

/-- **Lookups agree with the manifest**: the manifest of an accepted package denotes a map, every lookup answers
what the map has, and the map of an application has its ABI, its capabilities and a budget that covers its sections.
-/
theorem manifest_lookups (h : sfPackageOpenTrusted sha256 ed25519Check trust d = .ok p) :
    ∃ es, Denotes (.map es) p.manifest ∧ LookupsAgree p es ∧
      (p.kind = 2 → lookup es abiKey = some (.int 1) ∧ AppManifest es p.sections) := by
  obtain ⟨q, key, hparse, hprofile, -⟩ := open_ok h
  obtain ⟨profile, offset, count, rfl⟩ := nativeProfile_ok hprofile
  have hmanifest := parse_manifest hparse
  obtain ⟨es, hes⟩ := checkManifest_denotes hmanifest
  have hagree : LookupsAgree q es := hes.reads.agree
  refine ⟨es, hes, Reads.agree (Denotes.reads hes), fun hkind => ?_⟩
  unfold checkManifest at hmanifest
  simp only [guard_eq_ok, not_and, Bool.not_eq_false] at hmanifest
  obtain ⟨-, -, -, habi, happ, -⟩ := hmanifest
  exact ⟨hagree.abi.1 (habi hkind), hagree.app.1 (happ hkind)⟩

theorem manifest_lookups_sample : ∃ p es, sampleOpen = .ok p ∧ Denotes (.map es) p.manifest ∧ LookupsAgree p es ∧
    lookup es abiKey = some (.int 1) ∧ AppManifest es p.sections := by
  obtain ⟨p, h, hkind⟩ := sampleOpen_ok
  obtain ⟨es, hes, hagree, happ⟩ := manifest_lookups h
  exact ⟨p, es, h, hes, hagree, happ hkind⟩

end Open

end SpiritFox.Package
