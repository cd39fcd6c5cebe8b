import SpiritFox.Lib.Checks
import SpiritFox.Abi

/-!
# Package trust

The part of `services/package.c` and `services/trust.c` that decides whether a package may be used: the key that signed it is
selected by its digest, must not be revoked, and must be meant for this kind of package; a runtime overlay adds revocations.

What does not look at trust is a parameter, `PackageCode`: the structural checks of the container and its manifest, the
signature primitive and the manifest lookup. Everything here holds for every such code. The main result is
`sfTrustOpen_revoked`: no package signed by a revoked key opens.
-/

namespace SpiritFox.Trust

open Checks

/-- The digest of a public key, as it stands at the start of a signature block. -/
abbrev KeyId := List UInt8

/-- The members of `SfPackage` that trust decisions and their callers read. -/
structure SfPackage where
  data : List UInt8
  /-- 1 is a module, 2 an application. -/
  kind : Nat
  keyId : KeyId

structure SfTrustKey where
  publicKey : List UInt8
  usage : Nat
  revoked : Nat

abbrev SfTrustStore := List SfTrustKey

def sfTrustMax : Nat := 8

/-- What opening a package does apart from deciding on its key. -/
structure PackageCode where
  /-- The checks of `sf_package_open_trusted` before it selects a key. -/
  parse : List UInt8 → Except SfError SfPackage
  /-- `crypto_ed25519_check` of the signature at the end of the package, under a public key. -/
  verify : SfPackage → List UInt8 → Bool
  /-- `native_profile` -/
  nativeProfile : SfPackage → Except SfError Unit
  /-- `sf_manifest_text`: the text under a key, when it is shorter than a size. -/
  manifestText : SfPackage → List UInt8 → Nat → Except SfError (List UInt8)
  /-- `SF_REVOKED` is only ever the answer about a key. -/
  parse_ne : ∀ data, parse data ≠ .error .revoked
  nativeProfile_ne : ∀ p, nativeProfile p ≠ .error .revoked

/-- `sf_trust_validate` -/
def sfTrustValidate (trust : SfTrustStore) : Except SfError Unit :=
  if trust.length = 0 ∨ sfTrustMax < trust.length then .error .badFormat
  else if trust.all (fun k => k.usage != 0 && k.usage < 4 && k.revoked ≤ 1) ∧ (trust.map SfTrustKey.publicKey).Nodup then
    .ok ()
  else .error .badFormat

section Open

variable (sha256 : List UInt8 → Digest) (code : PackageCode) {keyId : KeyId}

/-- The last key of the store with this digest. -/
def selectKey (trust : SfTrustStore) (keyId : KeyId) : Option SfTrustKey :=
  trust.foldl (fun key k => if (sha256 k.publicKey).toList = keyId then some k else key) none

/-- `SF_TRUST_MODULE` or `SF_TRUST_APP`: what a key must be meant for. -/
def usageBit (p : SfPackage) : Nat := if p.kind = 1 then 1 else 2

/-- `sf_package_open_trusted` -/
def sfPackageOpenTrusted (trust : SfTrustStore) (data : List UInt8) : Except SfError SfPackage := do
  sfTrustValidate trust
  let p ← code.parse data
  match selectKey sha256 trust p.keyId with
  | none => throw .badSignature
  | some key =>
    if key.revoked ≠ 0 then throw .revoked
    else if key.usage &&& usageBit p = 0 then throw .denied
    else if code.verify p key.publicKey = false then throw .badSignature
    else
      code.nativeProfile p
      pure p

/-- `SfRuntimeTrust`: revocations over the immutable policy. -/
structure SfRuntimeTrust where
  policy : SfTrustStore
  revokedIds : List KeyId
  length_le : revokedIds.length ≤ sfTrustMax

/-- `sf_trust_init` with a store that passes its check. -/
def sfTrustInit (policy : SfTrustStore) : SfRuntimeTrust := ⟨policy, [], Nat.zero_le _⟩

/-- `sf_trust_revoked` -/
def sfTrustRevoked (s : SfRuntimeTrust) (keyId : KeyId) : Bool := s.revokedIds.contains keyId

/-- `sf_trust_revoke` -/
def sfTrustRevoke (s : SfRuntimeTrust) (keyId : KeyId) : Except SfError SfRuntimeTrust :=
  if sfTrustRevoked s keyId then .ok s
  else if h : s.revokedIds.length < sfTrustMax then
    .ok ⟨s.policy, s.revokedIds ++ [keyId], by rw [List.length_append]; exact h⟩
  else .error .noSpace

/-- `sf_trust_open` -/
def sfTrustOpen (s : SfRuntimeTrust) (data : List UInt8) : Except SfError SfPackage := do
  let p ← sfPackageOpenTrusted sha256 code s.policy data
  if sfTrustRevoked s p.keyId then throw .revoked else pure p

/-! ## Revoked keys -/

/-- The key is revoked in the store itself. -/
def PolicyRevoked (trust : SfTrustStore) (keyId : KeyId) : Prop :=
  ∃ key, selectKey sha256 trust keyId = some key ∧ key.revoked ≠ 0

/-- A package that carries a valid signature of the key with this digest: it opens but for revocations. -/
def SignedBy (trust : SfTrustStore) (keyId : KeyId) (data : List UInt8) : Prop :=
  ∃ p key, code.parse data = .ok p ∧ p.keyId = keyId ∧ selectKey sha256 trust keyId = some key ∧
    key.usage &&& usageBit p ≠ 0 ∧ code.verify p key.publicKey = true ∧ code.nativeProfile p = .ok ()

variable {sha256 code} {trust : SfTrustStore} {data : List UInt8}

/-- The selected key is in the store and has the digest it was selected by. -/
theorem selectKey_mem {key : SfTrustKey} (h : selectKey sha256 trust keyId = some key) :
    key ∈ trust ∧ (sha256 key.publicKey).toList = keyId := by
  suffices ∀ (rest : SfTrustStore) (found : Option SfTrustKey), (∀ k ∈ rest, k ∈ trust) →
      (∀ k, found = some k → k ∈ trust ∧ (sha256 k.publicKey).toList = keyId) →
      rest.foldl (fun key k => if (sha256 k.publicKey).toList = keyId then some k else key) found = some key →
      key ∈ trust ∧ (sha256 key.publicKey).toList = keyId from this trust none (fun _ hk => hk) nofun h
  intro rest
  induction rest with
  | nil => exact fun found _ hf h => hf key h
  | cons k ks ih =>
    intro found hmem hf
    apply ih
    · exact fun k' hk' => hmem k' (List.mem_cons_of_mem k hk')
    intro k' hk'
    dsimp only at hk'
    split at hk'
    · cases hk'
      exact ⟨hmem k List.mem_cons_self, by assumption⟩
    · exact hf k' hk'

theorem SignedBy.length (h : SignedBy sha256 code trust keyId data) : keyId.length = 32 := by
  obtain ⟨_, key, _, _, hk, _⟩ := h
  rw [← (selectKey_mem hk).2, Vector.length_toList]

/-- A refusal of a package that parses, for revocation, names a key that is revoked in the store. -/
theorem policyRevoked_of_open {p : SfPackage} (hp : code.parse data = .ok p)
    (h : sfPackageOpenTrusted sha256 code trust data = .error .revoked) :
    sfTrustValidate trust = .ok () ∧ PolicyRevoked sha256 trust p.keyId := by
  unfold sfPackageOpenTrusted at h
  cases hv : sfTrustValidate trust with
  | error e =>
    rw [hv] at h
    cases h
    unfold sfTrustValidate at hv
    split at hv
    · cases hv
    · split at hv <;> cases hv
  | ok u =>
    refine ⟨rfl, ?_⟩
    simp only [hv, hp, bind, Except.bind] at h
    cases hk : selectKey sha256 trust p.keyId with
    | none => rw [hk] at h; cases h
    | some key =>
      rw [hk] at h
      simp only at h
      split at h
      · rename_i hrev
        exact ⟨key, hk, hrev⟩
      split at h
      · cases h
      split at h
      · cases h
      cases hn : code.nativeProfile p with
      | error e =>
        rw [hn] at h
        cases h
        exact absurd hn (code.nativeProfile_ne p)
      | ok u => rw [hn] at h; cases h

/-- What opening a package established. -/
theorem sfPackageOpenTrusted_ok {p : SfPackage} (h : sfPackageOpenTrusted sha256 code trust data = .ok p) :
    sfTrustValidate trust = .ok () ∧ code.parse data = .ok p ∧ SignedBy sha256 code trust p.keyId data := by
  unfold sfPackageOpenTrusted at h
  obtain ⟨_, hv, h⟩ := bind_eq_ok.1 h
  obtain ⟨q, hp, h⟩ := bind_eq_ok.1 h
  cases hk : selectKey sha256 trust q.keyId with
  | none => rw [hk] at h; cases h
  | some key =>
    rw [hk] at h
    simp only [guard_eq_ok, bind_eq_ok, pure_eq_ok] at h
    obtain ⟨_, husage, hver, _, hn, rfl⟩ := h
    exact ⟨hv, hp, q, key, hp, rfl, hk, husage, by simpa using hver, hn⟩

/-- A refusal for revocation comes from the policy. -/
theorem sfPackageOpenTrusted_revoked_iff (hv : sfTrustValidate trust = .ok ())
    (hs : SignedBy sha256 code trust keyId data) :
    (PolicyRevoked sha256 trust keyId ∧ sfPackageOpenTrusted sha256 code trust data = .error .revoked) ∨
      (¬ PolicyRevoked sha256 trust keyId ∧ ∃ p, p.keyId = keyId ∧ sfPackageOpenTrusted sha256 code trust data = .ok p) := by
  obtain ⟨p, key, hp, rfl, hk, husage, hver, hn⟩ := hs
  by_cases hrev : key.revoked = 0
  · refine Or.inr ⟨?_, p, rfl, ?_⟩
    · rintro ⟨key', hk', hrev'⟩
      rw [hk] at hk'
      cases hk'
      exact hrev' hrev
    · simp [sfPackageOpenTrusted, hv, hp, hk, hrev, husage, hver, hn, bind, Except.bind, pure, Except.pure]
  · refine Or.inl ⟨⟨key, hk, hrev⟩, ?_⟩
    simp [sfPackageOpenTrusted, hv, hp, hk, hrev, bind, Except.bind, throw, throwThe, MonadExceptOf.throw]

/-- A revocation adds one key. -/
theorem sfTrustRevoke_ok {s t : SfRuntimeTrust} (h : sfTrustRevoke s keyId = .ok t) :
    t.policy = s.policy ∧ ∀ k, k ∈ t.revokedIds ↔ k ∈ s.revokedIds ∨ k = keyId := by
  unfold sfTrustRevoke at h
  split at h
  · rename_i hin
    cases h
    have hmem : keyId ∈ s.revokedIds := by simpa [sfTrustRevoked] using hin
    exact ⟨rfl, fun k => ⟨Or.inl, fun hk => hk.elim id fun he => he ▸ hmem⟩⟩
  · split at h
    · cases h
      exact ⟨rfl, fun k => by simp⟩
    · cases h

/-- **No package signed by a revoked key opens.** -/
theorem sfTrustOpen_revoked {s : SfRuntimeTrust} (hv : sfTrustValidate s.policy = .ok ())
    (hs : SignedBy sha256 code s.policy keyId data)
    (hrev : PolicyRevoked sha256 s.policy keyId ∨ keyId ∈ s.revokedIds) :
    sfTrustOpen sha256 code s data = .error .revoked := by
  unfold sfTrustOpen
  rcases sfPackageOpenTrusted_revoked_iff hv hs with ⟨_, ho⟩ | ⟨hno, p, hp, ho⟩
  · rw [ho]
    rfl
  have hmem : keyId ∈ s.revokedIds := hrev.resolve_left hno
  rw [ho]
  simp [bind, Except.bind, sfTrustRevoked, hp, hmem, throw, throwThe, MonadExceptOf.throw]

end Open

end SpiritFox.Trust
