import SpiritFox.Txn.Crash

/-!
# The volume as an atomic store

For the services above it, the transaction volume is one snapshot that a commit replaces as a whole or not at all.
`atomicCommit` is `sf_txn_commit` over such a store: what it stages is the same, and the device's part is one of
three outcomes. The device answers as such a store through any commits, failures and power losses (`device_is_atomic`).
-/

namespace SpiritFox.Persist

open ByteMem WriteCache Txn

/-- What the medium holds. -/
structure Snapshot where
  generation : Nat
  files : FileTable

/-- How the device's part of a commit ends; an uncertain one may have reached the medium or not. -/
inductive CommitOutcome where
  | done
  | uncertain (kept : Bool)
  deriving DecidableEq

def atomicCommit (disk : Snapshot) (t : SfTxn) (batch : List (List UInt8 × List UInt8)) (outcome : CommitOutcome) :
    Except SfError Unit × SfTxn × Snapshot :=
  match stage t batch with
  | .error e => (.error e, t, disk)
  | .ok next =>
    match outcome with
    | .done => (.ok (), { t with files := next, generation := t.generation + 1, bank := !t.bank }, ⟨t.generation + 1, next⟩)
    | .uncertain kept =>
      (.error .commitUncertain, { t with ready := false }, if kept then ⟨t.generation + 1, next⟩ else disk)

/-! ## The device -/

def contents (t : SfTxn) : Snapshot := ⟨t.generation, t.files⟩

/-- Batches and what their commits returned. -/
abbrev Answers := List (List (List UInt8 × List UInt8) × Except SfError Unit)

/-- The store gives these answers and ends with this snapshot. -/
inductive Store : Snapshot → SfTxn → Answers → Snapshot → Prop
  | stop {disk t} : Store disk t [] disk
  | mount {t log t' disk} (hr : t'.ready = true) (h : Store (contents t') t' log disk) : Store (contents t') t log disk
  | commit {disk t log batch r t' disk' disk''} (outcome : CommitOutcome)
      (hc : atomicCommit disk t batch outcome = (r, t', disk')) (h : Store disk' t' log disk'') :
      Store disk t ((batch, r) :: log) disk''

section Device

variable (sha256 : List UInt8 → Digest)

/-- The device in use: commits whose operations may fail, power losses, each with a mount after it, and a last one. -/
inductive Life : SfTxn → Disk Sector → Answers → (Nat → Sector) → Prop
  | loss {t d m} (hm : Crash (Torn sha256) d m) : Life t d [] m
  | mount {t d log m t' m'} (hm : Crash (Torn sha256) d m) (ht : mountMedia sha256 m = .ok t')
      (h : Life t' ⟨m, []⟩ log m') : Life t d log m'
  | commit {t d log m batch script r t' f} (hc : sfTxnCommit sha256 t batch ⟨d, script⟩ = (r, t', f))
      (h : Life t' f.disk log m) : Life t d ((batch, r) :: log) m

/-- After a power loss the device mounts, with contents in `A`. -/
def Leaves (d : Disk Sector) (A : Nat → FileTable → Prop) : Prop :=
  ∀ m, Crash (Torn sha256) d m → ∃ t, mountMedia sha256 m = .ok t ∧ A t.generation t.files

variable {sha256} {d : Disk Sector} {t : SfTxn} {log : Answers} {m : Nat → Sector}

theorem leaves_mounted (hd : d.pending = []) (hm : mountMedia sha256 d.durable = .ok t) :
    Leaves sha256 d fun g files => g = t.generation ∧ files = t.files := by
  intro m hc
  obtain rfl : m = d.durable := funext fun a => left_clean (clean_of_no_pending hd a) (hc a)
  exact ⟨t, hm, rfl, rfl⟩

/-- Whatever fails in a commit, the device has what it had before or what was committed: after a power loss, and for a mount
without one, which reads the cache (`crash_cache`). The two need not find the same. -/
theorem commit_leaves {batch : List (List UInt8 × List UInt8)} {next : FileTable} (script : List (Outcome Sector))
    (hgood : Good sha256 d t.volume t.bank t.generation t.files (fun g _ => g < t.generation))
    (hstage : stage t batch = .ok next) :
    Leaves sha256 (perform (tornOk sha256) (commitOps sha256 t next) ⟨d, script⟩).2.disk fun g files =>
      g = t.generation ∧ files = t.files ∨ g = t.generation + 1 ∧ files = next := by
  obtain ⟨_, hmax, _⟩ := stage_ok hstage
  have hlt := snapshot_lt sha256 hgood.live
  have hrun := perform_commitOps (f := ⟨d, script⟩) next
    (Q := fun g files => g < t.generation ∨ (g = t.generation + 1 ∧ files = next)) hgood (by omega)
    (fun _ _ h => Or.inl h) (Or.inr ⟨rfl, rfl⟩)
  exact fun m hm => (hrun.mount hm).imp fun _ h => ⟨h.1, h.2.1⟩

theorem Life.store (h : Life sha256 t d log m) {A : Nat → FileTable → Prop} (hA : Leaves sha256 d A)
    (hr : t.ready = true → Good sha256 d t.volume t.bank t.generation t.files (fun g _ => g < t.generation) ∧
      A t.generation t.files) :
    ∃ g files t', A g files ∧ mountMedia sha256 m = .ok t' ∧ Store ⟨g, files⟩ t log (contents t') := by
  induction h generalizing A with
  | loss hm =>
    obtain ⟨t', ht', ha⟩ := hA _ hm
    exact ⟨_, _, t', ha, ht', .stop⟩
  | mount hm ht _ ih =>
    obtain ⟨t₁, ht₁, ha⟩ := hA _ hm
    obtain rfl := Except.ok.inj (ht₁.symm.trans ht)
    obtain ⟨_, _, t', ⟨rfl, rfl⟩, ht', hs⟩ := ih (leaves_mounted rfl ht) fun _ => ⟨good_of_mount rfl ht, rfl, rfl⟩
    exact ⟨_, _, t', ha, ht', .mount ((mountMedia_ok_iff sha256).1 ht).2.1 hs⟩
  | @commit t d _ _ batch script _ _ _ hc _ ih =>
    unfold sfTxnCommit at hc
    cases hstage : stage t batch with
    | error e =>
      rw [hstage] at hc
      cases hc
      obtain ⟨g, files, t', ha, ht', hs⟩ := ih hA hr
      exact ⟨g, files, t', ha, ht', .commit .done (by rw [atomicCommit, hstage]) hs⟩
    | ok next =>
      obtain ⟨hready, hmax, _⟩ := stage_ok hstage
      obtain ⟨hgood, ha⟩ := hr hready
      have hlt := snapshot_lt sha256 hgood.live
      have hrun := perform_commitOps (f := ⟨d, script⟩) next
        (Q := fun g files => g < t.generation ∨ (g = t.generation + 1 ∧ files = next)) hgood (by omega)
        (fun _ _ h => Or.inl h) (Or.inr ⟨rfl, rfl⟩)
      rw [hstage] at hc
      simp only at hc
      cases hp : (perform (tornOk sha256) (commitOps sha256 t next) ⟨d, script⟩).1 with
      | false =>
        rw [hp] at hc
        cases hc
        -- the power loss before the next mount decides what was kept
        obtain ⟨_, _, t', hs, ht', hstore⟩ := ih (commit_leaves script hgood hstage) nofun
        refine ⟨_, _, t', ha, ht', ?_⟩
        rcases hs with ⟨rfl, rfl⟩ | ⟨rfl, rfl⟩
        · exact .commit (.uncertain false) (by rw [atomicCommit, hstage]; rfl) hstore
        · exact .commit (.uncertain true) (by rw [atomicCommit, hstage]; rfl) hstore
      | true =>
        rw [hp] at hc
        cases hc
        obtain ⟨_, _, t', ⟨rfl, rfl⟩, ht', hs⟩ := ih (A := fun g files => g = t.generation + 1 ∧ files = next)
          (fun m hm => (hrun.mount hm).imp fun _ h => ⟨h.1, h.2.2 hp⟩)
          fun _ => ⟨(hrun.2 hp).2.mono fun _ _ h => h.1 ▸ Nat.lt_succ_self _, rfl, rfl⟩
        exact ⟨_, _, t', ha, ht', .commit .done (by rw [atomicCommit, hstage]) hs⟩

/-- **The device is an atomic store.** -/
theorem device_is_atomic (hd : d.pending = []) (hm : mountMedia sha256 d.durable = .ok t) (h : Life sha256 t d log m) :
    ∃ t', mountMedia sha256 m = .ok t' ∧ Store (contents t) t log (contents t') := by
  obtain ⟨_, _, t', ⟨rfl, rfl⟩, ht', hs⟩ := h.store (leaves_mounted hd hm) fun _ => ⟨good_of_mount hd hm, rfl, rfl⟩
  exact ⟨t', ht', hs⟩

/-- A commit, one in which the second write fails, a power loss with a mount, and a third commit. -/
theorem device_is_atomic_formatted :
    let sha256 : List UInt8 → Digest := fun _ => Vector.replicate 32 0
    let t : SfTxn := ⟨true, 1, false, List.replicate 16 0, FileTable.empty⟩
    let d : Disk Sector := ⟨formatted sha256 (fun _ => zeroSector) t.volume, []⟩
    ∀ r₁ r₂, sfTxnCommit sha256 t [([47, 97], [1])] ⟨d, []⟩ = r₁ →
      sfTxnCommit sha256 r₁.2.1 [([47, 98], [2])] ⟨r₁.2.2.disk, [.ok, .fail [.old, .new]]⟩ = r₂ →
      ∃ t₂, mountMedia sha256 r₂.2.2.disk.cache = .ok t₂ ∧
        ∀ r₃, sfTxnCommit sha256 t₂ [([47, 97], [3])] ⟨⟨r₂.2.2.disk.cache, []⟩, []⟩ = r₃ →
          ∃ t', mountMedia sha256 r₃.2.2.disk.cache = .ok t' ∧
            Store (contents t) t [([([47, 97], [1])], r₁.1), ([([47, 98], [2])], r₂.1), ([([47, 97], [3])], r₃.1)]
              (contents t') := by
  intro sha256 t d r₁ r₂ h₁ h₂
  have hm : mountMedia sha256 d.durable = .ok t := mountMedia_formatted sha256 _ (by decide)
  obtain ⟨t₂, ht, -⟩ := device_is_atomic rfl hm (.commit h₁ (.commit h₂ (.loss (crash_cache _ _))))
  refine ⟨t₂, ht, fun r₃ h₃ => device_is_atomic rfl hm ?_⟩
  exact .commit h₁ (.commit h₂ (.mount (crash_cache _ _) ht (.commit h₃ (.loss (crash_cache _ _)))))

end Device

end SpiritFox.Persist
