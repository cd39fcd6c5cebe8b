import SpiritFox.Ns.Contents
import SpiritFox.Ns.Rpc

/-!
# Rejected requests

A message whose reply is an error has no effect (`rejected_inert`): the nodes, the handles, the descriptions that
are open and the root handle stay, and the mount has been told of as many opens as closes. Each call of the
namespace is `Inert`, and the dispatcher adds nothing to its call. The one call that leaves a trace is an open that
finds no free handle, in a description that nobody has open.
-/

namespace SpiritFox.Ns

/-- What a rejected request may do: fill in descriptions that are not open, and tell the mount of a lease and its end. -/
structure Unaffected (n n' : SfNamespace) : Prop where
  nodes : n'.nodes = n.nodes
  handles : n'.handles = n.handles
  live : ∀ d, Live n' d ↔ Live n d
  descriptions : ∀ d, Live n d → n'.descriptions d = n.descriptions d
  leases : n'.opens + n.closes = n.opens + n'.closes

/-- A call that fails has no effect. -/
def Inert {α : Type} (n : SfNamespace) (r : Except Int α × SfNamespace) : Prop := ∀ e, r.1 = .error e → Unaffected n r.2

section Calls

variable {n : SfNamespace} {α : Type} {r : Except Int α × SfNamespace} {owner h : Nat}

theorem Unaffected.refl (n : SfNamespace) : Unaffected n n := ⟨rfl, rfl, fun _ => .rfl, fun _ _ => rfl, rfl⟩

theorem Inert.same (hr : r.2 = n) : Inert n r := by
  intro e _
  rw [hr]
  exact .refl n

theorem Inert.ok {v : α} {n' : SfNamespace} : Inert n (.ok v, n') := nofun

theorem inert_withDescription {f : SlotId → DescId → SfNamespace → Except Int α × SfNamespace}
    (hf : ∀ k d, description n owner h = some (k, d) → Inert n (f k d n)) : Inert n (withDescription owner h f n) := by
  unfold withDescription
  split
  · exact .same rfl
  · rename_i k d hdesc
    exact hf k d hdesc

theorem Outcome.inert {d : DescId} (ho : Outcome n d r) : Inert n r := by
  cases ho with
  | failed e => exact .same rfl
  | done v fits => exact .ok

theorem inert_onHandle {f : SlotId → DescId → SfNamespace → Except Int α × SfNamespace}
    (hf : ∀ k d, description n owner h = some (k, d) → Outcome n d (withDescription owner h f n)) :
    Inert n (withDescription owner h f n) := by
  refine inert_withDescription fun k d hdesc => ?_
  have ho := hf k d hdesc
  rw [withDescription_eq hdesc] at ho
  exact ho.inert

/-- An open that was turned away is over, and its description was not in use. -/
theorem Opening.inert {mode : Nat} {path : Path} {r : Except Int Nat × SfNamespace} (ho : Opening owner mode path n r) :
    Inert n r := by
  cases ho with
  | refused e => exact .same rfl
  | @turnedAway i d unused =>
    rintro e -
    have hself : (tellClose i (prepare mode i d n)).descriptions d = ⟨i, 0, mode, 0⟩ := Function.update_self ..
    have hother {c : DescId} (hc : c ≠ d) : (tellClose i (prepare mode i d n)).descriptions c = n.descriptions c :=
      Function.update_of_ne hc _ _
    refine ⟨rfl, rfl, fun c => ?_, fun c hc => hother ?_, ?_⟩
    · by_cases hcd : c = d
      · subst hcd
        refine iff_of_false ?_ unused
        rw [Live, hself]
        exact fun h => h rfl
      · rw [Live, hother hcd]
        rfl
    · rintro rfl
      exact unused hc
    · change n.opens + (if hooked n i then 1 else 0) + n.closes = n.opens + (n.closes + if hooked n i then 1 else 0)
      omega
  | entered found unused valid free room => exact .ok

theorem inert_openat (b : Backend) (owner directory : Nat) (relative : Path) (mode : Nat) (n : SfNamespace) :
    Inert n (sfNsOpenat b owner directory relative mode n) := by
  rcases sfNsOpenat_opening b owner directory relative mode n with ⟨e, hsame⟩ | ⟨k, d, path, -, -, -, -, hopening⟩
  · rw [hsame]
    exact .same rfl
  · exact hopening.inert

theorem inert_dup (owner h : Nat) (n : SfNamespace) : Inert n (sfNsDup owner h n) := by
  refine inert_withDescription fun k d _ => ?_
  rcases handleNew_cases owner d n with hfull | ⟨k, -, -, hnew⟩
  · rw [hfull]
    exact .same rfl
  · rw [hnew]
    exact .ok

theorem inert_close (owner h : Nat) (n : SfNamespace) : Inert n (sfNsClose owner h n) :=
  inert_withDescription fun _ _ _ => .ok

theorem inert_remove (owner directory : Nat) (relative : Path) (kind : NodeType) (n : SfNamespace) :
    Inert n (removeNode owner directory relative kind n) := by
  unfold removeNode checked
  split
  · exact .same rfl
  · exact .ok

end Calls

/-! ## The dispatcher -/

section Dispatch

variable {m : SfMessage}

/-- A reply is negative only if the call failed. -/
theorem status_done {r : Except Int Unit} (h : (m.done r).status < 0) : ∃ e, r = .error e := by
  cases r with
  | error e => exact ⟨e, rfl⟩
  | ok v => exact absurd h (Int.lt_irrefl 0)

theorem status_counted {r : Except Int Nat} (h : (m.counted r).status < 0) : ∃ e, r = .error e := by
  cases r with
  | error e => exact ⟨e, rfl⟩
  | ok v => exact absurd h (Int.not_lt.2 (Int.natCast_nonneg v))

theorem status_opened {r : Except Int Nat} (h : (m.opened r).status < 0) : ∃ e, r = .error e := by
  cases r with
  | error e => exact ⟨e, rfl⟩
  | ok v => exact absurd h (Int.lt_irrefl 0)

theorem status_filled {r : Except Int (List UInt8)} (h : (m.filled r).status < 0) : ∃ e, r = .error e := by
  cases r with
  | error e => exact ⟨e, rfl⟩
  | ok bs => exact absurd h (Int.not_lt.2 (Int.natCast_nonneg _))

theorem serveOp_rejected (b : Backend) (owner root : Nat) (m : SfMessage) (n : SfNamespace) (op : FileOp)
    (h : (serveOp b owner root m n op).reply.status < 0) :
    Unaffected n (serveOp b owner root m n op).ns ∧ (serveOp b owner root m n op).root = root := by
  cases op with
  | opRoot => exact ⟨.refl n, rfl⟩
  | opPoll => exact ⟨by simp only [serveOp, sfNsPoll_looks, Unaffected.refl], rfl⟩
  | opEnumerate => exact ⟨by simp only [serveOp, sfNsEnumerate_looks, Unaffected.refl], rfl⟩
  | opPread =>
    simp only [serveOp]
    split
    · exact ⟨.refl n, rfl⟩
    · exact ⟨by simp only [sfNsPread_looks, Unaffected.refl], rfl⟩
  | opStat =>
    simp only [serveOp]
    split
    · exact ⟨.refl n, rfl⟩
    · exact ⟨by simp only [sfNsStat_looks, Unaffected.refl], rfl⟩
  | opDup =>
    simp only [serveOp] at h ⊢
    split at h
    · rename_i hargs
      rw [if_pos hargs]
      exact ⟨.refl n, rfl⟩
    · rename_i hargs
      rw [if_neg hargs]
      obtain ⟨e, he⟩ := status_opened h
      exact ⟨inert_dup owner m.handle n e he, rfl⟩
  | opRead =>
    obtain ⟨e, he⟩ := status_filled h
    exact ⟨inert_onHandle (fun _ _ hdesc => sfNsRead_outcome hdesc b m.length) e he, rfl⟩
  | opWrite =>
    obtain ⟨e, he⟩ := status_counted h
    exact ⟨inert_onHandle (fun _ _ hdesc => sfNsWrite_outcome hdesc b _) e he, rfl⟩
  | opSeek =>
    obtain ⟨e, he⟩ := status_counted h
    exact ⟨inert_onHandle (fun _ _ hdesc => sfNsSeek_outcome hdesc m.offset) e he, rfl⟩
  | opTruncate =>
    obtain ⟨e, he⟩ := status_done h
    exact ⟨inert_onHandle (fun _ _ hdesc => sfNsTruncate_outcome hdesc b m.offset) e he, rfl⟩
  | opClose =>
    obtain ⟨e, he⟩ : ∃ e, (sfNsClose owner m.handle n).1 = .error e := status_done h
    have hfailed : (sfNsClose owner m.handle n).1.isOk = false := by
      rw [he]
      rfl
    exact ⟨inert_close owner m.handle n e he, if_neg fun hok => Bool.false_ne_true (hfailed.symm.trans hok.1)⟩
  | opOpen =>
    simp only [serveOp] at h ⊢
    split
    · exact ⟨.refl n, rfl⟩
    rename_i path htext
    rw [htext] at h
    dsimp only at h
    split
    · exact ⟨.refl n, rfl⟩
    rename_i hconsole
    rw [if_neg hconsole] at h
    obtain ⟨e, he⟩ := status_opened h
    exact ⟨(sfNsOpen_opening b owner rootPath path m.mode n).inert e he, rfl⟩
  | opOpenat =>
    simp only [serveOp] at h ⊢
    split
    · exact ⟨.refl n, rfl⟩
    rename_i path htext
    rw [htext] at h
    obtain ⟨e, he⟩ := status_opened h
    exact ⟨inert_openat b owner m.handle path m.mode n e he, rfl⟩
  | opUnlink =>
    simp only [serveOp] at h ⊢
    split
    · exact ⟨.refl n, rfl⟩
    rename_i path htext
    rw [htext] at h
    obtain ⟨e, he⟩ := status_done h
    exact ⟨inert_remove owner m.handle path .file n e he, rfl⟩
  | opRmdir =>
    simp only [serveOp] at h ⊢
    split
    · exact ⟨.refl n, rfl⟩
    rename_i path htext
    rw [htext] at h
    obtain ⟨e, he⟩ := status_done h
    exact ⟨inert_remove owner m.handle path .dir n e he, rfl⟩

end Dispatch

/-- **Rejected requests have no effect**, whatever the state, the message and the callbacks are. -/
theorem rejected_inert (b : Backend) (owner root : Nat) (m : SfMessage) (n : SfNamespace)
    (h : (sfFileDispatch b owner root m n).reply.status < 0) :
    Unaffected n (sfFileDispatch b owner root m n).ns ∧ (sfFileDispatch b owner root m n).root = root := by
  unfold sfFileDispatch at h ⊢
  split
  · exact ⟨.refl n, rfl⟩
  rename_i op hop
  rw [hop] at h
  dsimp only at h
  split
  · exact ⟨.refl n, rfl⟩
  rename_i hhandle
  rw [if_neg hhandle] at h
  split
  · exact ⟨.refl n, rfl⟩
  rename_i hbytes
  rw [if_neg hbytes] at h
  exact serveOp_rejected b owner root m n op h

/-- A read of a pipe that is open for writing only. -/
def deniedMessage : SfMessage := ⟨⟨0, 0, 0, FileOp.opRead.code, 0, 0, 0, 0, 0⟩, 0, 257, 0, 1, 0, fun _ => 0⟩

theorem rejected_inert_denied : (sfFileDispatch bareBackend 1 0 deniedMessage pipeNamespace).reply.status =
    SfError.denied.code ∧
    Unaffected pipeNamespace (sfFileDispatch bareBackend 1 0 deniedMessage pipeNamespace).ns := by
  have hstatus : (sfFileDispatch bareBackend 1 0 deniedMessage pipeNamespace).reply.status = SfError.denied.code := by
    decide +kernel
  exact ⟨hstatus, (rejected_inert bareBackend 1 0 deniedMessage pipeNamespace (by rw [hstatus]; decide)).1⟩

end SpiritFox.Ns
