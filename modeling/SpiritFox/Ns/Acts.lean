import SpiritFox.Ns.Contents
import SpiritFox.Ns.Rpc
import SpiritFox.Ns.Stale

/-!
# What the users of one node see

Fix a node. Of all the calls that anyone makes, the ones that succeed on this node are its acts (`observe`), with
what they returned. A `NodeRun` is any interleaving of calls by any owners on any nodes, with anything else that can
happen to the namespace in between as long as it leaves the node, the handles and the descriptions alone. `Holds`
says which handles are on the node.
-/

namespace SpiritFox.Ns

open ByteMem

/-- An owner and the value of a handle. -/
abbrev Handle := Nat × Nat

/-- A call that succeeded, and what it returned. -/
inductive Act where
  | opened (x : Handle)
  | duped (x y : Handle)
  | closed (x : Handle)
  | read (x : Handle) (bytes : Nat) (out : List UInt8)
  | pread (x : Handle) (bytes offset : Nat) (out : List UInt8)
  | wrote (x : Handle) (data : List UInt8) (count : Nat)
  | sought (x : Handle) (offset : Nat)
  | truncated (x : Handle) (bytes : Nat)

/-- `sf_ns_pread` changes nothing and is no request. -/
inductive FileCall where
  | request (r : Request)
  | pread (owner h bytes offset : Nat)

def FileCall.run (b : Backend) (n : SfNamespace) : FileCall → SfNamespace
  | .request r => r.run b n
  | .pread owner h bytes offset => (sfNsPread b owner h bytes offset n).2

/-- The handle is on node `i`. -/
def isOn (n : SfNamespace) (i : NodeId) (owner h : Nat) : Bool :=
  (description n owner h).any fun kd => (n.descriptions kd.2).node = i

/-- The act of a call on a handle, if it is on the node and the call succeeds. -/
def actOf {α : Type} (on : Bool) (r : Except Int α) (act : α → Act) : List Act :=
  match r with
  | .ok v => if on then [act v] else []
  | .error _ => []

def openedOn (i : NodeId) (owner : Nat) (r : Except Int Nat × SfNamespace) : List Act :=
  match r.1 with
  | .ok h => if isOn r.2 i owner h then [.opened (owner, h)] else []
  | .error _ => []

/-- The handle in slot `k`, if the end of `owner` closes it on node `i`. -/
def reapedOn (i : NodeId) (owner : Nat) (n : SfNamespace) (k : SlotId) : List Act :=
  if (n.handles k).description.isSome ∧ (n.handles k).owner = owner ∧ isOn n i owner (fileHandle (n.handles k).generation k)
    then [.closed (owner, fileHandle (n.handles k).generation k)] else []

/-- The loop of `sf_ns_reap`, as the users of the node see it. -/
def reapedFrom (i : NodeId) (owner : Nat) : SfNamespace → List SlotId → List Act
  | _, [] => []
  | n, k :: ks => reapedOn i owner n k ++ reapedFrom i owner (reapSlot owner n k) ks

/-- The acts of a call on node `i`. -/
def observe (i : NodeId) (b : Backend) (n : SfNamespace) : FileCall → List Act
  | .request (.nsOpen owner base path mode) => openedOn i owner (sfNsOpen b owner base path mode n)
  | .request (.nsOpenat owner directory relative mode) => openedOn i owner (sfNsOpenat b owner directory relative mode n)
  | .request (.nsDup owner h) => actOf (isOn n i owner h) (sfNsDup owner h n).1 fun h' => .duped (owner, h) (owner, h')
  | .request (.nsClose owner h) => actOf (isOn n i owner h) (sfNsClose owner h n).1 fun _ => .closed (owner, h)
  | .request (.nsRead owner h bytes) => actOf (isOn n i owner h) (sfNsRead b owner h bytes n).1 (.read (owner, h) bytes)
  | .request (.nsWrite owner h data) => actOf (isOn n i owner h) (sfNsWrite b owner h data n).1 (.wrote (owner, h) data)
  | .request (.nsSeek owner h offset) => actOf (isOn n i owner h) (sfNsSeek owner h offset n).1 (.sought (owner, h))
  | .request (.nsTruncate owner h bytes) =>
    actOf (isOn n i owner h) (sfNsTruncate b owner h bytes n).1 fun _ => .truncated (owner, h) bytes
  | .request (.nsReap owner) => reapedFrom i owner n (List.finRange 64)
  | .request (.nsCreate ..) | .request (.nsUnlink ..) | .request (.nsRmdir ..) | .request (.nsUnmount _) => []
  | .pread owner h bytes offset =>
    actOf (isOn n i owner h) (sfNsPread b owner h bytes offset n).1 (.pread (owner, h) bytes offset)

/-- From `s` on, node `i` has type `t`, and these are its acts. -/
inductive NodeRun (i : NodeId) (t : NodeType) (s : Service) : List Act → Service → Prop
  | start : NodeRun i t s [] s
  | call {acts : List Act} {s' : Service} (h : NodeRun i t s acts s') (b : Backend) (c : FileCall)
      (stays : ((c.run b s'.ns).nodes i).type = some t) :
      NodeRun i t s (acts ++ observe i b s'.ns c) { s' with ns := c.run b s'.ns }
  | other {acts : List Act} {s' s'' : Service} (h : NodeRun i t s acts s') (step : Step s' s'')
      (handles : s''.ns.handles = s'.ns.handles) (descriptions : s''.ns.descriptions = s'.ns.descriptions)
      (node : s''.ns.nodes i = s'.ns.nodes i) : NodeRun i t s acts s''

/-- The handle `x` refers to description `d`, which is on node `i`. -/
def Holds (n : SfNamespace) (i : NodeId) (x : Handle) (d : DescId) : Prop :=
  ∃ k, description n x.1 x.2 = some (k, d) ∧ (n.descriptions d).node = i

/-! ## Runs -/

theorem FileCall.run_pread (b : Backend) (n : SfNamespace) (owner h bytes offset : Nat) :
    FileCall.run b n (.pread owner h bytes offset) = n := sfNsPread_looks b owner h bytes offset n

/-- What a run leads to can be reached, and the node still has its type. -/
theorem NodeRun.reachable {i : NodeId} {t : NodeType} {s s' : Service} {acts : List Act} (hs : Reachable s)
    (hi : (s.ns.nodes i).type = some t) (h : NodeRun i t s acts s') : Reachable s' ∧ (s'.ns.nodes i).type = some t := by
  induction h with
  | start => exact ⟨hs, hi⟩
  | @call acts s' h b c stays ih =>
    refine ⟨?_, stays⟩
    cases c with
    | request r => exact ih.1.tail (.request b r)
    | pread owner h bytes offset =>
      rw [FileCall.run_pread]
      exact ih.1
  | other h step handles descriptions node ih => exact ⟨ih.1.tail step, by rw [node]; exact ih.2⟩

/-! ## Handles -/

section Holds

variable {n n' : SfNamespace} {i : NodeId} {owner h : Nat} {k : SlotId} {c d : DescId} {x : Handle}

theorem description_iff : description n owner h = some (k, d) ↔
    (n.handles k).description = some d ∧ (n.handles k).owner = owner ∧ h = fileHandle (n.handles k).generation k := by
  refine ⟨description_some, ?_⟩
  rintro ⟨hd, rfl, rfl⟩
  exact description_held hd

theorem isOn_iff : isOn n i owner h = true ↔ ∃ d, Holds n i (owner, h) d := by
  unfold isOn Holds
  cases hd : description n owner h with
  | none => simp
  | some kd =>
    obtain ⟨k, d⟩ := kd
    simp

/-- The handles and the nodes of what they refer to decide what holds. -/
theorem holds_congr (hh : n'.handles = n.handles) (hn : ∀ k d, (n.handles k).description = some d →
    (n'.descriptions d).node = (n.descriptions d).node) : Holds n' i x d ↔ Holds n i x d := by
  have hsame : description n' x.1 x.2 = description n x.1 x.2 := by
    unfold description
    rw [hh]
  unfold Holds
  rw [hsame]
  refine exists_congr fun k => and_congr_right fun hd => ?_
  rw [hn k d (description_some hd).1]

/-- The free slot `k` has become a handle on `d`, and what the other handles refer to is as it was. -/
structure Entered (owner : Nat) (k : SlotId) (d : DescId) (n n' : SfNamespace) : Prop where
  free : (n.handles k).description = none
  handles : ∀ k', n'.handles k' = if k' = k then ⟨owner, (n.handles k).generation + 1, some d⟩ else n.handles k'
  descriptions : ∀ {k' : SlotId} {c : DescId}, (n.handles k').description = some c →
    (n'.descriptions c).node = (n.descriptions c).node ∧ (n'.descriptions c).offset = (n.descriptions c).offset
  nodes : ∀ j, ∃ w, n'.nodes j = { n.nodes j with writers := w }

/-- The value of the handle in slot `k` after the next one that was there. -/
abbrev newHandle (owner : Nat) (n : SfNamespace) (k : SlotId) : Handle :=
  (owner, fileHandle ((n.handles k).generation + 1) k)

theorem Entered.holds (he : Entered owner k d n n') :
    Holds n' i x c ↔ x = newHandle owner n k ∧ c = d ∧ (n'.descriptions d).node = i ∨ Holds n i x c := by
  constructor
  · rintro ⟨k', hd, hnode⟩
    rw [description_iff, he.handles] at hd
    split at hd
    · rename_i hkk
      obtain ⟨hc, howner, hvalue⟩ := hd
      cases hc
      subst hkk
      exact .inl ⟨Prod.ext howner.symm hvalue, rfl, hnode⟩
    · rw [(he.descriptions hd.1).1] at hnode
      exact .inr ⟨k', description_iff.2 hd, hnode⟩
  · rintro (⟨rfl, rfl, hnode⟩ | ⟨k', hd, hnode⟩)
    · refine ⟨k, ?_, hnode⟩
      rw [description_iff, he.handles, if_pos rfl]
      exact ⟨rfl, rfl, rfl⟩
    · rw [description_iff] at hd
      have hne : k' ≠ k := by
        rintro rfl
        rw [he.free] at hd
        cases hd.1
      refine ⟨k', ?_, (he.descriptions hd.1).1.trans hnode⟩
      rw [description_iff, he.handles, if_neg hne]
      exact hd

/-- The value of a new handle was not in use. -/
theorem Entered.unused (he : Entered owner k d n n') (c : DescId) : ¬Holds n i (newHandle owner n k) c := by
  rintro ⟨k', hd, -⟩
  obtain ⟨hheld, -, hvalue⟩ := description_some hd
  obtain ⟨-, rfl⟩ := fileHandle_inj hvalue
  rw [he.free] at hheld
  cases hheld

theorem Entered.isOn (he : Entered owner k d n n') :
    isOn n' i owner (fileHandle ((n.handles k).generation + 1) k) = decide ((n'.descriptions d).node = i) := by
  rw [Bool.eq_iff_iff, isOn_iff, decide_eq_true_iff]
  constructor
  · rintro ⟨c, hc⟩
    rcases he.holds.1 hc with ⟨-, -, hnode⟩ | hold
    · exact hnode
    · exact absurd hold (he.unused c)
  · intro hnode
    exact ⟨d, he.holds.2 (.inl ⟨rfl, rfl, hnode⟩)⟩

/-- What is held is open. -/
theorem Holds.live (hx : Holds n i x d) (hn : Good n) : Live n d := by
  obtain ⟨k, hd, -⟩ := hx
  exact hn.counted.pos (description_some hd).1

theorem entered_open (hn : Good n) (owner mode : Nat) (j : NodeId) (unused : ¬Live n d)
    (free : (n.handles k).description = none) :
    Entered owner k d n (adjustWriters (· + 1) mode j (attach owner d k (prepare mode j d n))) ∧
      ((adjustWriters (· + 1) mode j (attach owner d k (prepare mode j d n))).descriptions d).node = j ∧
      ((adjustWriters (· + 1) mode j (attach owner d k (prepare mode j d n))).descriptions d).offset = 0 := by
  obtain ⟨hdescs, hhandles, -⟩ := adjustWriters_rest (· + 1) mode j (attach owner d k (prepare mode j d n))
  refine ⟨⟨free, fun k' => ?_, fun {k' c} hk' => ?_, fun i => ⟨_, adjustWriters_node _ i⟩⟩, ?_⟩
  · rw [hhandles, attach_handles]
    rfl
  · have hcd : c ≠ d := by
      rintro rfl
      exact unused (hn.counted.pos hk')
    rw [hdescs, attach_descriptions_of_ne hcd, prepare_description, if_neg hcd]
    exact ⟨rfl, rfl⟩
  · rw [hdescs]
    simp [attach, SfNamespace.setHandle, SfNamespace.setDescription, prepare]

theorem entered_dup (free : (n.handles k).description = none) : Entered owner k d n (attach owner d k n) := by
  refine ⟨free, attach_handles, fun {k' c} _ => ?_, fun i => ⟨_, rfl⟩⟩
  by_cases hcd : c = d
  · rw [hcd]
    simp [attach, SfNamespace.setHandle, SfNamespace.setDescription]
  · rw [attach_descriptions_of_ne hcd]
    exact ⟨rfl, rfl⟩

/-- A handle that is closed. -/
theorem holds_detach (hd : description n owner h = some (k, d)) :
    Holds (detach k d n) i x c ↔ x ≠ (owner, h) ∧ Holds n i x c := by
  obtain ⟨hheld, howner, hvalue⟩ := description_some hd
  have hnode : ∀ c, ((detach k d n).descriptions c).node = (n.descriptions c).node := by
    intro c
    by_cases hcd : c = d
    · change ((release d n).descriptions c).node = _
      rw [(release_rest d n).1, hcd]
      simp [dropRef, SfNamespace.setDescription]
    · rw [detach_description_of_ne hcd]
  constructor
  · rintro ⟨k', hk', hi⟩
    rw [description_iff, detach_handles] at hk'
    split at hk'
    · cases hk'.1
    rename_i hne
    rw [hnode] at hi
    refine ⟨?_, k', description_iff.2 hk', hi⟩
    rintro rfl
    exact hne (fileHandle_inj (hk'.2.2.symm.trans hvalue)).2
  · rintro ⟨hx, k', hk', hi⟩
    rw [description_iff] at hk'
    have hne : k' ≠ k := by
      rintro rfl
      exact hx (Prod.ext (hk'.2.1.symm.trans howner) (hk'.2.2.trans hvalue.symm))
    refine ⟨k', ?_, (hnode c).trans hi⟩
    rw [description_iff, detach_handles, if_neg hne]
    exact hk'

end Holds

/-! ## Changes of the tree -/

section Apart

variable {n : SfNamespace} {i : NodeId}

theorem sfNsCreate_apart (hi : (n.nodes i).type ≠ none) (p : Path) (type : Nat) (ro : Bool) :
    (sfNsCreate p type ro n).2.handles = n.handles ∧ (sfNsCreate p type ro n).2.descriptions = n.descriptions ∧
      (sfNsCreate p type ro n).2.nodes i = n.nodes i := by
  rcases sfNsCreate_cases p type ro n with ⟨e, he⟩ | ⟨j, t, hok, hnew⟩
  · rw [he]
    exact ⟨rfl, rfl, rfl⟩
  rw [hnew]
  refine ⟨rfl, rfl, setNode_of_ne ?_⟩
  rintro rfl
  exact hi (createCheck_ok hok).1

theorem removeNode_apart (owner directory : Nat) (relative : Path) (kind : NodeType)
    (stays : ((removeNode owner directory relative kind n).2.nodes i).type ≠ none) :
    (removeNode owner directory relative kind n).2.handles = n.handles ∧
      (removeNode owner directory relative kind n).2.descriptions = n.descriptions ∧
      (removeNode owner directory relative kind n).2.nodes i = n.nodes i := by
  unfold removeNode checked at stays ⊢
  split at stays
  · exact ⟨rfl, rfl, rfl⟩
  refine ⟨rfl, rfl, setNode_of_ne ?_⟩
  rintro rfl
  exact stays (by rw [setNode_self]; rfl)

theorem sfNsUnmount_apart (hn : Sound n) (hi : (n.nodes i).Ram) (tag : Nat) :
    (sfNsUnmount tag n).2.handles = n.handles ∧ (sfNsUnmount tag n).2.descriptions = n.descriptions ∧
      (sfNsUnmount tag n).2.nodes i = n.nodes i := by
  unfold sfNsUnmount
  split
  · exact ⟨rfl, rfl, rfl⟩
  rename_i hzero
  split
  · exact ⟨rfl, rfl, rfl⟩
  refine ⟨rfl, rfl, if_neg fun htag => ?_⟩
  rcases (hn.tagged (by rw [htag]; exact hzero)).2.1 with ht | ht <;> rcases hi with h | h <;>
    exact absurd (ht.symm.trans h) (by decide)

end Apart

end SpiritFox.Ns
