import SpiritFox.Lib.Names
import SpiritFox.Lib.Refs
import SpiritFox.Ns.Mount

/-!
# What every call of the namespace keeps

`Sound` has three parts: the handles and the counts of the descriptions (`Tables`), the tree of names with its mounted parts
(`Tree`), and the counters by which nodes and descriptions depend on each other (`Linked`).
-/

namespace SpiritFox.Ns

open Tally Refs Names

/-! ## The invariant -/

/-- The path of the node, unless it is free. -/
def name (n : SfNamespace) (i : NodeId) : Option Path := if (n.nodes i).type.isSome then some (n.nodes i).path else none

def IsDir (n : SfNamespace) (i : NodeId) : Prop := (n.nodes i).type = some .dir

def Live (n : SfNamespace) (d : DescId) : Prop := (n.descriptions d).refs ≠ 0

/-- `d` is open for writing on node `i`. -/
def Writes (n : SfNamespace) (i : NodeId) (d : DescId) : Prop :=
  Live n d ∧ (n.descriptions d).node = i ∧ (n.descriptions d).mode &&& openWrite ≠ 0

/-- `d` is open on a node of a mount. -/
def Leased (n : SfNamespace) (d : DescId) : Prop := Live n d ∧ (n.node d).mountTag ≠ 0

instance (n : SfNamespace) : DecidablePred (Live n) := fun _ => inferInstanceAs (Decidable (_ ≠ _))

instance (n : SfNamespace) (i : NodeId) : DecidablePred (Writes n i) := fun _ => inferInstanceAs (Decidable (_ ∧ _ ∧ _))

instance (n : SfNamespace) : DecidablePred (Leased n) := fun _ => inferInstanceAs (Decidable (_ ∧ _))

structure Tables (n : SfNamespace) : Prop where
  counted : Counted (fun k => (n.handles k).description) fun d => (n.descriptions d).refs
  owners : ∀ {k k' : SlotId} {d : DescId}, (n.handles k).description = some d → (n.handles k').description = some d →
    (n.handles k).owner = (n.handles k').owner
  modes : ∀ {d : DescId}, Live n d → (n.descriptions d).mode &&& 3 ≠ 0 ∧ (n.descriptions d).mode ≤ 15
  generations : ∀ k, (n.handles k).generation ≤ 0x7fffff

/-- A mounted node is no root, pipe or console, and all that is under it is mounted. -/
structure Tree (n : SfNamespace) : Prop where
  rooted : Rooted (name n) (IsDir n) parentOf rootPath
  canonical : ∀ {i : NodeId} {p : Path}, name n i = some p → pathOk p = true
  free : ∀ {i : NodeId}, (n.nodes i).type = none → (n.nodes i).path = [] ∧ (n.nodes i).mountTag = 0
  tagged : ∀ {i : NodeId}, (n.nodes i).mountTag ≠ 0 → (n.nodes i).mountTag = 1 ∧
    ((n.nodes i).type = some .dir ∨ (n.nodes i).type = some .disk) ∧ (n.nodes i).path ≠ rootPath ∧ n.mountHooks = true
  closed : ∀ {i j : NodeId} {p q : Path}, name n i = some p → name n j = some q → IsParent p q → (n.nodes i).mountTag ≠ 0 →
    (n.nodes j).mountTag ≠ 0

structure Linked (n : SfNamespace) : Prop where
  live : ∀ {d : DescId}, Live n d → (n.node d).type ≠ none
  writers : ∀ {i : NodeId}, (n.nodes i).type = some .pipe → (n.nodes i).writers = tally (Writes n i)
  leases : n.opens = n.closes + tally (Leased n)

structure Sound (n : SfNamespace) : Prop extends Tables n, Tree n, Linked n

section Parts

variable {n n' : SfNamespace} {i j : NodeId} {d : DescId} {k : SlotId} {p q : Path}

theorem name_eq_some : name n i = some p ↔ (n.nodes i).type ≠ none ∧ (n.nodes i).path = p := by
  unfold name
  cases (n.nodes i).type <;> simp

theorem name_eq_none : name n i = none ↔ (n.nodes i).type = none := by
  unfold name
  cases (n.nodes i).type <;> simp

theorem nodeFind_some (h : nodeFind n p = some i) : name n i = some p := by
  have hi := List.find?_some h
  simp only [Bool.and_eq_true, decide_eq_true_eq, Option.isSome_iff_ne_none] at hi
  exact name_eq_some.2 hi

theorem nodeFind_none (h : nodeFind n p = none) (i : NodeId) : name n i ≠ some p := by
  intro hi
  have hne := List.find?_eq_none.1 h i (List.mem_finRange i)
  obtain ⟨ht, hp⟩ := name_eq_some.1 hi
  simp [hp, Option.isSome_iff_ne_none, ht] at hne

/-- The tree depends on these fields of the nodes only. -/
def SfNode.face (x : SfNode) : Path × Option NodeType × Nat := (x.path, x.type, x.mountTag)

theorem name_congr (h : ∀ j, (n'.nodes j).face = (n.nodes j).face) : name n' = name n := by
  funext j
  have hj := h j
  simp only [SfNode.face, Prod.mk.injEq] at hj
  simp [name, hj.1, hj.2.1]

theorem Tree.congr (h : Tree n) (hface : ∀ j, (n'.nodes j).face = (n.nodes j).face) (hhooks : n'.mountHooks = n.mountHooks) :
    Tree n' := by
  have hpath : ∀ j, (n'.nodes j).path = (n.nodes j).path := fun j => congrArg Prod.fst (hface j)
  have htype : ∀ j, (n'.nodes j).type = (n.nodes j).type := fun j => congrArg (·.2.1) (hface j)
  have htag : ∀ j, (n'.nodes j).mountTag = (n.nodes j).mountTag := fun j => congrArg (·.2.2) (hface j)
  have hname := name_congr hface
  have hdir : IsDir n' = IsDir n := funext fun j => by simp [IsDir, htype]
  refine ⟨?_, ?_, ?_, ?_, ?_⟩
  · rw [hname, hdir]
    exact h.rooted
  · intro i p hi
    rw [hname] at hi
    exact h.canonical hi
  · intro i hi
    rw [htype] at hi
    rw [hpath, htag]
    exact h.free hi
  · intro i hi
    rw [htag] at hi
    rw [htag, htype, hpath, hhooks]
    exact h.tagged hi
  · intro i j p q hi hj hpq htag'
    rw [hname] at hi hj
    rw [htag] at htag' ⊢
    exact h.closed hi hj hpq htag'

/-- Where every open node is as it was, and no other pipe has a writer, the counters stay right. -/
theorem Linked.quiet (h : Linked n) {f : NodeId → SfNode} (hlive : ∀ d, Live n d → f (n.descriptions d).node = n.node d)
    (hidle : ∀ i, ¬ InUse n i → (f i).type = some .pipe → (f i).writers = 0) : Linked { n with nodes := f } := by
  refine ⟨?_, ?_, ?_⟩
  · intro d hd
    change (f (n.descriptions d).node).type ≠ none
    rw [hlive d hd]
    exact h.live hd
  · intro i hi
    by_cases hu : InUse n i
    · obtain ⟨d, hd, rfl⟩ := hu
      change (f (n.descriptions d).node).type = some .pipe at hi
      change (f (n.descriptions d).node).writers = _
      rw [hlive d hd] at hi ⊢
      exact h.writers hi
    · refine (hidle i hu hi).trans (tally_eq_zero.2 ?_).symm
      rintro d ⟨hd, hnode, -⟩
      exact hu ⟨d, hd, hnode⟩
  · refine h.leases.trans (congrArg _ (tally_congr ?_))
    intro d
    refine and_congr_right fun hd => ?_
    change _ ↔ (f (n.descriptions d).node).mountTag ≠ 0
    rw [hlive d hd]

/-- Only the description `d` changes: each counter moves with what `d` is before and after. -/
theorem Linked.switch (h : Linked n) (d : DescId) (hother : ∀ c, c ≠ d → n'.descriptions c = n.descriptions c)
    (htype : ∀ j, (n'.nodes j).type = (n.nodes j).type) (htag : ∀ j, (n'.nodes j).mountTag = (n.nodes j).mountTag)
    (hlive : Live n' d → (n'.node d).type ≠ none) (hwriters : ∀ i, (n.nodes i).type = some .pipe →
      (n'.nodes i).writers + (if Writes n i d then 1 else 0) = (n.nodes i).writers + if Writes n' i d then 1 else 0)
    (hleases : n'.opens + n.closes + (if Leased n d then 1 else 0) = n.opens + n'.closes + if Leased n' d then 1 else 0) :
    Linked n' := by
  have hnode : ∀ c, c ≠ d → (n'.node c).type = (n.node c).type ∧ (n'.node c).mountTag = (n.node c).mountTag := by
    intro c hc
    simp only [SfNamespace.node, hother c hc, htype, htag, and_self]
  refine ⟨?_, ?_, ?_⟩
  · intro c hc
    by_cases hcd : c = d
    · subst hcd
      exact hlive hc
    rw [(hnode c hcd).1]
    rw [Live, hother c hcd] at hc
    exact h.live hc
  · intro i hi
    rw [htype] at hi
    have hchange := tally_change (p := Writes n i) (q := Writes n' i) d
      (by intro c hc; simp only [Writes, Live, hother c hc])
    have hold := h.writers hi
    have hmove := hwriters i hi
    omega
  · have hchange := tally_change (p := Leased n) (q := Leased n') d
      (by intro c hc; simp only [Leased, Live, hother c hc, (hnode c hc).2])
    have hold := h.leases
    omega

end Parts

/-! ## Changes of the tree -/

section Nodes

variable {n : SfNamespace} {i j : NodeId} {x : SfNode}

theorem Linked.idle (h : Linked n) (hi : ¬ InUse n i) (ht : (n.nodes i).type = some .pipe) : (n.nodes i).writers = 0 := by
  rw [h.writers ht]
  refine tally_eq_zero.2 ?_
  rintro d ⟨hd, hnode, -⟩
  exact hi ⟨d, hd, hnode⟩

theorem setNode_self : (n.setNode i x).nodes i = x := by simp [SfNamespace.setNode]

theorem setNode_of_ne (hj : j ≠ i) : (n.setNode i x).nodes j = n.nodes j := by simp [SfNamespace.setNode, hj]

theorem name_setNode_of_ne (hj : j ≠ i) : name (n.setNode i x) j = name n j := by
  simp [name, setNode_of_ne hj]

theorem name_setNode_self (hx : x.type ≠ none) : name (n.setNode i x) i = some x.path := by
  simp [name, setNode_self, Option.isSome_iff_ne_none, hx]

/-- One node that nothing is open on is replaced. -/
theorem Linked.setNode (h : Linked n) (hi : ¬ InUse n i) (hw : x.type = some .pipe → x.writers = 0) :
    Linked (n.setNode i x) := by
  refine h.quiet ?_ ?_
  · intro d hd
    have hne : (n.descriptions d).node ≠ i := fun hnode => hi ⟨d, hd, hnode⟩
    exact Function.update_of_ne hne x n.nodes
  · intro a ha ht
    by_cases hai : a = i
    · subst hai
      rw [Function.update_self] at ht ⊢
      exact hw ht
    · rw [Function.update_of_ne hai] at ht ⊢
      exact h.idle ha ht

theorem Sound.not_inUse (h : Sound n) (hi : (n.nodes i).type = none) : ¬ InUse n i := by
  rintro ⟨d, hd, rfl⟩
  exact h.live hd hi

/-- **A new node in a directory.** Under a mounted directory it is mounted too. -/
theorem Sound.add (h : Sound n) (hfree : (n.nodes i).type = none) (hx : x.type ≠ none) (hok : pathOk x.path = true)
    (hnew : ∀ a, name n a ≠ some x.path) (hparent : name n j = some (parentOf x.path)) (hdir : IsDir n j)
    (hunder : (n.nodes j).mountTag ≠ 0 → x.mountTag ≠ 0) (hw : x.writers = 0)
    (htag : x.mountTag ≠ 0 → x.mountTag = 1 ∧ (x.type = some .dir ∨ x.type = some .disk) ∧ x.path ≠ rootPath ∧
      n.mountHooks = true) : Sound (n.setNode i x) := by
  have hself := name_setNode_self (n := n) (i := i) hx
  have hother : ∀ a, a ≠ i → name (n.setNode i x) a = name n a := fun a ha => name_setNode_of_ne ha
  have hnode : ∀ a, a ≠ i → (n.setNode i x).nodes a = n.nodes a := fun a ha => setNode_of_ne ha
  have hnodeSelf : (n.setNode i x).nodes i = x := setNode_self
  have hlinked := h.toLinked.setNode (x := x) (h.not_inUse hfree) fun _ => hw
  refine ⟨⟨h.counted, h.owners, h.modes, h.generations⟩, ⟨?_, ?_, ?_, ?_, ?_⟩, hlinked⟩
  · refine h.rooted.add (name_eq_none.2 hfree) hnew ⟨j, hparent, hdir⟩ hself hother ?_
    intro a ha hd
    rw [IsDir, hnode a ha]
    exact hd
  · intro a p ha
    by_cases hai : a = i
    · rw [hai, hself] at ha
      cases ha
      exact hok
    · rw [hother a hai] at ha
      exact h.canonical ha
  · intro a ha
    by_cases hai : a = i
    · rw [hai, hnodeSelf] at ha
      exact absurd ha hx
    · rw [hnode a hai] at ha ⊢
      exact h.free ha
  · intro a ha
    by_cases hai : a = i
    · rw [hai, hnodeSelf] at ha ⊢
      exact htag ha
    · rw [hnode a hai] at ha ⊢
      exact h.tagged ha
  · intro a c p q ha hc hpq htag'
    by_cases hci : c = i
    · rw [hci, hself] at hc
      cases hc
      rw [hci, hnodeSelf]
      by_cases hai : a = i
      · rwa [hai, hnodeSelf] at htag'
      rw [hother a hai, ← hpq.2] at ha
      rw [hnode a hai, h.rooted.distinct ha hparent] at htag'
      exact hunder htag'
    · rw [hother c hci] at hc
      rw [hnode c hci]
      by_cases hai : a = i
      · -- the path was free, so it has no children yet
        rw [hai, hself] at ha
        cases ha
        exact absurd hpq.2 (h.rooted.parent_ne_of_absent hnew hc hpq.1)
      · rw [hother a hai] at ha
        rw [hnode a hai] at htag'
        exact h.closed ha hc hpq htag'

/-- **The nodes of `S` are freed**, with all that is under them. The tags stay, or all end. -/
theorem Sound.prune (h : Sound n) {f : NodeId → SfNode} (S : NodeId → Prop) (hgone : ∀ i, S i → f i = emptyNode)
    (hkept : ∀ i, ¬ S i → (f i).path = (n.nodes i).path ∧ (f i).type = (n.nodes i).type ∧
      (f i).writers = (n.nodes i).writers)
    (htag : (∀ i, ¬ S i → (f i).mountTag = (n.nodes i).mountTag) ∨ ∀ i, (f i).mountTag = 0)
    (hlive : ∀ d, Live n d → f (n.descriptions d).node = n.node d) (hroot : ∀ i, S i → name n i ≠ some rootPath)
    (hclosed : ∀ i j p q, S i → name n i = some p → name n j = some q → IsParent p q → S j) :
    Sound { n with nodes := f } := by
  have hnone : ∀ i, S i → name { n with nodes := f } i = none := by
    intro i hi
    simp [name, hgone i hi, emptyNode]
  have hsame : ∀ i, ¬ S i → name { n with nodes := f } i = name n i := by
    intro i hi
    simp [name, hkept i hi]
  have hin : ∀ {i p}, name { n with nodes := f } i = some p → ¬ S i ∧ name n i = some p := by
    intro i p hi
    have hS : ¬ S i := by
      intro hS
      rw [hnone i hS] at hi
      cases hi
    exact ⟨hS, hsame i hS ▸ hi⟩
  refine ⟨⟨h.counted, h.owners, h.modes, h.generations⟩, ⟨?_, ?_, ?_, ?_, ?_⟩, ?_⟩
  · refine h.rooted.drop S hroot (fun a c q hS hc hq ha => hclosed a c _ q hS ha hc ⟨hq, rfl⟩) hnone hsame ?_
    intro a ha hd
    exact (hkept a ha).2.1.trans hd
  · intro a p ha
    exact h.canonical (hin ha).2
  · intro a ha
    by_cases hS : S a
    · simp [hgone a hS, emptyNode]
    obtain ⟨hpath, htype, -⟩ := hkept a hS
    obtain ⟨hnil, hzero⟩ := h.free (htype ▸ ha)
    refine ⟨hpath.trans hnil, ?_⟩
    rcases htag with htag | htag
    · exact (htag a hS).trans hzero
    · exact htag a
  · intro a ha
    rcases htag with htag | htag
    · have hS : ¬ S a := by
        intro hS
        exact ha (by simp [hgone a hS, emptyNode])
      obtain ⟨hpath, htype, -⟩ := hkept a hS
      change (f a).mountTag ≠ 0 at ha
      change (f a).mountTag = 1 ∧ ((f a).type = _ ∨ (f a).type = _) ∧ (f a).path ≠ _ ∧ _
      rw [htag a hS] at ha ⊢
      rw [hpath, htype]
      exact h.tagged ha
    · exact absurd (htag a) ha
  · intro a c p q ha hc hpq htag'
    rcases htag with htag | htag
    · obtain ⟨hSa, ha⟩ := hin ha
      obtain ⟨hSc, hc⟩ := hin hc
      change (f a).mountTag ≠ 0 at htag'
      change (f c).mountTag ≠ 0
      rw [htag a hSa] at htag'
      rw [htag c hSc]
      exact h.closed ha hc hpq htag'
    · exact absurd (htag a) htag'
  · refine h.toLinked.quiet hlive ?_
    intro a ha ht
    by_cases hS : S a
    · rw [hgone a hS]
      rfl
    obtain ⟨-, htype, hw⟩ := hkept a hS
    rw [hw]
    exact h.idle ha (htype ▸ ht)

/-- **A node joins the mount**, where all that is under it has joined before. -/
theorem Sound.retag (h : Sound n) (hpath : x.path = (n.nodes i).path) (htype : x.type = (n.nodes i).type)
    (hw : x.writers = (n.nodes i).writers) (htag : x.mountTag = 1) (hkind : x.type = some .dir ∨ x.type = some .disk)
    (hroot : x.path ≠ rootPath) (hhooks : n.mountHooks = true) (hidle : ¬ InUse n i)
    (hbelow : ∀ a q, name n a = some q → IsParent x.path q → (n.nodes a).mountTag ≠ 0) : Sound (n.setNode i x) := by
  have hnodes : ∀ a, ((n.setNode i x).nodes a).path = (n.nodes a).path ∧
    ((n.setNode i x).nodes a).type = (n.nodes a).type := by
    intro a
    by_cases hai : a = i
    · simp [SfNamespace.setNode, hai, hpath, htype]
    · simp [SfNamespace.setNode, hai]
  have hname : name (n.setNode i x) = name n := funext fun a => by simp [name, hnodes]
  have hdir : IsDir (n.setNode i x) = IsDir n := funext fun a => by simp [IsDir, hnodes]
  have hother : ∀ a, a ≠ i → (n.setNode i x).nodes a = n.nodes a := fun a ha => setNode_of_ne ha
  have hself : (n.setNode i x).nodes i = x := setNode_self
  refine ⟨⟨h.counted, h.owners, h.modes, h.generations⟩, ⟨?_, ?_, ?_, ?_, ?_⟩, ?_⟩
  · rw [hname, hdir]
    exact h.rooted
  · rw [hname]
    exact h.canonical
  · intro a ha
    by_cases hai : a = i
    · rw [hai, hself] at ha
      rcases hkind with hk | hk <;> rw [hk] at ha <;> cases ha
    · rw [hother a hai] at ha ⊢
      exact h.free ha
  · intro a ha
    by_cases hai : a = i
    · rw [hai, hself]
      exact ⟨htag, hkind, hroot, hhooks⟩
    · rw [hother a hai] at ha ⊢
      exact h.tagged ha
  · intro a c p q ha hc hpq htag'
    rw [hname] at ha hc
    by_cases hci : c = i
    · rw [hci, hself, htag]
      decide
    rw [hother c hci]
    by_cases hai : a = i
    · rw [hai] at ha
      rw [← (name_eq_some.1 ha).2, ← hpath] at hpq
      exact hbelow c q hc hpq
    · rw [hother a hai] at htag'
      exact h.closed ha hc hpq htag'
  · refine h.toLinked.setNode hidle fun ht => ?_
    rw [hw]
    exact h.idle hidle (htype ▸ ht)

end Nodes

/-! ## Changes of the handles -/

section Handles

variable {n : SfNamespace} {d : DescId} {i : NodeId} {k : SlotId} {owner mode : Nat}

theorem Tables.refs_lt (h : Tables n) (d : DescId) : (n.descriptions d).refs ≤ 64 := by
  have hle := h.counted.le_card d
  rwa [Fintype.card_fin] at hle

theorem Linked.writers_le (h : Linked n) (hi : (n.nodes i).type = some .pipe) : (n.nodes i).writers ≤ 32 := by
  rw [h.writers hi]
  exact (Finset.card_le_univ _).trans_eq (Fintype.card_fin 32)

theorem attach_handles (k' : SlotId) : (attach owner d k n).handles k' =
    if k' = k then ⟨owner, (n.handles k).generation + 1, some d⟩ else n.handles k' := by
  simp [attach, SfNamespace.setHandle, SfNamespace.setDescription, Function.update_apply]

theorem attach_descriptions_of_ne {c : DescId} (hc : c ≠ d) : (attach owner d k n).descriptions c = n.descriptions c := by
  simp [attach, SfNamespace.setHandle, SfNamespace.setDescription, hc]

theorem Tables.attach_description (h : Tables n) : (attach owner d k n).descriptions d =
    { n.descriptions d with refs := (n.descriptions d).refs + 1 } := by
  have hle := h.refs_lt d
  have hmod : ((n.descriptions d).refs + 1) % 2 ^ 32 = (n.descriptions d).refs + 1 := Nat.mod_eq_of_lt (by omega)
  simp only [attach, SfNamespace.setHandle, SfNamespace.setDescription, Function.update_self, hmod]

theorem Tables.attach (h : Tables n) (hk : (n.handles k).description = none) (hgen : (n.handles k).generation < 0x7fffff)
    (howner : ∀ k', (n.handles k').description = some d → (n.handles k').owner = owner)
    (hmode : (n.descriptions d).mode &&& 3 ≠ 0 ∧ (n.descriptions d).mode ≤ 15) : Tables (attach owner d k n) := by
  have hpoints : (fun k' => ((Ns.attach owner d k n).handles k').description) =
      Function.update (fun k' => (n.handles k').description) k (some d) := by
    funext k'
    by_cases hk' : k' = k <;> simp [attach_handles, hk']
  refine ⟨?_, ?_, ?_, ?_⟩
  · rw [hpoints]
    apply h.counted.attach hk
    · rw [h.attach_description]
    · intro c hc
      rw [attach_descriptions_of_ne hc]
  · intro k₁ k₂ c h₁ h₂
    rw [attach_handles] at h₁ h₂ ⊢
    rw [attach_handles]
    split at h₁
    · cases h₁
      split at h₂
      · rename_i hk₁ hk₂
        rw [if_pos hk₁, if_pos hk₂]
      rename_i hk₁ hk₂
      rw [if_pos hk₁, if_neg hk₂]
      exact (howner k₂ h₂).symm
    · split at h₂
      · cases h₂
        rename_i hk₁ hk₂
        rw [if_neg hk₁, if_pos hk₂]
        exact howner k₁ h₁
      · rename_i hk₁ hk₂
        rw [if_neg hk₁, if_neg hk₂]
        exact h.owners h₁ h₂
  · intro c hc
    by_cases hcd : c = d
    · subst hcd
      rw [h.attach_description]
      exact hmode
    · rw [Live, attach_descriptions_of_ne hcd] at hc
      rw [attach_descriptions_of_ne hcd]
      exact h.modes hc
  · intro k'
    rw [attach_handles]
    split
    · exact hgen
    · exact h.generations k'

/-- A description without handles may hold anything. -/
theorem Tables.blank (h : Tables n) (hd : ¬ Live n d) {x : SfDescription} (hx : x.refs = 0) :
    Tables (n.setDescription d x) := by
  have hother : ∀ c, c ≠ d → (n.setDescription d x).descriptions c = n.descriptions c := by
    intro c hc
    simp [SfNamespace.setDescription, hc]
  have hself : (n.setDescription d x).descriptions d = x := by simp [SfNamespace.setDescription]
  refine ⟨?_, h.owners, ?_, h.generations⟩
  · intro c
    by_cases hcd : c = d
    · subst hcd
      change ((n.setDescription c x).descriptions c).refs = _
      rw [hself, hx, ← not_not.1 hd]
      exact h.counted c
    · change ((n.setDescription d x).descriptions c).refs = _
      rw [hother c hcd]
      exact h.counted c
  · intro c hc
    by_cases hcd : c = d
    · rw [Live, hcd, hself] at hc
      exact absurd hx hc
    rw [Live, hother c hcd] at hc
    rw [hother c hcd]
    exact h.modes hc

theorem adjustWriters_node (f : Nat → Nat) (j : NodeId) : (adjustWriters f mode i n).nodes j =
    { n.nodes j with
      writers := if j = i ∧ feeds (n.nodes j) mode then f (n.nodes j).writers % 2 ^ 16 else (n.nodes j).writers } := by
  unfold adjustWriters
  by_cases hji : j = i
  · subst hji
    by_cases hf : feeds (n.nodes j) mode = true <;> simp [hf, setNode_self]
  · by_cases hf : feeds (n.nodes i) mode = true <;> simp [hf, hji, setNode_of_ne hji]

theorem adjustWriters_rest (f : Nat → Nat) (mode : Nat) (i : NodeId) (n : SfNamespace) :
    (adjustWriters f mode i n).descriptions = n.descriptions ∧
    (adjustWriters f mode i n).handles = n.handles ∧ (adjustWriters f mode i n).mountHooks = n.mountHooks ∧
    (adjustWriters f mode i n).opens = n.opens ∧ (adjustWriters f mode i n).closes = n.closes := by
  unfold adjustWriters
  split <;> simp [SfNamespace.setNode]

theorem Tables.congr {n' : SfNamespace} (h : Tables n) (hd : n'.descriptions = n.descriptions)
    (hh : n'.handles = n.handles) :
    Tables n' := by
  refine ⟨?_, ?_, ?_, ?_⟩
  · rw [hd, hh]
    exact h.counted
  · rw [hh]
    exact h.owners
  · intro c hc
    rw [Live, hd] at hc
    rw [hd]
    exact h.modes hc
  · rw [hh]
    exact h.generations

theorem Tables.prepare (h : Tables n) (hd : ¬ Live n d) : Tables (prepare mode i d n) :=
  (h.blank hd (x := ⟨i, 0, mode, 0⟩) rfl).congr rfl rfl

theorem Tree.hooked_iff (h : Tree n) : hooked n i = true ↔ (n.nodes i).mountTag ≠ 0 := by
  simp only [hooked, ne_eq, Bool.and_eq_true, decide_eq_true_eq, and_iff_left_iff_imp]
  intro hi
  exact (h.tagged hi).2.2.2

/-- **A node is opened.** -/
theorem Sound.enter (h : Sound n) (hi : (n.nodes i).type ≠ none) (hd : ¬ Live n d) (hmode : mode &&& 3 ≠ 0 ∧ mode ≤ 15)
    (hk : (n.handles k).description = none) (hgen : (n.handles k).generation < 0x7fffff) :
    Sound (adjustWriters (· + 1) mode i (attach owner d k (prepare mode i d n))) := by
  have hblank : Tables (prepare mode i d n) := h.toTables.prepare hd
  have hdesc : (prepare mode i d n).descriptions d = ⟨i, 0, mode, 0⟩ := by simp [prepare, SfNamespace.setDescription]
  have htables : Tables (attach owner d k (prepare mode i d n)) := by
    refine hblank.attach hk hgen ?_ (by rw [hdesc]; exact hmode)
    intro k' hk'
    exact absurd hk' (h.counted.points_ne (not_not.1 hd) k')
  obtain ⟨hdescs, hhandles, hhooks, hopens, hcloses⟩ :=
    adjustWriters_rest (· + 1) mode i (attach owner d k (prepare mode i d n))
  have hself : (adjustWriters (· + 1) mode i (attach owner d k (prepare mode i d n))).descriptions d = ⟨i, 0, mode, 1⟩ := by
    rw [hdescs, hblank.attach_description, hdesc]
  refine ⟨htables.congr hdescs hhandles, ?_, ?_⟩
  · refine h.toTree.congr ?_ hhooks
    intro j
    rw [adjustWriters_node]
    rfl
  · refine h.toLinked.switch d ?_ ?_ ?_ ?_ ?_ ?_
    · intro c hc
      rw [hdescs, attach_descriptions_of_ne hc]
      simp [prepare, SfNamespace.setDescription, hc]
    · intro j
      rw [adjustWriters_node]
      rfl
    · intro j
      rw [adjustWriters_node]
      rfl
    · intro _
      rw [SfNamespace.node, hself, adjustWriters_node]
      exact hi
    · intro j hj
      have hle := h.toLinked.writers_le hj
      rw [adjustWriters_node]
      change (if j = i ∧ feeds (n.nodes j) mode = true then ((n.nodes j).writers + 1) % 2 ^ 16 else
        (n.nodes j).writers) + _ = _
      have hno : ¬ Writes n j d := fun hw => hd hw.1
      have hyes : Writes (adjustWriters (· + 1) mode i (attach owner d k (prepare mode i d n))) j d ↔
          j = i ∧ feeds (n.nodes j) mode = true := by
        simp [Writes, Live, hself, feeds, hj, eq_comm (a := i)]
      simp only [if_neg hno, hyes]
      split
      · omega
      · rfl
    · have hno : ¬ Leased n d := fun hl => hd hl.1
      have hyes : Leased (adjustWriters (· + 1) mode i (attach owner d k (prepare mode i d n))) d ↔ hooked n i = true := by
        rw [h.toTree.hooked_iff, Leased, SfNamespace.node, Live, hself, adjustWriters_node]
        simp [attach, prepare, SfNamespace.setDescription, SfNamespace.setHandle]
      rw [if_neg hno, hopens, hcloses]
      simp only [hyes]
      change n.opens + (if hooked n i = true then 1 else 0) + n.closes + 0 = n.opens + n.closes + _
      omega

/-- The node is not opened after all, and the mount is told again. -/
theorem Sound.turnedAway (h : Sound n) (hd : ¬ Live n d) : Sound (tellClose i (prepare mode i d n)) := by
  have hblank : Tables (prepare mode i d n) := h.toTables.prepare hd
  have hself : (tellClose i (prepare mode i d n)).descriptions d = ⟨i, 0, mode, 0⟩ := by
    simp [tellClose, prepare, SfNamespace.setDescription]
  have hdead : ¬ Live (tellClose i (prepare mode i d n)) d := by simp [Live, hself]
  refine ⟨hblank.congr rfl rfl, h.toTree.congr (fun _ => rfl) rfl, ?_⟩
  refine h.toLinked.switch d ?_ (fun _ => rfl) (fun _ => rfl) (fun hl => absurd hl hdead) ?_ ?_
  · intro c hc
    simp [tellClose, prepare, SfNamespace.setDescription, hc]
  · intro j _
    rw [if_neg fun hw => hd hw.1, if_neg fun hw => hdead hw.1]
    rfl
  · rw [if_neg fun hl => hd hl.1, if_neg fun hl => hdead hl.1]
    change n.opens + (if hooked n i = true then 1 else 0) + n.closes + 0 =
      n.opens + (n.closes + if hooked n i = true then 1 else 0) + 0
    omega

/-- **One more handle on an open file.** -/
theorem Sound.dup (h : Sound n) {k₀ : SlotId} (hheld : (n.handles k₀).description = some d)
    (howner : (n.handles k₀).owner = owner)
    (hk : (n.handles k).description = none) (hgen : (n.handles k).generation < 0x7fffff) : Sound (attach owner d k n) := by
  have hlive : Live n d := h.counted.pos hheld
  have hself : (attach owner d k n).descriptions d = { n.descriptions d with refs := (n.descriptions d).refs + 1 } :=
    h.toTables.attach_description
  have hlive' : Live (attach owner d k n) d := by simp [Live, hself]
  refine ⟨?_, h.toTree.congr (fun _ => rfl) rfl, ?_⟩
  · refine h.toTables.attach hk hgen ?_ (h.modes hlive)
    intro k' hk'
    exact (h.owners hk' hheld).trans howner
  · refine h.toLinked.switch d (fun c hc => attach_descriptions_of_ne hc) (fun _ => rfl) (fun _ => rfl) ?_ ?_ ?_
    · intro _
      rw [SfNamespace.node, hself]
      exact h.live hlive
    · intro j _
      have hiff : Writes (attach owner d k n) j d ↔ Writes n j d := by simp only [Writes, hlive, hlive', hself]
      simp only [hiff]
      rfl
    · have hiff : Leased (attach owner d k n) d ↔ Leased n d := by
        simp only [Leased, hlive, hlive', SfNamespace.node, hself]
        rfl
      simp only [hiff]
      rfl

/-- One handle of `d` less, as a count. -/
theorem Tables.dropRef_description (h : Tables n) (hd : Live n d) :
    (dropRef d n).descriptions d = { n.descriptions d with refs := (n.descriptions d).refs - 1 } := by
  have hle := h.refs_lt d
  have hpos := Nat.pos_of_ne_zero hd
  have hmod : ((n.descriptions d).refs + 0xffffffff) % 2 ^ 32 = (n.descriptions d).refs - 1 := by omega
  simp only [dropRef, SfNamespace.setDescription, Function.update_self, hmod]

theorem dropRef_of_ne {c : DescId} (hc : c ≠ d) : (dropRef d n).descriptions c = n.descriptions c := by
  simp [dropRef, SfNamespace.setDescription, hc]

theorem release_rest (d : DescId) (n : SfNamespace) : (release d n).descriptions = (dropRef d n).descriptions ∧
    (release d n).handles = n.handles ∧ (release d n).mountHooks = n.mountHooks ∧ (release d n).opens = n.opens := by
  unfold release
  split
  · obtain ⟨hdescs, hhandles, hhooks, hopens, -⟩ := adjustWriters_rest (· + 0xffff) ((dropRef d n).descriptions d).mode
      ((dropRef d n).descriptions d).node (dropRef d n)
    exact ⟨hdescs, hhandles, hhooks, hopens⟩
  · exact ⟨rfl, rfl, rfl, rfl⟩

theorem Tables.release_node (h : Tables n) (hd : Live n d) (j : NodeId) : (release d n).nodes j =
    { n.nodes j with
      writers := if (n.descriptions d).refs = 1 ∧ j = (n.descriptions d).node ∧ feeds (n.nodes j) (n.descriptions d).mode
        then ((n.nodes j).writers + 0xffff) % 2 ^ 16 else (n.nodes j).writers } := by
  have hpos := Nat.pos_of_ne_zero hd
  unfold release
  rw [h.dropRef_description hd]
  by_cases hlast : (n.descriptions d).refs = 1
  · rw [if_pos (by rw [hlast])]
    refine (adjustWriters_node (· + 0xffff) j).trans ?_
    rw [h.dropRef_description hd]
    simp [hlast, dropRef, SfNamespace.setDescription]
  · rw [if_neg (by dsimp only; omega)]
    simp [hlast, dropRef, SfNamespace.setDescription]

theorem Tables.release_closes (h : Tables n) (hd : Live n d) : (release d n).closes =
    n.closes + if (n.descriptions d).refs = 1 ∧ hooked n (n.descriptions d).node then 1 else 0 := by
  have hpos := Nat.pos_of_ne_zero hd
  unfold release
  rw [h.dropRef_description hd]
  by_cases hlast : (n.descriptions d).refs = 1
  · rw [if_pos (by rw [hlast])]
    have hnode := @adjustWriters_node (dropRef d n) (n.descriptions d).node (n.descriptions d).mode (· + 0xffff)
      (n.descriptions d).node
    obtain ⟨-, -, hhooks, -, hcloses⟩ :=
      adjustWriters_rest (· + 0xffff) (n.descriptions d).mode (n.descriptions d).node (dropRef d n)
    simp only [lastClose, tellClose, h.dropRef_description hd, hcloses, hooked, hnode, hhooks, hlast, true_and]
    rfl
  · rw [if_neg (by dsimp only; omega)]
    simp [hlast, dropRef, SfNamespace.setDescription]

theorem Tables.detach (h : Tables n) (hk : (n.handles k).description = some d) : Tables (detach k d n) := by
  have hlive : Live n d := h.counted.pos hk
  obtain ⟨hdescs, hhandles, -⟩ := release_rest d n
  have hself := h.dropRef_description hlive
  have hhandle : ∀ k', (Ns.detach k d n).handles k' =
      if k' = k then { n.handles k with description := none } else n.handles k' := by
    intro k'
    change Function.update (release d n).handles k { (release d n).handles k with description := none } k' = _
    rw [hhandles, Function.update_apply]
  have hdesc : (Ns.detach k d n).descriptions = (dropRef d n).descriptions := hdescs
  have hpoints : (fun k' => ((Ns.detach k d n).handles k').description) =
      Function.update (fun k' => (n.handles k').description) k none := by
    funext k'
    by_cases hk' : k' = k <;> simp [hhandle, hk']
  refine ⟨?_, ?_, ?_, ?_⟩
  · rw [hpoints, hdesc]
    apply h.counted.detach hk
    · rw [hself]
      exact Nat.succ_pred hlive
    · intro c hc
      rw [dropRef_of_ne hc]
  · intro k₁ k₂ c h₁ h₂
    rw [hhandle] at h₁ h₂ ⊢
    rw [hhandle]
    split at h₁
    · cases h₁
    split at h₂
    · cases h₂
    rename_i hk₁ hk₂
    rw [if_neg hk₁, if_neg hk₂]
    exact h.owners h₁ h₂
  · intro c hc
    rw [Live, hdesc] at hc
    rw [hdesc]
    by_cases hcd : c = d
    · subst hcd
      rw [hself]
      exact h.modes hlive
    · rw [dropRef_of_ne hcd] at hc ⊢
      exact h.modes hc
  · intro k'
    rw [hhandle]
    split
    · exact h.generations k
    · exact h.generations k'

/-- **A handle is closed.** -/
theorem Sound.detach (h : Sound n) (hk : (n.handles k).description = some d) : Sound (detach k d n) := by
  have hlive : Live n d := h.counted.pos hk
  obtain ⟨hdescs, -, hhooks, hopens⟩ := release_rest d n
  have hnodes := h.toTables.release_node hlive
  have hself : (release d n).descriptions d = { n.descriptions d with refs := (n.descriptions d).refs - 1 } := by
    rw [hdescs, h.toTables.dropRef_description hlive]
  have hpos := Nat.pos_of_ne_zero hlive
  have hdead : Live (release d n) d ↔ (n.descriptions d).refs ≠ 1 := by
    rw [Live, hself]
    dsimp only
    omega
  have hlinked : Linked (release d n) := by
    refine h.toLinked.switch d ?_ ?_ ?_ ?_ ?_ ?_
    · intro c hc
      rw [hdescs, dropRef_of_ne hc]
    · intro j
      rw [hnodes]
    · intro j
      rw [hnodes]
    · intro _
      rw [SfNamespace.node, hself, hnodes]
      exact h.live hlive
    · intro j hj
      have hle := h.toLinked.writers_le hj
      have hwriter : Writes n j d → 0 < (n.nodes j).writers := fun hw => h.writers hj ▸ tally_pos hw
      have hfeeds : Writes n j d ↔ j = (n.descriptions d).node ∧ feeds (n.nodes j) (n.descriptions d).mode = true := by
        simp [Writes, hlive, feeds, hj, eq_comm (a := j)]
      have hafter : Writes (release d n) j d ↔ (n.descriptions d).refs ≠ 1 ∧ Writes n j d := by
        simp only [Writes, hdead, hlive, hself, true_and]
      rw [hnodes]
      simp only [hafter, ← hfeeds]
      by_cases hlast : (n.descriptions d).refs = 1 <;> by_cases hw : Writes n j d
      · have := hwriter hw
        simp only [hlast, hw, and_self, if_true, ne_eq, not_true, false_and, if_false]
        omega
      all_goals simp [hlast, hw]
    · have htag : Leased n d ↔ hooked n (n.descriptions d).node = true := by
        rw [h.toTree.hooked_iff]
        exact and_iff_right hlive
      have hafter : Leased (release d n) d ↔ (n.descriptions d).refs ≠ 1 ∧ hooked n (n.descriptions d).node = true := by
        rw [Leased, hdead, SfNamespace.node, hself, hnodes, h.toTree.hooked_iff]
      rw [hopens, h.toTables.release_closes hlive]
      simp only [htag, hafter]
      by_cases hlast : (n.descriptions d).refs = 1 <;> simp [hlast]
      omega
  refine ⟨h.toTables.detach hk, h.toTree.congr ?_ hhooks, ⟨hlinked.live, hlinked.writers, hlinked.leases⟩⟩
  intro j
  change ((release d n).nodes j).face = _
  rw [hnodes]
  rfl

end Handles

end SpiritFox.Ns
