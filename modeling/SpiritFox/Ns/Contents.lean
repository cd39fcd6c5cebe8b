import SpiritFox.Ns.Runs

/-!
# Contents and cursors

What the calls on an open file can do: `Outcome` says that a call fails and changes nothing, or moves the cursor of
its description and changes the contents of its node. `Bounded` is what holds of sizes and cursors in every state
that can be reached (`reachable_bounded`): a RAM file or a pipe never has more than `dataBytes` bytes, no cursor is
behind them, and a description that is open for writing is on a node that can be written.
-/

namespace SpiritFox.Ns

open ByteMem Checks Proc

/-! ## What a call on an open file does -/

/-- The cursor of `d` and the contents of its node have changed. -/
def moved (n : SfNamespace) (d : DescId) (offset size head : Nat) (data : Mem) : SfNamespace :=
  (n.setOffset d offset).setContent (n.descriptions d).node size head data

/-- The contents are in the node itself. -/
def SfNode.Ram (x : SfNode) : Prop := x.type = some .file ∨ x.type = some .pipe

def SfNode.Fits (x : SfNode) : Prop := x.size ≤ dataBytes ∧ x.head < dataBytes

/-- A call on `d` fails and changes nothing, or it moves its cursor and changes the contents of its node. -/
inductive Outcome {α : Type} (n : SfNamespace) (d : DescId) : Except Int α × SfNamespace → Prop
  | failed (e : Int) : Outcome n d (.error e, n)
  | done (v : α) {offset size head : Nat} {data : Mem}
      (fits : (n.node d).Ram → (n.node d).Fits → (n.descriptions d).offset ≤ dataBytes →
        size ≤ dataBytes ∧ head < dataBytes ∧ offset ≤ dataBytes) : Outcome n d (.ok v, moved n d offset size head data)

section Moved

variable {n : SfNamespace} {d c : DescId} {offset size head : Nat} {data : Mem}

@[simp] theorem moved_handles : (moved n d offset size head data).handles = n.handles := rfl

theorem moved_description : (moved n d offset size head data).descriptions d = { n.descriptions d with offset := offset } :=
  Function.update_self ..

theorem moved_description_of_ne (hc : c ≠ d) : (moved n d offset size head data).descriptions c = n.descriptions c :=
  Function.update_of_ne hc _ _

/-- Apart from the cursor a description stays. -/
theorem moved_description_rest (c : DescId) :
    ((moved n d offset size head data).descriptions c).node = (n.descriptions c).node ∧
    ((moved n d offset size head data).descriptions c).mode = (n.descriptions c).mode ∧
    ((moved n d offset size head data).descriptions c).refs = (n.descriptions c).refs := by
  by_cases hc : c = d
  · rw [hc, moved_description]
    exact ⟨rfl, rfl, rfl⟩
  · rw [moved_description_of_ne hc]
    exact ⟨rfl, rfl, rfl⟩

theorem moved_node : (moved n d offset size head data).nodes (n.descriptions d).node =
    { n.node d with size := size, head := head, data := data } := Function.update_self ..

theorem moved_node_of_ne {i : NodeId} (hi : i ≠ (n.descriptions d).node) :
    (moved n d offset size head data).nodes i = n.nodes i := Function.update_of_ne hi _ _

/-- Apart from the contents a node stays. -/
theorem moved_node_rest (i : NodeId) : ((moved n d offset size head data).nodes i).type = (n.nodes i).type ∧
    ((moved n d offset size head data).nodes i).readonly = (n.nodes i).readonly ∧
    ((moved n d offset size head data).nodes i).writers = (n.nodes i).writers := by
  by_cases hi : i = (n.descriptions d).node
  · rw [hi, moved_node]
    exact ⟨rfl, rfl, rfl⟩
  · rw [moved_node_of_ne hi]
    exact ⟨rfl, rfl, rfl⟩

theorem setOffset_self : n.setOffset d (n.descriptions d).offset = n :=
  congrArg (fun f => { n with descriptions := f }) (Function.update_eq_self d n.descriptions)

theorem setContent_self (i : NodeId) : n.setContent i (n.nodes i).size (n.nodes i).head (n.nodes i).data = n :=
  congrArg (fun f => { n with nodes := f }) (Function.update_eq_self i n.nodes)

theorem setOffset_eq_moved : n.setOffset d offset = moved n d offset (n.node d).size (n.node d).head (n.node d).data :=
  (setContent_self (n := n.setOffset d offset) (n.descriptions d).node).symm

theorem setContent_eq_moved : n.setContent (n.descriptions d).node size head data =
    moved n d (n.descriptions d).offset size head data := by
  rw [moved, setOffset_self]

theorem eq_moved : n = moved n d (n.descriptions d).offset (n.node d).size (n.node d).head (n.node d).data := by
  rw [← setOffset_eq_moved, setOffset_self]

end Moved

section Outcomes

variable {α : Type} {n : SfNamespace} {owner h : Nat} {k : SlotId} {d : DescId} {b : Backend}

theorem withDescription_eq {f : SlotId → DescId → SfNamespace → Except Int α × SfNamespace}
    (hd : description n owner h = some (k, d)) : withDescription owner h f n = f k d n := by
  unfold withDescription
  rw [hd]

theorem Outcome.same (v : α) : Outcome n d (.ok v, n) := by
  have hdone : Outcome n d (.ok v, moved n d (n.descriptions d).offset (n.node d).size (n.node d).head (n.node d).data) :=
    .done v fun _ hfits ho => ⟨hfits.1, hfits.2, ho⟩
  rwa [← eq_moved] at hdone

theorem Outcome.unchanged (r : Except Int α) : Outcome n d (r, n) := by
  cases r with
  | error e => exact .failed e
  | ok v => exact .same v

theorem Outcome.offset (v : α) {offset : Nat} (ho : (n.node d).Ram → (n.node d).Fits → offset ≤ dataBytes) :
    Outcome n d (.ok v, n.setOffset d offset) := by
  rw [setOffset_eq_moved]
  exact .done v fun hram hfits _ => ⟨hfits.1, hfits.2, ho hram hfits⟩

theorem Outcome.content (v : α) {size head : Nat} {data : Mem}
    (hs : (n.node d).Ram → (n.node d).Fits → size ≤ dataBytes ∧ head < dataBytes) :
    Outcome n d (.ok v, n.setContent (n.descriptions d).node size head data) := by
  rw [setContent_eq_moved]
  exact .done v fun hram hfits ho => ⟨(hs hram hfits).1, (hs hram hfits).2, ho⟩

theorem not_ram_of_disk {x : SfNode} (h : x.type = some .disk) : ¬x.Ram := by
  rintro (h' | h') <;> rw [h] at h' <;> cases h'

section

variable (hd : description n owner h = some (k, d))

include hd

theorem sfNsRead_outcome (b : Backend) (bytes : Nat) :
    Outcome n d (sfNsRead b owner h bytes n) := by
  unfold sfNsRead
  rw [withDescription_eq hd]
  dsimp only
  split
  · exact .failed _
  split
  · exact .failed _
  · exact .unchanged _
  · rename_i hdisk
    split
    · exact .same _
    split
    · exact .failed _
    · exact .offset _ fun hram => absurd hram (not_ram_of_disk hdisk)
  · split
    · exact .same _
    split
    · exact .unchanged _
    · refine .content _ fun _ hfits => ⟨(Nat.sub_le _ _).trans hfits.1, Nat.mod_lt _ (by decide)⟩
  · split
    · exact .same _
    · rename_i hend
      refine .offset _ fun _ hfits => ?_
      have hsize := hfits.1
      omega

theorem sfNsWrite_outcome (b : Backend) (data : List UInt8) :
    Outcome n d (sfNsWrite b owner h data n) := by
  unfold sfNsWrite
  rw [withDescription_eq hd]
  dsimp only
  split
  · exact .failed _
  split
  · exact .failed _
  split
  · exact .failed _
  split
  · exact .same _
  split
  · exact .unchanged _
  split
  · rename_i hdisk
    unfold writeDisk
    dsimp only
    split
    · exact .failed _
    split
    · exact .failed _
    split
    · exact .failed _
    · exact .done _ fun hram => absurd hram (not_ram_of_disk hdisk)
  split
  · exact .failed _
  split
  · unfold writePipe
    dsimp only
    split
    · exact .failed _
    refine .content _ fun _ hfits => ⟨?_, hfits.2⟩
    have hsize := hfits.1
    omega
  · unfold writeFile
    dsimp only
    split
    · exact .failed _
    refine .done _ fun _ hfits ho => ?_
    have hsize := hfits.1
    exact ⟨by omega, hfits.2, by omega⟩

theorem sfNsTruncate_outcome (b : Backend) (bytes : Nat) :
    Outcome n d (sfNsTruncate b owner h bytes n) := by
  unfold sfNsTruncate
  rw [withDescription_eq hd]
  dsimp only
  split
  · exact .failed _
  split
  · exact .failed _
  split
  · exact .failed _
  split
  · exact .failed _
  split
  · rename_i hdisk
    split
    · exact .failed _
    · exact .content _ fun hram => absurd hram (not_ram_of_disk hdisk)
  split
  · exact .failed _
  · rename_i hbytes
    exact .content _ fun _ hfits => ⟨Nat.not_lt.1 hbytes, hfits.2⟩

theorem sfNsSeek_outcome (offset : Nat) :
    Outcome n d (sfNsSeek owner h offset n) := by
  unfold sfNsSeek
  rw [withDescription_eq hd]
  dsimp only
  split
  · exact .failed _
  split
  · exact .failed _
  rename_i hlimit
  refine .offset _ fun hram _ => ?_
  have hnot := not_or.1 hlimit
  rw [seekLimit, if_neg fun hdisk => not_ram_of_disk hdisk hram] at hnot
  omega

end

end Outcomes

/-! ## Bounds -/

structure Bounded (n : SfNamespace) : Prop where
  fits : ∀ {i : NodeId}, (n.nodes i).Ram → (n.nodes i).Fits
  cursors : ∀ {d : DescId}, Live n d → (n.node d).Ram → (n.descriptions d).offset ≤ dataBytes
  writable : ∀ {d : DescId}, Live n d → (n.descriptions d).mode &&& openWrite ≠ 0 → (n.node d).readonly = false

section Bounds

variable {n n' : SfNamespace} {d : DescId} {i : NodeId}

theorem SfNode.Ram.congr {x y : SfNode} (h : y.Ram) (ht : y.type = x.type) : x.Ram := by
  unfold SfNode.Ram at h ⊢
  rwa [ht] at h

theorem Outcome.bounded {α : Type} {r : Except Int α × SfNamespace} (hn : Bounded n) (hd : Live n d) (h : Outcome n d r) :
    Bounded r.2 := by
  cases h with
  | failed e => exact hn
  | @done v offset size head data fits =>
    refine ⟨?_, ?_, ?_⟩
    · intro i hram
      have hram' := hram.congr (moved_node_rest i).1
      by_cases hi : i = (n.descriptions d).node
      · subst hi
        have hnew := fits hram' (hn.fits hram') (hn.cursors hd hram')
        rw [moved_node]
        exact ⟨hnew.1, hnew.2.1⟩
      · rw [moved_node_of_ne hi]
        exact hn.fits hram'
    · intro c hc hram
      obtain ⟨hnode, -, hrefs⟩ := @moved_description_rest n d offset size head data c
      have hlive : Live n c := by rwa [Live, ← hrefs]
      have hram' : (n.node c).Ram := by
        rw [SfNamespace.node, hnode] at hram
        exact hram.congr (moved_node_rest _).1
      by_cases hcd : c = d
      · subst hcd
        rw [moved_description]
        exact (fits hram' (hn.fits hram') (hn.cursors hd hram')).2.2
      · rw [moved_description_of_ne hcd]
        exact hn.cursors hlive hram'
    · intro c hc hmode
      obtain ⟨hnode, hsame, hrefs⟩ := @moved_description_rest n d offset size head data c
      have hlive : Live n c := by rwa [Live, ← hrefs]
      rw [hsame] at hmode
      rw [SfNamespace.node, hnode, (moved_node_rest _).2.1]
      exact hn.writable hlive hmode

/-- Descriptions come, with the cursor at the start, and go. -/
theorem Bounded.rewired (h : Bounded n) (hnodes : ∀ i, ∃ w, n'.nodes i = { n.nodes i with writers := w })
    (hdescs : ∀ c, Live n' c →
      (Live n c ∧ (n'.descriptions c).node = (n.descriptions c).node ∧ (n'.descriptions c).mode = (n.descriptions c).mode ∧
        (n'.descriptions c).offset = (n.descriptions c).offset) ∨
      ((n'.descriptions c).offset = 0 ∧
        ((n'.descriptions c).mode &&& openWrite ≠ 0 → (n.nodes (n'.descriptions c).node).readonly = false))) :
          Bounded n' := by
  refine ⟨?_, ?_, ?_⟩
  · intro i hram
    obtain ⟨w, hw⟩ := hnodes i
    rw [hw] at hram ⊢
    exact h.fits hram
  · intro c hc hram
    rcases hdescs c hc with ⟨hlive, hnode, -, hoffset⟩ | ⟨hoffset, -⟩
    · obtain ⟨w, hw⟩ := hnodes (n.descriptions c).node
      rw [SfNamespace.node, hnode, hw] at hram
      rw [hoffset]
      exact h.cursors hlive hram
    · rw [hoffset]
      exact Nat.zero_le _
  · intro c hc hmode
    obtain ⟨w, hw⟩ := hnodes (n'.descriptions c).node
    rw [SfNamespace.node, hw]
    rcases hdescs c hc with ⟨hlive, hnode, hsame, -⟩ | ⟨-, hro⟩
    · rw [hsame] at hmode
      rw [hnode]
      exact h.writable hlive hmode
    · exact hro hmode

/-- The tree changes away from everything that is open. -/
theorem Bounded.quiet (h : Bounded n) (hq : Quiet n n') (hfits : ∀ i, (n'.nodes i).Ram → (n'.nodes i).Fits) :
    Bounded n' := by
  have hnode : ∀ c, Live n' c → Live n c ∧ n'.node c = n.node c := by
    intro c hc
    have hlive : Live n c := by rwa [Live, hq.descriptions] at hc
    refine ⟨hlive, ?_⟩
    rw [SfNamespace.node, hq.descriptions]
    exact hq.inUse _ ⟨c, hlive, rfl⟩
  refine ⟨fun hram => hfits _ hram, ?_, ?_⟩
  · intro c hc hram
    rw [(hnode c hc).2] at hram
    rw [hq.descriptions]
    exact h.cursors (hnode c hc).1 hram
  · intro c hc hmode
    rw [hq.descriptions] at hmode
    rw [(hnode c hc).2]
    exact h.writable (hnode c hc).1 hmode

theorem openCheck_writable {owner mode : Nat} {base path : Path}
    (hok : openCheck owner base path mode n = .ok (i, d)) (hmode : mode &&& openWrite ≠ 0) :
    (n.nodes i).readonly = false := by
  unfold openCheck at hok
  rw [guard_eq_ok, guard_eq_ok] at hok
  obtain ⟨-, -, hok⟩ := hok
  split at hok
  · cases hok
  rw [guard_eq_ok] at hok
  obtain ⟨-, hok⟩ := hok
  split at hok
  · cases hok
  rw [guard_eq_ok, guard_eq_ok] at hok
  obtain ⟨-, hro, hok⟩ := hok
  split at hok
  · cases hok
  cases hok
  rw [Bool.eq_false_iff]
  exact fun h => hro ⟨h, hmode⟩

theorem prepare_description (mode : Nat) (i : NodeId) (c : DescId) : (prepare mode i d n).descriptions c =
    if c = d then ⟨i, 0, mode, 0⟩ else n.descriptions c := by
  simp [prepare, SfNamespace.setDescription, Function.update_apply]

section

variable (h : Bounded n)

include h

/-- A description that is not in use is filled in. -/
theorem Bounded.prepared {mode : Nat}
    (hro : mode &&& openWrite ≠ 0 → (n.nodes i).readonly = false)
    (hnodes : ∀ j, ∃ w, n'.nodes j = { n.nodes j with writers := w })
    (hself : n'.descriptions d = { (⟨i, 0, mode, 0⟩ : SfDescription) with refs := (n'.descriptions d).refs })
    (hother : ∀ c, c ≠ d → n'.descriptions c = n.descriptions c) : Bounded n' := by
  refine h.rewired hnodes fun c hc => ?_
  by_cases hcd : c = d
  · right
    rw [hcd, hself]
    exact ⟨rfl, hro⟩
  · left
    rw [Live, hother c hcd] at hc
    rw [hother c hcd]
    exact ⟨hc, rfl, rfl, rfl⟩

theorem Bounded.open (b : Backend) (owner : Nat) (base path : Path) (mode : Nat) :
    Bounded (sfNsOpen b owner base path mode n).2 := by
  unfold sfNsOpen checked
  split
  · exact h
  rename_i a hok
  have hro := openCheck_writable (i := a.1) (d := a.2) hok
  change Bounded (openNode b owner mode a.1 a.2 n).2
  unfold openNode
  split
  · exact h
  rcases handleNew_cases owner a.2 (prepare mode a.1 a.2 n) with hfull | ⟨k, -, -, hnew⟩
  · rw [hfull]
    change Bounded (tellClose a.1 (prepare mode a.1 a.2 n))
    refine h.prepared (d := a.2) hro (fun j => ⟨_, rfl⟩) ?_ fun c hc => ?_
    · simp [tellClose, prepare_description]
    · exact (prepare_description mode a.1 c).trans (if_neg hc)
  · rw [hnew]
    dsimp only
    have hrest := (adjustWriters_rest (· + 1) mode a.1 (attach owner a.2 k (prepare mode a.1 a.2 n))).1
    refine h.prepared (d := a.2) hro (fun j => ⟨_, adjustWriters_node _ j⟩) ?_ fun c hc => ?_
    · rw [hrest]
      simp [attach, SfNamespace.setHandle, SfNamespace.setDescription, prepare]
    · rw [hrest, attach_descriptions_of_ne hc, prepare_description, if_neg hc]

theorem Bounded.openat (b : Backend) (owner directory : Nat) (relative : Path) (mode : Nat) :
    Bounded (sfNsOpenat b owner directory relative mode n).2 := by
  unfold sfNsOpenat withDescription
  split
  · exact h
  dsimp only
  split
  · exact h
  split
  · exact h
  split
  · exact h
  split
  · exact h
  · exact h.open b owner _ _ mode

theorem Bounded.dup (hn : Good n) (owner hd : Nat) : Bounded (sfNsDup owner hd n).2 := by
  unfold sfNsDup withDescription
  split
  · exact h
  rename_i k₀ c hheld
  have hlive : Live n c := hn.counted.pos (description_some hheld).1
  dsimp only
  rcases handleNew_cases owner c n with hfull | ⟨k, -, -, hnew⟩
  · rw [hfull]
    exact h
  rw [hnew]
  refine h.rewired (fun j => ⟨_, rfl⟩) fun a ha => .inl ?_
  dsimp only at ha ⊢
  by_cases hac : a = c
  · rw [hac, hn.toTables.attach_description]
    exact ⟨hlive, rfl, rfl, rfl⟩
  rw [Live, attach_descriptions_of_ne hac] at ha
  rw [attach_descriptions_of_ne hac]
  exact ⟨ha, rfl, rfl, rfl⟩

theorem Bounded.close (hn : Good n) (owner hd : Nat) : Bounded (sfNsClose owner hd n).2 := by
  unfold sfNsClose withDescription
  split
  · exact h
  rename_i k c hheld
  have hlive : Live n c := hn.counted.pos (description_some hheld).1
  refine h.rewired (fun j => ⟨_, hn.toTables.release_node hlive j⟩) fun a ha => .inl ?_
  have hdescs : (detach k c n).descriptions = (dropRef c n).descriptions := (release_rest c n).1
  dsimp only at ha ⊢
  rw [Live, hdescs] at ha
  rw [hdescs]
  by_cases hac : a = c
  · rw [hac, hn.toTables.dropRef_description hlive]
    exact ⟨hlive, rfl, rfl, rfl⟩
  · rw [dropRef_of_ne hac] at ha ⊢
    exact ⟨ha, rfl, rfl, rfl⟩

theorem Bounded.reap (hn : Good n) (owner : Nat) : Bounded (sfNsReap owner n) := by
  have hfold : Good (sfNsReap owner n) ∧ Bounded (sfNsReap owner n) := by
    refine Fold.keeps (I := fun m => Good m ∧ Bounded m) (List.finRange 64) ?_ ⟨hn, h⟩
    rintro m k _ ⟨hm, hb⟩
    unfold reapSlot
    split
    · exact ⟨(effects_close owner _ m).good hm, hb.close hm owner _⟩
    · exact ⟨hm, hb⟩
  exact hfold.2

/-- A node that nothing is open on is replaced. -/
theorem Bounded.setNode {x : SfNode} (hidle : ¬ InUse n i)
    (hc : (n.nodes i).type ≠ some .console) (hx : x.Ram → x.Fits) : Bounded (n.setNode i x) := by
  refine h.quiet (Quiet.setNode hidle hc) fun j hj => ?_
  by_cases hji : j = i
  · rw [hji, setNode_self] at hj ⊢
    exact hx hj
  · rw [setNode_of_ne hji] at hj ⊢
    exact h.fits hj

theorem Bounded.create (hn : Good n) (p : Path) (type : Nat) (ro : Bool) :
    Bounded (sfNsCreate p type ro n).2 := by
  rcases sfNsCreate_cases p type ro n with ⟨e, he⟩ | ⟨i, t, hok, hnew⟩
  · rw [he]
    exact h
  rw [hnew]
  have hfree := (createCheck_ok hok).1
  refine h.setNode (hn.toSound.not_inUse hfree) (by rw [hfree]; exact nofun) fun _ => ?_
  exact ⟨Nat.zero_le _, Nat.zero_lt_of_lt (show 0 < dataBytes by decide)⟩

end

theorem not_ram_emptyNode : ¬emptyNode.Ram := by
  rintro (h | h) <;> cases h

theorem Bounded.remove (h : Bounded n) (owner directory : Nat) (relative : Path) {kind : NodeType}
    (hkind : kind ≠ .console) :
    Bounded (removeNode owner directory relative kind n).2 := by
  unfold removeNode checked
  split
  · exact h
  rename_i i hok
  obtain ⟨-, -, -, -, -, -, -, -, -, htype, hidle, -⟩ := removeCheck_ok hok
  refine h.setNode hidle ?_ fun hram => absurd hram not_ram_emptyNode
  rw [htype]
  exact fun hc => hkind (Option.some.inj hc)

/-- What an unmount leaves of a RAM node is what was there. -/
theorem unmountNode_of_ram (hn : Sound n) {tag : Nat} (htag : tag ≠ 0) (h : (unmountNode tag (n.nodes i)).Ram) :
    unmountNode tag (n.nodes i) = n.nodes i := by
  unfold unmountNode at h ⊢
  split at h
  · rename_i htagged
    exfalso
    split at h
    · rcases (hn.tagged (by rw [htagged]; exact htag)).2.1 with ht | ht <;>
        rcases h with h | h <;> exact absurd (ht.symm.trans h) (by decide)
    · exact not_ram_emptyNode h
  · rename_i htagged
    rw [if_neg htagged]

theorem Bounded.unmount (h : Bounded n) (hn : Good n) (tag : Nat) : Bounded (sfNsUnmount tag n).2 := by
  unfold sfNsUnmount
  split
  · exact h
  rename_i hzero
  split
  · exact h
  rename_i hbusy
  refine h.quiet ⟨rfl, rfl, ?_, ?_⟩ ?_
  · rintro i ⟨d, hd, rfl⟩
    exact if_neg fun htag => hbusy ⟨d, hd, htag⟩
  · intro i hi
    refine if_neg fun htag => ?_
    rcases (hn.tagged (by rw [htag]; exact hzero)).2.1 with ht | ht <;> rw [hi] at ht <;> cases ht
  · intro i hram
    have hsame := unmountNode_of_ram hn.toSound hzero hram
    change (unmountNode tag (n.nodes i)).Ram at hram
    change (unmountNode tag (n.nodes i)).Fits
    rw [hsame] at hram ⊢
    exact h.fits hram

theorem Bounded.onHandle {α : Type} {owner hd : Nat} {f : SlotId → DescId → SfNamespace → Except Int α × SfNamespace}
    (h : Bounded n) (hn : Good n)
    (hf : ∀ k d, description n owner hd = some (k, d) → Outcome n d (withDescription owner hd f n)) :
    Bounded (withDescription owner hd f n).2 := by
  cases hdesc : description n owner hd with
  | none =>
    unfold withDescription
    rw [hdesc]
    exact h
  | some kd => exact (hf kd.1 kd.2 hdesc).bounded h (hn.counted.pos (description_some hdesc).1)

/-- **Every request keeps the bounds.** -/
theorem Bounded.run (h : Bounded n) (hn : Good n) (b : Backend) (r : Request) : Bounded (r.run b n) := by
  cases r with
  | nsCreate p type ro => exact h.create hn p type ro
  | nsOpen owner base path mode => exact h.open b owner base path mode
  | nsOpenat owner directory relative mode => exact h.openat b owner directory relative mode
  | nsDup owner hd => exact h.dup hn owner hd
  | nsClose owner hd => exact h.close hn owner hd
  | nsRead owner hd bytes => exact h.onHandle hn fun _ _ hdesc => sfNsRead_outcome hdesc b bytes
  | nsWrite owner hd data => exact h.onHandle hn fun _ _ hdesc => sfNsWrite_outcome hdesc b data
  | nsSeek owner hd offset => exact h.onHandle hn fun _ _ hdesc => sfNsSeek_outcome hdesc offset
  | nsTruncate owner hd bytes => exact h.onHandle hn fun _ _ hdesc => sfNsTruncate_outcome hdesc b bytes
  | nsUnlink owner directory relative => exact h.remove owner directory relative nofun
  | nsRmdir owner directory relative => exact h.remove owner directory relative nofun
  | nsReap owner => exact h.reap hn owner
  | nsUnmount tag => exact h.unmount hn tag

end Bounds

/-! ## Nodes that a call leaves alone -/

/-- Node `i` is as it was, up to its writers. -/
def Untouched (i : NodeId) (n n' : SfNamespace) : Prop := ∃ w, n'.nodes i = { n.nodes i with writers := w }

section Untouched

variable {n n' : SfNamespace} {i : NodeId} {owner h : Nat} {α : Type}

theorem Untouched.of_eq (he : n'.nodes i = n.nodes i) : Untouched i n n' := ⟨(n.nodes i).writers, he⟩

theorem Untouched.trans {m : SfNamespace} (h₁ : Untouched i n m) (h₂ : Untouched i m n') : Untouched i n n' := by
  obtain ⟨w, hw⟩ := h₁
  obtain ⟨v, hv⟩ := h₂
  exact ⟨v, by rw [hv, hw]⟩

theorem untouched_withDescription {f : SlotId → DescId → SfNamespace → Except Int α × SfNamespace}
    (hf : ∀ k d, description n owner h = some (k, d) → Untouched i n (f k d n).2) :
    Untouched i n (withDescription owner h f n).2 := by
  unfold withDescription
  split
  · exact .of_eq rfl
  · rename_i k d hd
    exact hf k d hd

theorem Outcome.untouched {d : DescId} {r : Except Int α × SfNamespace} (ho : Outcome n d r)
    (hne : i ≠ (n.descriptions d).node) : Untouched i n r.2 := by
  cases ho with
  | failed e => exact .of_eq rfl
  | done v fits => exact .of_eq (moved_node_of_ne hne)

/-- A call on the handle of another node. -/
theorem untouched_onHandle {f : SlotId → DescId → SfNamespace → Except Int α × SfNamespace}
    (hf : ∀ k d, description n owner h = some (k, d) → Outcome n d (withDescription owner h f n))
    (hne : ∀ k d, description n owner h = some (k, d) → i ≠ (n.descriptions d).node) :
    Untouched i n (withDescription owner h f n).2 := by
  cases hdesc : description n owner h with
  | none =>
    refine untouched_withDescription fun k d hd => ?_
    rw [hdesc] at hd
    cases hd
  | some kd => exact (hf kd.1 kd.2 hdesc).untouched (hne kd.1 kd.2 hdesc)

theorem untouched_opening {mode : Nat} {path : Path} {r : Except Int Nat × SfNamespace} (ho : Opening owner mode path n r) :
    Untouched i n r.2 := by
  cases ho with
  | refused e => exact .of_eq rfl
  | turnedAway unused => exact .of_eq rfl
  | entered found unused valid free room => exact ⟨_, adjustWriters_node _ i⟩

theorem untouched_openat (b : Backend) (owner directory : Nat) (relative : Path) (mode : Nat) :
    Untouched i n (sfNsOpenat b owner directory relative mode n).2 := by
  rcases sfNsOpenat_opening b owner directory relative mode n with ⟨e, hsame⟩ | ⟨k, d, path, -, -, -, -, hopening⟩
  · exact .of_eq (congrArg (fun r : Except Int Nat × SfNamespace => r.2.nodes i) hsame)
  · exact untouched_opening hopening

theorem untouched_dup (owner h : Nat) : Untouched i n (sfNsDup owner h n).2 := by
  refine untouched_withDescription fun k₀ d _ => ?_
  rcases handleNew_cases owner d n with hfull | ⟨k, -, -, hnew⟩
  · rw [hfull]
    exact .of_eq rfl
  · rw [hnew]
    exact .of_eq rfl

theorem untouched_close (hn : Good n) (owner h : Nat) : Untouched i n (sfNsClose owner h n).2 := by
  refine untouched_withDescription ?_
  intro k d hd
  exact ⟨_, hn.toTables.release_node (hn.counted.pos (description_some hd).1) i⟩

theorem untouched_reap (hn : Good n) (owner : Nat) : Untouched i n (sfNsReap owner n) := by
  have hfold : Good (sfNsReap owner n) ∧ Untouched i n (sfNsReap owner n) := by
    refine Fold.keeps (I := fun m => Good m ∧ Untouched i n m) (List.finRange 64) ?_ ⟨hn, .of_eq rfl⟩
    rintro m k _ ⟨hm, hi⟩
    unfold reapSlot
    split
    · exact ⟨(effects_close owner _ m).good hm, hi.trans (untouched_close hm owner _)⟩
    · exact ⟨hm, hi⟩
  exact hfold.2

end Untouched

/-! ## Mounts -/

/-- The RAM nodes outside of a mount are as they were. -/
def RamKept (n n' : SfNamespace) : Prop := ∀ i, (n'.nodes i).Ram → (n'.nodes i).mountTag = 0 → n'.nodes i = n.nodes i

section Mounts

variable {n n' : SfNamespace}

theorem RamKept.refl (n : SfNamespace) : RamKept n n := fun _ _ _ => rfl

theorem RamKept.trans (n₁ n₂ n₃ : SfNamespace) (h : RamKept n₁ n₂) (h' : RamKept n₂ n₃) : RamKept n₁ n₃ := by
  intro i hram htag
  have hsame := h' i hram htag
  rw [hsame] at hram htag ⊢
  exact h i hram htag

theorem RamKept.setNode {i : NodeId} {x : SfNode} (hx : x.Ram → x.mountTag ≠ 0) : RamKept n (n.setNode i x) := by
  intro j hram htag
  by_cases hji : j = i
  · rw [hji, setNode_self] at hram htag
    exact absurd htag (hx hram)
  · exact setNode_of_ne hji

theorem not_ram_newNode {p : Path} {t : NodeType} {ro : Bool} (ht : t = .dir ∨ t = .disk) : ¬(newNode p t ro).Ram := by
  rcases ht with rfl | rfl <;> rintro (h | h) <;> cases h

theorem ramKept_create {t : NodeType} (ht : t = .dir ∨ t = .disk) (p : Path) (ro : Bool) :
    Within RamKept (sfNsCreate p t.code ro) := by
  intro n
  rcases sfNsCreate_cases p t.code ro n with ⟨e, he⟩ | ⟨i, u, hok, hnew⟩
  · rw [he]
    exact .refl n
  rw [hnew]
  obtain ⟨-, -, -, hu, -⟩ := createCheck_ok hok
  rw [NodeType.ofCode_code] at hu
  cases hu
  exact .setNode fun hram => absurd hram (not_ram_newNode ht)

theorem ramKept_claim (path : Path) (type : NodeType) (external size : Nat) (existed : Bool) :
    Within RamKept (claimNode path type external size existed) := by
  intro n
  unfold claimNode
  split
  · exact .refl n
  split
  · exact .refl n
  · exact .setNode fun _ => Nat.one_ne_zero

theorem ramKept_namespaceNode {type : NodeType} (ht : type = .dir ∨ type = .disk) (path : Path) (external size : Nat) :
    Within RamKept (namespaceNode path type external size) := by
  intro n
  have hcreate := ramKept_create ht path (type = .disk) n
  unfold namespaceNode
  split
  · rename_i hr
    rw [hr] at hcreate
    exact RamKept.trans _ _ _ hcreate (ramKept_claim path type external size false _)
  · rename_i hr
    rw [hr] at hcreate
    split
    · exact RamKept.trans _ _ _ hcreate (ramKept_claim path type external size true _)
    · exact hcreate

theorem ramKept_mountFiles (files : List SfReadFile) : Within RamKept (mountFiles files) := by
  refine within_bind RamKept.trans (ramKept_namespaceNode (.inl rfl) diskPath 0 0) fun _ => ?_
  refine within_forM RamKept.refl RamKept.trans _ fun x => ?_
  refine within_bind RamKept.trans ?_ fun _ => ramKept_namespaceNode (.inr rfl) _ _ _
  exact within_forM RamKept.refl RamKept.trans _ fun p => ramKept_namespaceNode (.inl rfl) p 0 0

theorem ramKept_persistNodes (size : Nat) : Within RamKept (persistNodes size) := by
  refine within_bind RamKept.trans (ramKept_create (.inl rfl) persistPath false) fun _ => ?_
  refine within_bind RamKept.trans (within_read RamKept.refl) fun m => ?_
  refine within_bind RamKept.trans ?_ fun _ => within_bind RamKept.trans ?_ fun _ => ?_
  · refine within_onError RamKept.trans (ramKept_create (.inr rfl) notesPath false) fun _ n => ?_
    exact .setNode fun hram => absurd hram not_ram_emptyNode
  · intro n i _ htag
    change (if (n.nodes i).path = notesPath then _ else n.nodes i).mountTag = 0 at htag
    change (if (n.nodes i).path = notesPath then _ else n.nodes i) = n.nodes i
    split
    · rename_i hnotes
      rw [if_pos hnotes] at htag
      cases htag
    · rfl
  · intro n
    exact .setNode fun _ => Nat.one_ne_zero

theorem Bounded.mounted (h : Bounded n) (hn : Sound n') (hq : Quiet n n') (hr : RamKept n n') : Bounded n' := by
  refine h.quiet hq fun i hram => ?_
  have htag : (n'.nodes i).mountTag = 0 := by
    by_contra htag
    rcases (hn.tagged htag).2.1 with ht | ht <;> rcases hram with h | h <;> exact absurd (ht.symm.trans h) (by decide)
  have hsame := hr i hram htag
  rw [hsame] at hram ⊢
  exact h.fits hram

variable {s : Service}

theorem ramKept_storageMount (h : Fit s) (hhooks : s.ns.mountHooks = true) (disk : Disk) :
    RamKept s.ns (sfStorageMount disk s).2.ns := by
  unfold sfStorageMount
  split
  · exact .refl _
  rename_i hmounted
  split
  · exact .refl _
  split
  · exact .refl _
  rename_i hocc
  split
  · exact .refl _
  rename_i huse
  split
  · exact .refl _
  rename_i files _
  have hstart := h.mounting hhooks (by simpa using hmounted) hocc huse
  have hend := within_mountFiles s.ns files s.ns hstart
  have hkept := ramKept_mountFiles files s.ns
  cases hrun : mountFiles files s.ns with
  | mk r n =>
    rw [hrun] at hend hkept
    cases r with
    | error e =>
      dsimp only
      rw [sfNsUnmount_idle hend.idle]
      refine RamKept.trans _ _ _ hkept fun i hram _ => ?_
      exact unmountNode_of_ram hend.sound Nat.one_ne_zero hram
    | ok u =>
      refine RamKept.trans _ _ _ hkept fun i _ htag => ?_
      change lockNode (n.nodes i) = n.nodes i
      change (lockNode (n.nodes i)).mountTag = 0 at htag
      unfold lockNode at htag ⊢
      split
      · rename_i hone
        rw [if_pos hone] at htag
        rw [hone] at htag
        cases htag
      · rfl

theorem ramKept_storageUnmount (h : Fit s) (ready stopped : Except Int Unit) :
    RamKept s.ns (sfStorageUnmount ready stopped s).2.ns := by
  have hunmount : RamKept s.ns (sfNsUnmount 1 s.ns).2 := by
    unfold sfNsUnmount
    rw [if_neg Nat.one_ne_zero]
    split
    · exact .refl _
    · exact fun i hram _ => unmountNode_of_ram h.good.toSound Nat.one_ne_zero hram
  unfold sfStorageUnmount
  split
  · exact .refl _
  split
  · exact .refl _
  split
  · rename_i hr
    rw [hr] at hunmount
    exact hunmount
  · rename_i hr
    rw [hr] at hunmount
    split
    · exact hunmount
    · exact hunmount

theorem ramKept_persistMount (volume : Except Int Nat) : RamKept s.ns (sfPersistMount volume s).2.ns := by
  unfold sfPersistMount
  split
  · exact .refl _
  split
  · exact .refl _
  · exact ramKept_persistNodes _ s.ns

theorem Step.bounded {s' : Service} (h : Bounded s.ns) (hs : Fit s) (hstep : Step s s') : Bounded s'.ns := by
  cases hstep with
  | request b r => exact h.run hs.good b r
  | transfer pid held fresh => exact ⟨h.fits, h.cursors, h.writable⟩
  | storageInit => exact ⟨h.fits, h.cursors, h.writable⟩
  | mount ready m =>
    obtain ⟨hfit, hquiet⟩ := hs.mount ready m
    refine h.mounted hfit.good.toSound hquiet ?_
    cases m with
    | storage disk => exact ramKept_storageMount hs ready disk
    | storageEnd r t => exact ramKept_storageUnmount hs r t
    | persist volume => exact ramKept_persistMount volume

theorem bounded_sfNsInit : Bounded sfNsInit := by
  refine ⟨?_, ?_, ?_⟩
  · intro i hram
    rw [nodes_sfNsInit] at hram
    split at hram
    · exact absurd hram (not_ram_newNode (.inl rfl))
    · exact absurd hram not_ram_emptyNode
  · intro d hd
    exact absurd rfl hd
  · intro d hd
    exact absurd rfl hd

/-- **Every state that can be reached is within the bounds.** -/
theorem reachable_bounded (h : Reachable s) : Bounded s.ns := by
  induction h with
  | refl => exact bounded_sfNsInit
  | tail hs hstep ih => exact hstep.bounded ih (reachable_fit hs)

end Mounts

end SpiritFox.Ns
