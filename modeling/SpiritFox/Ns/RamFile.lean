import SpiritFox.Ns.Acts
import SpiritFox.Ns.PlainFile

/-!
# RAM files

`OpenFile` is a plain file with the handles that are open on it: handles that were duplicated refer to one
description and share its cursor, and every description has a cursor of its own. Its steps (`OpenFile.Step`) are
those of an array of at most `dataBytes` bytes, which has nothing behind its end: a write beyond it fills the gap
with zeros, and what a truncation cuts off is gone.

`Shows` relates a node of the namespace to the file that it stands for. The main result is `ram_file_refines`:
whatever is done by whomever, the acts on a RAM file are a run of the file that it showed at the start.
-/

namespace SpiritFox.Ns

open ByteMem

/-! ## The ideal file -/

structure OpenFile extends PlainFile where
  handle : Handle → Option DescId

namespace OpenFile

/-- What the ideal file does. A handle that is new was not in use, and no handle refers to a description that is new. -/
inductive Step (f : OpenFile) : Act → OpenFile → Prop
  | opened {x : Handle} {d : DescId} (unused : f.handle x = none) (fresh : ∀ y, f.handle y ≠ some d) :
      Step f (.opened x) ⟨f.moveTo d 0, Function.update f.handle x (some d)⟩
  | duped {x y : Handle} {d : DescId} (held : f.handle x = some d) (unused : f.handle y = none) :
      Step f (.duped x y) ⟨f.toPlainFile, Function.update f.handle y (some d)⟩
  | closed {x : Handle} {d : DescId} (held : f.handle x = some d) :
      Step f (.closed x) ⟨f.toPlainFile, Function.update f.handle x none⟩
  | read {x : Handle} {d : DescId} {bytes : Nat} (held : f.handle x = some d) :
      Step f (.read x bytes (f.read d bytes).1) ⟨(f.read d bytes).2, f.handle⟩
  | pread {x : Handle} {d : DescId} {bytes offset : Nat} (held : f.handle x = some d) :
      Step f (.pread x bytes offset (f.bytesAt offset bytes)) f
  | wroteNothing {x : Handle} {d : DescId} (held : f.handle x = some d) : Step f (.wrote x [] 0) f
  /-- As much as there is room for, which is at least one byte. -/
  | wrote {x : Handle} {d : DescId} {data kept : List UInt8} (held : f.handle x = some d)
      (cut : kept = data.take (dataBytes - f.cursor d)) (some : kept ≠ []) :
      Step f (.wrote x data kept.length)
        ⟨PlainFile.moveTo ⟨PlainFile.spliced f.content (f.cursor d) kept, f.cursor⟩ d (f.cursor d + kept.length), f.handle⟩
  | sought {x : Handle} {d : DescId} {offset : Nat} (held : f.handle x = some d) (le : offset ≤ dataBytes) :
      Step f (.sought x offset) ⟨f.moveTo d offset, f.handle⟩
  | truncated {x : Handle} {d : DescId} {bytes : Nat} (held : f.handle x = some d) (le : bytes ≤ dataBytes) :
      Step f (.truncated x bytes)
        ⟨⟨f.content.take bytes ++ List.replicate (bytes - f.content.length) 0, f.cursor⟩, f.handle⟩

inductive Run (f : OpenFile) : List Act → OpenFile → Prop
  | nil : Run f [] f
  | snoc {acts : List Act} {g g' : OpenFile} {a : Act} (h : Run f acts g) (step : Step g a g') : Run f (acts ++ [a]) g'

theorem Run.single {f g : OpenFile} {a : Act} (h : Step f a g) : Run f [a] g := .snoc .nil h

theorem Run.append {f g g' : OpenFile} {acts acts' : List Act} (h : Run f acts g) (h' : Run g acts' g') :
    Run f (acts ++ acts') g' := by
  induction h' with
  | nil => simpa using h
  | snoc _ step ih =>
    rw [← List.append_assoc]
    exact ih.snoc step

end OpenFile

/-- Node `i` stands for the file `f`. -/
structure Shows (n : SfNamespace) (i : NodeId) (f : OpenFile) : Prop where
  content : f.content = slice (n.nodes i).data 0 (n.nodes i).size
  handle : ∀ x d, f.handle x = some d ↔ Holds n i x d
  cursor : ∀ x d, Holds n i x d → f.cursor d = (n.descriptions d).offset

/-- The file that node `i` stands for. -/
def openFile (n : SfNamespace) (i : NodeId) : OpenFile where
  content := slice (n.nodes i).data 0 (n.nodes i).size
  cursor d := (n.descriptions d).offset
  handle x := (description n x.1 x.2).bind fun kd => if (n.descriptions kd.2).node = i then some kd.2 else none

theorem shows_openFile (n : SfNamespace) (i : NodeId) : Shows n i (openFile n i) := by
  refine ⟨rfl, fun x d => ?_, fun _ _ _ => rfl⟩
  change ((description n x.1 x.2).bind fun kd => if (n.descriptions kd.2).node = i then some kd.2 else none) = some d ↔ _
  unfold Holds
  cases hd : description n x.1 x.2 with
  | none => simp
  | some kd =>
    obtain ⟨k, c⟩ := kd
    by_cases hc : (n.descriptions c).node = i
    · rw [Option.bind_some, if_pos hc]
      constructor
      · intro h
        cases h
        exact ⟨k, rfl, hc⟩
      · rintro ⟨k', hkd, -⟩
        cases hkd
        rfl
    · rw [Option.bind_some, if_neg hc]
      refine iff_of_false nofun ?_
      rintro ⟨k', hkd, hnode⟩
      cases hkd
      exact hc hnode

/-! ## Bytes of a memory -/

section Bytes

variable {m : Mem} {size offset bytes : Nat}

theorem bytesAt_slice : ((slice m 0 size).drop offset).take bytes = slice m offset (min bytes (size - offset)) := by
  rw [drop_slice, take_slice, Nat.zero_add]

/-- A write, with the gap before it filled. -/
theorem slice_written (kept : List UInt8) :
    slice (blit (if size < offset then clear m size (offset - size) else m) offset kept) 0
      (max size (offset + kept.length)) =
      PlainFile.spliced (slice m 0 size) offset kept := by
  have hsplit : max size (offset + kept.length) = offset + (kept.length + (size - (offset + kept.length))) := by omega
  have hfront : ∀ m' : Mem, slice (blit m' offset kept) 0 offset = slice m' 0 offset := fun m' =>
    slice_congr fun i hi => blit_of_lt (by omega)
  have hback : slice (blit (if size < offset then clear m size (offset - size) else m) offset kept) (offset + kept.length)
      (size - (offset + kept.length)) = slice m (offset + kept.length) (size - (offset + kept.length)) := by
    refine slice_congr fun i hi => ?_
    rw [blit_of_lt (by omega), if_neg (by omega)]
  rw [hsplit, slice_add, slice_add, Nat.zero_add, slice_blit_self, hback, hfront, PlainFile.spliced, take_slice, drop_slice,
    length_slice, Nat.zero_add]
  have hgap : slice (if size < offset then clear m size (offset - size) else m) 0 offset =
      slice m 0 (min offset size) ++ List.replicate (offset - size) 0 := by
    split
    · rename_i hlt
      obtain ⟨gap, rfl⟩ := Nat.exists_eq_add_of_le hlt.le
      rw [Nat.add_sub_cancel_left, slice_add, Nat.zero_add, slice_clear, Nat.min_eq_right (by omega)]
      congr 1
      exact slice_congr fun i hi => if_neg (by omega)
    · rename_i hle
      rw [Nat.sub_eq_zero_of_le (by omega), List.replicate_zero, List.append_nil, Nat.min_eq_left (by omega)]
  rw [hgap]
  simp only [List.append_assoc]

/-- A truncation, with everything behind the end cleared. -/
theorem slice_truncated (hb : bytes ≤ dataBytes) :
    slice (clear m (min bytes size) (dataBytes - min bytes size)) 0 bytes =
      (slice m 0 size).take bytes ++ List.replicate (bytes - size) 0 := by
  have hsplit : bytes = min bytes size + (bytes - size) := by omega
  have hkept : slice (clear m (min bytes size) (dataBytes - min bytes size)) 0 (min bytes size) = slice m 0
    (min bytes size) :=
    slice_congr fun i hi => if_neg (by omega)
  have hzero : slice (clear m (min bytes size) (dataBytes - min bytes size)) (min bytes size) (bytes - size) =
      List.replicate (bytes - size) 0 := by
    rw [← slice_clear m (min bytes size) (bytes - size)]
    refine slice_congr fun i hi => ?_
    rw [clear, clear, if_pos (by omega), if_pos (by omega)]
  refine (congrArg (slice _ 0) hsplit).trans ?_
  rw [slice_add, Nat.zero_add, hkept, hzero, take_slice]

end Bytes

/-! ## What the calls return -/

section Calls

variable {n n' : SfNamespace} {owner h : Nat} {k : SlotId} {d : DescId} {b : Backend}

section

variable (hd : description n owner h = some (k, d)) (ht : (n.node d).type = some .file)

include hd ht

theorem sfNsRead_file {bytes : Nat}
    {out : List UInt8} (hr : sfNsRead b owner h bytes n = (.ok out, n')) :
    out = slice (n.node d).data (n.descriptions d).offset (min bytes ((n.node d).size - (n.descriptions d).offset)) ∧
      n' = n.setOffset d ((n.descriptions d).offset + out.length) := by
  unfold sfNsRead at hr
  rw [withDescription_eq hd] at hr
  dsimp only at hr
  split at hr
  · cases hr
  rw [ht] at hr
  dsimp only at hr
  split at hr
  · rename_i hend
    have hzero : min bytes ((n.node d).size - (n.descriptions d).offset) = 0 := by omega
    cases hr
    rw [hzero]
    exact ⟨rfl, setOffset_self.symm⟩
  · cases hr
    exact ⟨rfl, by rw [length_slice]⟩

theorem sfNsPread_file {bytes offset : Nat}
    {out : List UInt8} (hr : (sfNsPread b owner h bytes offset n).1 = .ok out) :
    out = slice (n.node d).data offset (min bytes ((n.node d).size - offset)) := by
  unfold sfNsPread at hr
  rw [withDescription_eq hd] at hr
  dsimp only at hr
  split at hr
  · cases hr
  rw [ht] at hr
  dsimp only at hr
  split at hr
  · rename_i hend
    have hzero : min bytes ((n.node d).size - offset) = 0 := by omega
    cases hr
    rw [hzero]
    rfl
  · cases hr
    rfl

/-- A write to a file that succeeds. -/
theorem sfNsWrite_file
    {data kept : List UInt8} (hkept : kept = data.take (dataBytes - (n.descriptions d).offset)) {count : Nat}
    (hr : sfNsWrite b owner h data n = (.ok count, n')) : data = [] ∧ count = 0 ∧ n' = n ∨ kept ≠ [] ∧ count = kept.length ∧
      n' = moved n d ((n.descriptions d).offset + kept.length)
        (max (n.node d).size ((n.descriptions d).offset + kept.length))
        (n.node d).head (blit (if (n.node d).size < (n.descriptions d).offset
          then clear (n.node d).data (n.node d).size ((n.descriptions d).offset - (n.node d).size) else (n.node d).data)
          (n.descriptions d).offset kept) := by
  have hlength : kept.length = min data.length (dataBytes - (n.descriptions d).offset) := by
    rw [hkept, List.length_take, Nat.min_comm]
  have htake : data.take kept.length = kept := by
    rw [hlength, hkept, Nat.min_comm, ← List.take_take, List.take_length]
  unfold sfNsWrite at hr
  rw [withDescription_eq hd] at hr
  dsimp only at hr
  split at hr
  · cases hr
  split at hr
  · cases hr
  rw [ht, if_neg (by decide)] at hr
  split at hr
  · rename_i hnil
    cases hr
    exact .inl ⟨hnil, rfl, rfl⟩
  rw [if_neg (by decide), if_neg (by decide)] at hr
  split at hr
  · cases hr
  rw [if_neg (by decide)] at hr
  unfold writeFile at hr
  dsimp only at hr
  rw [← hlength, htake] at hr
  split at hr
  · cases hr
  rename_i hsome
  cases hr
  exact .inr ⟨fun hnil => hsome (by rw [hnil]; rfl), rfl, rfl⟩

theorem sfNsSeek_file {offset v : Nat}
    (hr : sfNsSeek owner h offset n = (.ok v, n')) : v = offset ∧ offset ≤ dataBytes ∧ n' = n.setOffset d offset := by
  unfold sfNsSeek at hr
  rw [withDescription_eq hd] at hr
  dsimp only at hr
  have hlimit : seekLimit (n.node d) = dataBytes := if_neg (by rw [ht]; decide)
  rw [hlimit, ht, if_neg (by decide)] at hr
  split at hr
  · cases hr
  rename_i hle
  cases hr
  exact ⟨rfl, Nat.not_lt.1 (not_or.1 hle).2, rfl⟩

theorem sfNsTruncate_file {bytes : Nat}
    (hr : sfNsTruncate b owner h bytes n = (.ok (), n')) : bytes ≤ dataBytes ∧
      n' = n.setContent (n.descriptions d).node bytes (n.node d).head
        (clear (n.node d).data (min bytes (n.node d).size) (dataBytes - min bytes (n.node d).size)) := by
  unfold sfNsTruncate at hr
  rw [withDescription_eq hd] at hr
  dsimp only at hr
  split at hr
  · cases hr
  split at hr
  · cases hr
  rw [ht, if_neg (by decide)] at hr
  split at hr
  · cases hr
  rw [if_neg (by decide)] at hr
  split at hr
  · cases hr
  rename_i hle
  cases hr
  exact ⟨Nat.not_lt.1 hle, rfl⟩

end

end Calls

/-! ## Simulation -/

/-- The acts are a run of `f` that ends with the file that node `i` then stands for. -/
def Continues (f : OpenFile) (i : NodeId) (acts : List Act) (n : SfNamespace) : Prop := ∃ g, f.Run acts g ∧ Shows n i g

section Simulation

variable {n n' : SfNamespace} {i : NodeId} {f : OpenFile} {owner h : Nat} {k : SlotId} {d : DescId} {b : Backend}

theorem Continues.nothing (hf : Shows n i f) : Continues f i [] n := ⟨f, .nil, hf⟩

theorem Continues.trans {g : OpenFile} {acts acts' : List Act} (h : f.Run acts g) (h' : Continues g i acts' n) :
    Continues f i (acts ++ acts') n := by
  obtain ⟨g', hrun, hshows⟩ := h'
  exact ⟨g', h.append hrun, hshows⟩

theorem Shows.handle_none (hf : Shows n i f) {x : Handle} (hx : ∀ c, ¬Holds n i x c) : f.handle x = none := by
  cases hc : f.handle x with
  | none => rfl
  | some c => exact absurd ((hf.handle x c).1 hc) (hx c)

/-- Nothing that the file depends on has changed. -/
theorem Shows.kept (hf : Shows n i f)
    (hnode : (n'.nodes i).size = (n.nodes i).size ∧ (n'.nodes i).data = (n.nodes i).data)
    (hholds : ∀ x c, Holds n' i x c ↔ Holds n i x c)
    (hoffset : ∀ x c, Holds n i x c → (n'.descriptions c).offset = (n.descriptions c).offset) : Shows n' i f := by
  refine ⟨?_, fun x c => ?_, fun x c hx => ?_⟩
  · rw [hnode.1, hnode.2]
    exact hf.content
  · rw [hholds]
    exact hf.handle x c
  rw [hholds] at hx
  rw [hoffset x c hx]
  exact hf.cursor x c hx

theorem holds_moved {offset size head : Nat} {data : Mem} {x : Handle} {c : DescId} :
    Holds (moved n d offset size head data) i x c ↔ Holds n i x c :=
  holds_congr moved_handles fun _ c _ => (moved_description_rest c).1

/-- A call on another node. -/
theorem Shows.elsewhere (hf : Shows n i f) (hne : (n.descriptions d).node ≠ i) {offset size head : Nat} {data : Mem} :
    Shows (moved n d offset size head data) i f := by
  refine hf.kept ?_ (fun _ _ => holds_moved) ?_
  · rw [moved_node_of_ne hne.symm]
    exact ⟨rfl, rfl⟩
  rintro x c ⟨k, -, hnode⟩
  rw [moved_description_of_ne]
  rintro rfl
  exact hne hnode

/-- A call on this node. -/
theorem Shows.own (hf : Shows n i f) (hd : (n.descriptions d).node = i) (offset size head : Nat) (data : Mem) :
    Shows (moved n d offset size head data) i ⟨⟨slice data 0 size, Function.update f.cursor d offset⟩, f.handle⟩ := by
  refine ⟨?_, fun x c => ?_, fun x c hx => ?_⟩
  · rw [← hd, moved_node]
  · rw [holds_moved]
    exact hf.handle x c
  rw [holds_moved] at hx
  dsimp only
  by_cases hcd : c = d
  · rw [hcd, Function.update_self, moved_description]
  · rw [Function.update_of_ne hcd, moved_description_of_ne hcd]
    exact hf.cursor x c hx

theorem Shows.own_offset (hf : Shows n i f) (hd : (n.descriptions d).node = i) (offset : Nat) :
    Shows (n.setOffset d offset) i ⟨f.moveTo d offset, f.handle⟩ := by
  have hshows := hf.own hd offset (n.node d).size (n.node d).head (n.node d).data
  rw [← setOffset_eq_moved, SfNamespace.node, hd, ← hf.content] at hshows
  exact hshows

theorem Shows.held (hf : Shows n i f) (hdesc : description n owner h = some (k, d)) (hd : (n.descriptions d).node = i) :
    f.handle (owner, h) = some d ∧ f.cursor d = (n.descriptions d).offset := by
  have hholds : Holds n i (owner, h) d := ⟨k, hdesc, hd⟩
  exact ⟨(hf.handle _ _).2 hholds, hf.cursor _ _ hholds⟩

theorem isOn_eq (hdesc : description n owner h = some (k, d)) : isOn n i owner h = decide ((n.descriptions d).node = i) := by
  rw [isOn, hdesc]
  rfl

/-- A call on a handle, where only what it does on this node is left to show. -/
theorem continues_call {α : Type} {r : Except Int α × SfNamespace} (hf : Shows n i f)
    (hdesc : description n owner h = some (k, d)) (ho : Outcome n d r) (act : α → Act)
    (hown : (n.descriptions d).node = i → ∀ v n', r = (.ok v, n') → ∃ g, f.Step (act v) g ∧ Shows n' i g) :
    Continues f i (actOf (isOn n i owner h) r.1 act) r.2 := by
  rw [isOn_eq hdesc]
  cases ho with
  | failed e => exact .nothing hf
  | done v fits =>
    dsimp only [actOf]
    by_cases hd : (n.descriptions d).node = i
    · obtain ⟨g, hstep, hshows⟩ := hown hd v _ rfl
      rw [if_pos (decide_eq_true hd)]
      exact ⟨g, .single hstep, hshows⟩
    · rw [if_neg (by simpa using hd)]
      exact .nothing (hf.elsewhere hd)

/-- A call on a handle that is stale. -/
theorem continues_stale {α : Type} {g : SlotId → DescId → SfNamespace → Except Int α × SfNamespace} (hf : Shows n i f)
    (hdesc : description n owner h = none) (on : Bool) (act : α → Act) :
    Continues f i (actOf on (withDescription owner h g n).1 act) (withDescription owner h g n).2 := by
  unfold withDescription
  rw [hdesc]
  exact .nothing hf

variable (hi : (n.nodes i).type = some .file) (hf : Shows n i f)

include hi hf

theorem continues_read (bytes : Nat) :
    Continues f i (actOf (isOn n i owner h) (sfNsRead b owner h bytes n).1 (.read (owner, h) bytes))
      (sfNsRead b owner h bytes n).2 := by
  cases hdesc : description n owner h with
  | none => exact continues_stale hf hdesc _ _
  | some kd =>
    obtain ⟨k, d⟩ := kd
    refine continues_call hf hdesc (sfNsRead_outcome hdesc b bytes) _ ?_
    intro hd out n' hr
    obtain ⟨hheld, hcursor⟩ := hf.held hdesc hd
    obtain ⟨hout, rfl⟩ := sfNsRead_file hdesc (by rw [SfNamespace.node, hd]; exact hi) hr
    have hread : (f.read d bytes).1 = out := by
      rw [hout, SfNamespace.node, hd, ← hcursor, ← bytesAt_slice, ← hf.content]
      rfl
    have hfile : (f.read d bytes).2 = f.moveTo d ((n.descriptions d).offset + out.length) := by
      rw [← hread, ← hcursor]
      rfl
    refine ⟨⟨(f.read d bytes).2, f.handle⟩, ?_, ?_⟩
    · rw [← hread]
      exact .read hheld
    · rw [hfile]
      exact hf.own_offset hd _

theorem continues_pread (bytes offset : Nat) :
    Continues f i (actOf (isOn n i owner h) (sfNsPread b owner h bytes offset n).1 (.pread (owner, h) bytes offset))
      (sfNsPread b owner h bytes offset n).2 := by
  rw [sfNsPread_looks]
  cases hdesc : description n owner h with
  | none =>
    unfold sfNsPread withDescription
    rw [hdesc]
    exact .nothing hf
  | some kd =>
    obtain ⟨k, d⟩ := kd
    cases hr : (sfNsPread b owner h bytes offset n).1 with
    | error e => exact .nothing hf
    | ok out =>
      dsimp only [actOf]
      rw [isOn_eq hdesc]
      by_cases hd : (n.descriptions d).node = i
      · rw [if_pos (decide_eq_true hd)]
        have hout := sfNsPread_file hdesc (by rw [SfNamespace.node, hd]; exact hi) hr
        rw [SfNamespace.node, hd, ← bytesAt_slice, ← hf.content] at hout
        exact ⟨f, .single (hout ▸ .pread (hf.held hdesc hd).1), hf⟩
      · rw [if_neg (by simpa using hd)]
        exact .nothing hf

theorem continues_write (data : List UInt8) :
    Continues f i (actOf (isOn n i owner h) (sfNsWrite b owner h data n).1 (.wrote (owner, h) data))
      (sfNsWrite b owner h data n).2 := by
  cases hdesc : description n owner h with
  | none => exact continues_stale hf hdesc _ _
  | some kd =>
    obtain ⟨k, d⟩ := kd
    refine continues_call hf hdesc (sfNsWrite_outcome hdesc b data) _ ?_
    intro hd count n' hr
    obtain ⟨hheld, hcursor⟩ := hf.held hdesc hd
    rcases sfNsWrite_file hdesc (by rw [SfNamespace.node, hd]; exact hi) rfl hr with ⟨rfl, rfl, rfl⟩ | ⟨hsome, rfl, rfl⟩
    · exact ⟨f, .wroteNothing hheld, hf⟩
    refine ⟨_, .wrote hheld (by rw [hcursor]) hsome, ?_⟩
    have hshows := hf.own hd ((n.descriptions d).offset + (data.take (dataBytes - (n.descriptions d).offset)).length)
      (max (n.node d).size ((n.descriptions d).offset + (data.take (dataBytes - (n.descriptions d).offset)).length))
      (n.node d).head (blit (if (n.node d).size < (n.descriptions d).offset
        then clear (n.node d).data (n.node d).size ((n.descriptions d).offset - (n.node d).size) else (n.node d).data)
        (n.descriptions d).offset (data.take (dataBytes - (n.descriptions d).offset)))
    rw [slice_written, SfNamespace.node, hd, ← hf.content] at hshows
    rw [hcursor, SfNamespace.node, hd]
    exact hshows

theorem continues_seek (offset : Nat) :
    Continues f i (actOf (isOn n i owner h) (sfNsSeek owner h offset n).1 (.sought (owner, h)))
      (sfNsSeek owner h offset n).2 := by
  cases hdesc : description n owner h with
  | none => exact continues_stale hf hdesc _ _
  | some kd =>
    obtain ⟨k, d⟩ := kd
    refine continues_call hf hdesc (sfNsSeek_outcome hdesc offset) _ ?_
    intro hd v n' hr
    obtain ⟨rfl, hle, rfl⟩ := sfNsSeek_file hdesc (by rw [SfNamespace.node, hd]; exact hi) hr
    exact ⟨_, .sought (hf.held hdesc hd).1 hle, hf.own_offset hd _⟩

theorem continues_truncate (bytes : Nat) :
    Continues f i (actOf (isOn n i owner h) (sfNsTruncate b owner h bytes n).1 fun _ => .truncated (owner, h) bytes)
      (sfNsTruncate b owner h bytes n).2 := by
  cases hdesc : description n owner h with
  | none => exact continues_stale hf hdesc _ _
  | some kd =>
    obtain ⟨k, d⟩ := kd
    refine continues_call hf hdesc (sfNsTruncate_outcome hdesc b bytes) _ ?_
    intro hd v n' hr
    obtain ⟨hheld, hcursor⟩ := hf.held hdesc hd
    obtain ⟨hle, rfl⟩ := sfNsTruncate_file hdesc (by rw [SfNamespace.node, hd]; exact hi) hr
    refine ⟨_, .truncated hheld hle, ?_⟩
    have hshows := hf.own hd (n.descriptions d).offset bytes (n.node d).head
      (clear (n.node d).data (min bytes (n.node d).size) (dataBytes - min bytes (n.node d).size))
    rw [slice_truncated hle, ← hcursor, Function.update_eq_self, SfNamespace.node, hd, ← hf.content] at hshows
    rw [setContent_eq_moved, ← hcursor, hf.content, length_slice, SfNamespace.node, hd]
    rw [hf.content] at hshows
    exact hshows

omit hi hf

/-- A handle on this node comes. -/
theorem Shows.entered (hf : Shows n i f) (he : Entered owner k d n n') (hd : (n'.descriptions d).node = i)
    {cursor : DescId → Nat}
    (hself : cursor d = (n'.descriptions d).offset) (hother : ∀ x c, Holds n i x c → cursor c = f.cursor c) :
    Shows n' i ⟨⟨f.content, cursor⟩, Function.update f.handle (newHandle owner n k) (some d)⟩ := by
  obtain ⟨w, hw⟩ := he.nodes i
  refine ⟨?_, fun x c => ?_, fun x c hx => ?_⟩
  · rw [hw]
    exact hf.content
  · rw [he.holds]
    by_cases hx : x = newHandle owner n k
    · rw [hx]
      dsimp only
      rw [Function.update_self]
      constructor
      · intro hc
        exact .inl ⟨rfl, (Option.some.inj hc).symm, hd⟩
      rintro (⟨-, rfl, -⟩ | hold)
      · rfl
      · exact absurd hold (he.unused c)
    · dsimp only
      rw [Function.update_of_ne hx, hf.handle]
      exact ⟨.inr, fun h => h.resolve_left fun hl => hx hl.1⟩
  · rcases he.holds.1 hx with ⟨-, rfl, -⟩ | hold
    · exact hself
    · obtain ⟨k', hdesc, -⟩ := id hold
      refine (hother x c hold).trans ?_
      rw [(he.descriptions (description_some hdesc).1).2]
      exact hf.cursor x c hold

/-- A handle on another node comes. -/
theorem Shows.entered_elsewhere (hf : Shows n i f) (he : Entered owner k d n n') (hd : (n'.descriptions d).node ≠ i) :
    Shows n' i f := by
  obtain ⟨w, hw⟩ := he.nodes i
  refine hf.kept (by rw [hw]; exact ⟨rfl, rfl⟩)
    (fun x c => he.holds.trans (or_iff_right fun hl => hd hl.2.2)) fun x c hx => ?_
  obtain ⟨k', hdesc, -⟩ := hx
  exact (he.descriptions (description_some hdesc).1).2

theorem continues_opening (hn : Good n) (hf : Shows n i f) {mode : Nat} {path : Path} {r : Except Int Nat × SfNamespace}
    (ho : Opening owner mode path n r) : Continues f i (openedOn i owner r) r.2 := by
  cases ho with
  | refused e => exact .nothing hf
  | @turnedAway j d unused =>
    have hother : ∀ k c, (n.handles k).description = some c → (prepare mode j d n).descriptions c = n.descriptions c := by
      intro k c hk
      rw [prepare_description, if_neg]
      rintro rfl
      exact unused (hn.counted.pos hk)
    refine .nothing (hf.kept ⟨rfl, rfl⟩ (fun x c => ?_) fun x c hx => ?_)
    · exact holds_congr rfl fun k c hk => congrArg SfDescription.node (hother k c hk)
    · obtain ⟨k, hdesc, -⟩ := hx
      exact congrArg SfDescription.offset (hother k c (description_some hdesc).1)
  | @entered j d k found unused valid free room =>
    obtain ⟨he, hnode, hoffset⟩ := entered_open hn owner mode j unused free
    dsimp only [openedOn]
    rw [he.isOn]
    by_cases hd : ((adjustWriters (· + 1) mode j (attach owner d k (prepare mode j d n))).descriptions d).node = i
    · rw [if_pos (decide_eq_true hd)]
      have hfresh : ∀ y, f.handle y ≠ some d := fun y hy => unused (((hf.handle y d).1 hy).live hn)
      refine ⟨_, .single (.opened (hf.handle_none he.unused) hfresh), hf.entered he hd ?_ fun x c hx => ?_⟩
      · rw [hoffset]
        exact Function.update_self ..
      refine Function.update_of_ne ?_ _ _
      rintro rfl
      exact unused (hx.live hn)
    · rw [if_neg (by simpa using hd)]
      exact .nothing (hf.entered_elsewhere he hd)

theorem continues_dup (hf : Shows n i f) : Continues f i
    (actOf (isOn n i owner h) (sfNsDup owner h n).1 fun h' => .duped (owner, h) (owner, h')) (sfNsDup owner h n).2 := by
  cases hdesc : description n owner h with
  | none => exact continues_stale hf hdesc _ _
  | some kd =>
    obtain ⟨k₀, d⟩ := kd
    have hdup : sfNsDup owner h n = handleNew owner d n := withDescription_eq hdesc
    rw [hdup, isOn_eq hdesc]
    rcases handleNew_cases owner d n with hfull | ⟨k, free, -, hnew⟩
    · rw [hfull]
      exact .nothing hf
    rw [hnew]
    have he : Entered owner k d n (attach owner d k n) := entered_dup free
    have hsame := he.descriptions (description_some hdesc).1
    dsimp only [actOf]
    by_cases hd : (n.descriptions d).node = i
    · rw [if_pos (decide_eq_true hd)]
      obtain ⟨hheld, hcursor⟩ := hf.held hdesc hd
      refine ⟨_, .single (.duped hheld (hf.handle_none he.unused)), hf.entered he (hsame.1.trans hd) ?_ fun _ _ _ => rfl⟩
      rw [hsame.2]
      exact hcursor
    · rw [if_neg (by simpa using hd)]
      exact .nothing (hf.entered_elsewhere he (by rw [hsame.1]; exact hd))

theorem continues_detach (hn : Good n) (hf : Shows n i f) (hdesc : description n owner h = some (k, d)) :
    Continues f i (if isOn n i owner h then [.closed (owner, h)] else []) (detach k d n) := by
  have hlive : Live n d := hn.counted.pos (description_some hdesc).1
  have hnode : ((detach k d n).nodes i).size = (n.nodes i).size ∧ ((detach k d n).nodes i).data = (n.nodes i).data := by
    change ((release d n).nodes i).size = _ ∧ ((release d n).nodes i).data = _
    rw [hn.toTables.release_node hlive]
    exact ⟨rfl, rfl⟩
  have hoffset : ∀ c, ((detach k d n).descriptions c).offset = (n.descriptions c).offset := by
    intro c
    by_cases hcd : c = d
    · change ((release d n).descriptions c).offset = _
      rw [(release_rest d n).1, hcd, hn.toTables.dropRef_description hlive]
    · rw [detach_description_of_ne hcd]
  rw [isOn_eq hdesc]
  by_cases hd : (n.descriptions d).node = i
  · rw [if_pos (decide_eq_true hd)]
    refine ⟨_, .single (.closed (hf.held hdesc hd).1), ?_, fun x c => ?_, fun x c hx => ?_⟩
    · rw [hnode.1, hnode.2]
      exact hf.content
    · rw [holds_detach hdesc]
      by_cases hx : x = (owner, h)
      · rw [hx]
        dsimp only
        rw [Function.update_self]
        exact iff_of_false nofun fun hr => hr.1 rfl
      · dsimp only
        rw [Function.update_of_ne hx, hf.handle]
        exact (and_iff_right hx).symm
    · rw [holds_detach hdesc] at hx
      rw [hoffset]
      exact hf.cursor x c hx.2
  · rw [if_neg (by simpa using hd)]
    refine .nothing (hf.kept hnode (fun x c => ?_) fun x c _ => hoffset c)
    rw [holds_detach hdesc]
    refine and_iff_right_of_imp ?_
    rintro ⟨k', hdesc', hnode'⟩ rfl
    rw [hdesc] at hdesc'
    cases hdesc'
    exact hd hnode'

theorem continues_close (hn : Good n) (hf : Shows n i f) :
    Continues f i (actOf (isOn n i owner h) (sfNsClose owner h n).1 fun _ => .closed (owner, h))
      (sfNsClose owner h n).2 := by
  cases hdesc : description n owner h with
  | none => exact continues_stale hf hdesc _ _
  | some kd =>
    rw [sfNsClose_some (k := kd.1) (d := kd.2) hdesc]
    exact continues_detach hn hf hdesc

theorem continues_reapSlot (hn : Good n) (hf : Shows n i f) (owner : Nat) (k : SlotId) :
    Continues f i (reapedOn i owner n k) (reapSlot owner n k) := by
  unfold reapedOn
  rcases reapSlot_cases owner n k with ⟨d, hd, howner, heq⟩ | ⟨hempty, heq⟩
  · have hdesc : description n owner (fileHandle (n.handles k).generation k) = some (k, d) :=
      description_iff.2 ⟨hd, howner, rfl⟩
    have hdetach := continues_detach hn hf hdesc
    rw [heq]
    by_cases hon : isOn n i owner (fileHandle (n.handles k).generation k) = true
    · rw [if_pos hon] at hdetach
      rw [if_pos ⟨by rw [hd]; rfl, howner, hon⟩]
      exact hdetach
    · rw [if_neg hon] at hdetach
      rw [if_neg fun hall => hon hall.2.2]
      exact hdetach
  · rw [heq, if_neg]
    · exact .nothing hf
    · rintro ⟨hsome, howner, -⟩
      rw [hempty howner] at hsome
      cases hsome

/-- The end of a process, slot by slot. -/
theorem continues_reap (owner : Nat) (ks : List SlotId) : ∀ {n : SfNamespace} {f : OpenFile}, Good n → Shows n i f →
    Continues f i (reapedFrom i owner n ks) (ks.foldl (reapSlot owner) n) := by
  induction ks with
  | nil => exact fun _ hf => .nothing hf
  | cons k ks ih =>
    intro n f hn hf
    obtain ⟨g, hrun, hg⟩ := continues_reapSlot hn hf owner k
    have hgood : Good (reapSlot owner n k) := by
      rcases reapSlot_cases owner n k with ⟨d, hd, howner, heq⟩ | ⟨-, heq⟩
      · rw [heq]
        exact Effect.good hn (.close hd howner)
      · rw [heq]
        exact hn
    exact Continues.trans hrun (ih hgood hg)

/-- A change of the tree that leaves the node alone. -/
theorem Shows.apart (hf : Shows n i f) (hh : n'.handles = n.handles) (hd : n'.descriptions = n.descriptions)
    (hi : n'.nodes i = n.nodes i) : Shows n' i f :=
  hf.kept (by rw [hi]; exact ⟨rfl, rfl⟩) (fun _ _ => holds_congr hh fun _ _ _ => by rw [hd]) fun _ _ _ => by rw [hd]

/-- **The step lemma**: a call is a run of the file. -/
theorem continues_run (hn : Good n) (hi : (n.nodes i).type = some .file) (hf : Shows n i f) (b : Backend) (c : FileCall)
    (stays : ((c.run b n).nodes i).type = some .file) : Continues f i (observe i b n c) (c.run b n) := by
  have hstays : ((c.run b n).nodes i).type ≠ none := by
    rw [stays]
    exact nofun
  cases c with
  | pread owner h bytes offset => exact continues_pread hi hf bytes offset
  | request r =>
    cases r with
    | nsCreate p type ro =>
      obtain ⟨hh, hd, hnode⟩ := sfNsCreate_apart (n := n) (i := i) (by rw [hi]; exact nofun) p type ro
      exact .nothing (hf.apart hh hd hnode)
    | nsOpen owner base path mode => exact continues_opening hn hf (sfNsOpen_opening b owner base path mode n)
    | nsOpenat owner directory relative mode =>
      rcases sfNsOpenat_opening b owner directory relative mode n with ⟨e, hsame⟩ | ⟨k, d, path, -, -, -, -, hopening⟩
      · dsimp only [observe, FileCall.run, Request.run]
        rw [hsame]
        exact .nothing hf
      · exact continues_opening hn hf hopening
    | nsDup owner h => exact continues_dup hf
    | nsClose owner h => exact continues_close hn hf
    | nsRead owner h bytes => exact continues_read hi hf bytes
    | nsWrite owner h data => exact continues_write hi hf data
    | nsSeek owner h offset => exact continues_seek hi hf offset
    | nsTruncate owner h bytes => exact continues_truncate hi hf bytes
    | nsUnlink owner directory relative =>
      obtain ⟨hh, hd, hnode⟩ := removeNode_apart owner directory relative .file hstays
      exact .nothing (hf.apart hh hd hnode)
    | nsRmdir owner directory relative =>
      obtain ⟨hh, hd, hnode⟩ := removeNode_apart owner directory relative .dir hstays
      exact .nothing (hf.apart hh hd hnode)
    | nsReap owner => exact continues_reap owner (List.finRange 64) hn hf
    | nsUnmount tag =>
      obtain ⟨hh, hd, hnode⟩ := sfNsUnmount_apart hn.toSound (.inl hi) tag
      exact .nothing (hf.apart hh hd hnode)

end Simulation

/-! ## Whole runs -/

/-- **The run lemma.** -/
theorem NodeRun.continues {i : NodeId} {s s' : Service} {acts : List Act} (hs : Reachable s)
    (hi : (s.ns.nodes i).type = some .file) (h : NodeRun i .file s acts s') : Continues (openFile s.ns i) i acts s'.ns := by
  induction h with
  | start => exact .nothing (shows_openFile s.ns i)
  | call h b c stays ih =>
    obtain ⟨hreach, htype⟩ := h.reachable hs hi
    obtain ⟨g, hrun, hg⟩ := ih
    exact Continues.trans hrun (continues_run (reachable_fit hreach).good htype hg b c stays)
  | other h step handles descriptions node ih =>
    obtain ⟨g, hrun, hg⟩ := ih
    exact ⟨g, hrun, hg.apart handles descriptions node⟩

/-- A `pread` returns what a read at a cursor of its own would, and changes nothing. -/
theorem sfNsPread_private {n : SfNamespace} {owner h : Nat} {k : SlotId} {d : DescId}
    (hdesc : description n owner h = some (k, d)) (ht : (n.node d).type = some .file) (b : Backend) {bytes offset : Nat}
    (hle : offset ≤ dataBytes) :
    sfNsPread b owner h bytes offset n = ((sfNsRead b owner h bytes (sfNsSeek owner h offset n).2).1, n) := by
  have hseek : (sfNsSeek owner h offset n).2 = n.setOffset d offset := by
    have hlimit : seekLimit (n.node d) = dataBytes := if_neg (by rw [ht]; decide)
    unfold sfNsSeek
    rw [withDescription_eq hdesc]
    dsimp only
    rw [hlimit, ht, if_neg (by decide), if_neg (by simp [hle])]
  have hself : (n.setOffset d offset).descriptions d = { n.descriptions d with offset := offset } := Function.update_self ..
  have hnode : (n.setOffset d offset).node d = n.node d := by
    rw [SfNamespace.node, hself]
    rfl
  have hdesc' : description (n.setOffset d offset) owner h = some (k, d) := hdesc
  rw [hseek]
  unfold sfNsPread sfNsRead
  rw [withDescription_eq hdesc, withDescription_eq hdesc']
  dsimp only
  rw [hself, hnode, ht]
  refine Prod.ext ?_ rfl
  dsimp only
  split
  · rfl
  split
  · rfl
  · rfl

/-- **RAM files are plain files.** In every run from every state that can be reached, the calls that succeed on a
RAM file are steps of the file that it stood for at the start, and it then stands for the file at the end of these
steps. A `pread` is a read at a cursor of its own, and changes nothing. -/
theorem ram_file_refines {i : NodeId} {s s' : Service} {acts : List Act} (hs : Reachable s)
    (hi : (s.ns.nodes i).type = some .file) (hrun : NodeRun i .file s acts s') :
    (∃ g, (openFile s.ns i).Run acts g ∧ Shows s'.ns i g ∧ g.content.length ≤ dataBytes) ∧
    (∀ b owner h d bytes offset, Holds s'.ns i (owner, h) d → offset ≤ dataBytes →
      sfNsPread b owner h bytes offset s'.ns =
        ((sfNsRead b owner h bytes (sfNsSeek owner h offset s'.ns).2).1, s'.ns)) ∧
    ∀ b owner h bytes offset, (sfNsPread b owner h bytes offset s'.ns).2 = s'.ns := by
  obtain ⟨hreach, htype⟩ := hrun.reachable hs hi
  refine ⟨?_, ?_, fun b owner h bytes offset => sfNsPread_looks b owner h bytes offset s'.ns⟩
  · obtain ⟨g, hg, hshows⟩ := hrun.continues hs hi
    refine ⟨g, hg, hshows, ?_⟩
    rw [hshows.content, length_slice]
    exact ((reachable_bounded hreach).fits (.inl htype)).1
  · rintro b owner h d bytes offset ⟨k, hdesc, hnode⟩ hle
    refine sfNsPread_private hdesc ?_ b hle
    rw [SfNamespace.node, hnode]
    exact htype

/-- A file in the root, open for reading and writing. -/
def fileService : Service :=
  ⟨(Request.nsOpen 1 rootPath [47, 102] 3).run bareBackend
    ((Request.nsCreate [47, 102] 2 false).run bareBackend sfNsInit), false⟩

theorem fileService_reachable : Reachable fileService := by
  have hfile : Reachable ⟨(Request.nsCreate [47, 102] 2 false).run bareBackend sfNsInit, false⟩ :=
    Relation.ReflTransGen.refl.tail (.request bareBackend (.nsCreate [47, 102] 2 false))
  exact hfile.tail (.request bareBackend (.nsOpen 1 rootPath [47, 102] 3))

/-- Two bytes behind the start are written, and then the file is read from the start. -/
theorem ram_file_refines_sample : ∃ acts s', NodeRun 1 .file fileService acts s' ∧ acts.length = 4 ∧
    ∃ g, (openFile fileService.ns 1).Run acts g ∧ Shows s'.ns 1 g ∧ g.content.length ≤ dataBytes := by
  have hstart : NodeRun 1 .file fileService [] fileService := .start
  have hseek := hstart.call bareBackend (.request (.nsSeek 1 257 3)) (by decide +kernel)
  have hwrite := hseek.call bareBackend (.request (.nsWrite 1 257 [104, 105])) (by decide +kernel)
  have hback := hwrite.call bareBackend (.request (.nsSeek 1 257 0)) (by decide +kernel)
  have hread := hback.call bareBackend (.request (.nsRead 1 257 16)) (by decide +kernel)
  exact ⟨_, _, hread, by decide +kernel, (ram_file_refines fileService_reachable (by decide +kernel) hread).1⟩

end SpiritFox.Ns
