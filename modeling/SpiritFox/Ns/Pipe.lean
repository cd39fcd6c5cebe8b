import SpiritFox.Lib.Ring
import SpiritFox.Ns.Acts

/-!
# Pipes

A pipe is a queue of bytes in a ring of `dataBytes` cells (`queue`). Along every run nothing is lost, repeated or
put out of order: what was in the queue and what writes were accepted is what reads returned and what is in the
queue (`Conserves`). The main result `pipe_lossless` adds when reads and writes have to wait.
-/

namespace SpiritFox.Ns

open ByteMem Tally List

variable {i : NodeId}

/-! ## The ring -/

instance : NeZero dataBytes := ⟨by decide⟩

/-- The cells of the ring. -/
def cells (data : Mem) : Fin dataBytes → UInt8 := fun i => data i

theorem ringRead_eq (data : Mem) (head count : Nat) : ringRead data head count = Ring.contents (cells data) head count := rfl

theorem cells_update (data : Mem) (j : Nat) (b : UInt8) :
    cells (Function.update data (j % dataBytes) b) = Function.update (cells data) (Ring.cell j) b := by
  funext i
  unfold cells
  by_cases hi : i = Ring.cell j
  · rw [hi, Function.update_self]
    exact Function.update_self ..
  · rw [Function.update_of_ne hi, Function.update_of_ne]
    exact fun h => hi (Fin.ext h)

/-- The bytes that are written come after those that are there. -/
theorem contents_ringWrite (data : Mem) (head count : Nat) (bs : List UInt8) (h : count + bs.length ≤ dataBytes) :
    Ring.contents (cells (ringWrite data (head + count) bs)) head (count + bs.length) =
      Ring.contents (cells data) head count ++ bs := by
  induction bs using reverseRecOn with
  | nil => simp [ringWrite]
  | append_singleton bs b ih =>
    rw [length_append, length_singleton] at h ⊢
    have hlast : ringWrite data (head + count) (bs ++ [b]) =
        Function.update (ringWrite data (head + count) bs) ((head + (count + bs.length)) % dataBytes) b := by
      simp [ringWrite, zipIdx_append, Nat.add_assoc]
    rw [hlast, cells_update, ← Nat.add_assoc count, Ring.contents_push (by omega), ih (by omega), append_assoc]

/-- The bytes in the pipe, in the order in which they will be read. -/
def queue (n : SfNamespace) (i : NodeId) : List UInt8 := ringRead (n.nodes i).data (n.nodes i).head (n.nodes i).size

@[simp] theorem length_queue (n : SfNamespace) (i : NodeId) : (queue n i).length = (n.nodes i).size :=
  by simp [queue, ringRead]

theorem queue_eq_nil {n : SfNamespace} : queue n i = [] ↔ (n.nodes i).size = 0 := by
  rw [← length_eq_zero_iff, length_queue]

/-! ## Bytes in and out -/

def Act.out : Act → List UInt8
  | .read _ _ out => out
  | _ => []

def Act.into : Act → List UInt8
  | .wrote _ data count => data.take count
  | _ => []

/-- What the reads have returned. -/
def returned (acts : List Act) : List UInt8 := acts.flatMap Act.out

/-- What the writes have accepted. -/
def accepted (acts : List Act) : List UInt8 := acts.flatMap Act.into

/-- Nothing is lost, repeated or put out of order. -/
def Conserves (i : NodeId) (n : SfNamespace) (acts : List Act) (n' : SfNamespace) : Prop :=
  queue n i ++ accepted acts = returned acts ++ queue n' i

section Conservation

variable {n n' : SfNamespace} {i : NodeId} {acts : List Act} {owner h : Nat} {k : SlotId} {d : DescId} {b : Backend}
  {α : Type}

theorem Conserves.trans {m : SfNamespace} {acts' : List Act} (h : Conserves i n acts m) (h' : Conserves i m acts' n') :
    Conserves i n (acts ++ acts') n' := by
  unfold Conserves accepted returned at *
  rw [flatMap_append, flatMap_append, ← append_assoc, h, append_assoc, h', append_assoc]

/-- Acts that move no bytes, and a node that has the contents it had. -/
theorem Conserves.idle (hacts : ∀ a ∈ acts, a.out = [] ∧ a.into = []) (hsize : (n'.nodes i).size = (n.nodes i).size)
    (hhead : (n'.nodes i).head = (n.nodes i).head) (hdata : (n'.nodes i).data = (n.nodes i).data) :
    Conserves i n acts n' := by
  have hout : returned acts = [] := flatMap_eq_nil_iff.2 fun a ha => (hacts a ha).1
  have hin : accepted acts = [] := flatMap_eq_nil_iff.2 fun a ha => (hacts a ha).2
  unfold Conserves queue
  rw [hout, hin, hsize, hhead, hdata, append_nil, nil_append]

theorem Conserves.same (hi : n'.nodes i = n.nodes i) : Conserves i n [] n' :=
  .idle nofun (by rw [hi]) (by rw [hi]) (by rw [hi])

theorem mem_actOf {on : Bool} {r : Except Int α} {act : α → Act} {a : Act} (ha : a ∈ actOf on r act) :
    ∃ v, a = act v := by
  unfold actOf at ha
  split at ha
  · split at ha
    · exact ⟨_, mem_singleton.1 ha⟩
    · cases ha
  · cases ha

/-! ### Reads and writes -/

theorem sfNsRead_pipe (hd : description n owner h = some (k, d)) (ht : (n.node d).type = some .pipe) (b : Backend)
    (bytes : Nat) :
    sfNsRead b owner h bytes n =
      if (n.descriptions d).mode &&& openRead = 0 then (stop .denied, n)
      else if bytes = 0 then (.ok [], n)
      else if (n.node d).size = 0 then (if (n.node d).writers = 0 then .ok [] else stop .wouldBlock, n)
      else (.ok (ringRead (n.node d).data (n.node d).head (min bytes (n.node d).size)),
        n.setContent (n.descriptions d).node ((n.node d).size - min bytes (n.node d).size)
          (((n.node d).head + min bytes (n.node d).size) % dataBytes) (n.node d).data) := by
  unfold sfNsRead
  rw [withDescription_eq hd]
  dsimp only
  rw [ht]

theorem sfNsWrite_pipe (hd : description n owner h = some (k, d)) (ht : (n.node d).type = some .pipe)
    (hro : (n.node d).readonly = false) (ho : (n.descriptions d).offset ≤ dataBytes)
    (hs : (n.node d).size ≤ dataBytes) (b : Backend) (data : List UInt8) : sfNsWrite b owner h data n =
      if (n.descriptions d).mode &&& openWrite = 0 then (stop .denied, n)
      else if data = [] then (.ok 0, n)
      else if min data.length (dataBytes - (n.node d).size) = 0 then (stop .wouldBlock, n)
      else (.ok (min data.length (dataBytes - (n.node d).size)), n.setContent (n.descriptions d).node
        ((n.node d).size + min data.length (dataBytes - (n.node d).size)) (n.node d).head
        (ringWrite (n.node d).data ((n.node d).head + (n.node d).size)
          (data.take (min data.length (dataBytes - (n.node d).size))))) := by
  unfold sfNsWrite writePipe
  rw [withDescription_eq hd]
  dsimp only
  have hbounds : ¬(dataBytes < (n.descriptions d).offset ∨ dataBytes < (n.node d).size) := by omega
  simp only [ht, hro, hbounds, Option.some.injEq, reduceCtorEq, Bool.false_eq_true, if_false, if_true]

/-- A call on another node leaves this one alone. -/
theorem Conserves.elsewhere {r : Except Int α × SfNamespace} {act : α → Act}
    (hdesc : description n owner h = some (k, d))
    (hne : (n.descriptions d).node ≠ i) (ho : Outcome n d r) : Conserves i n (actOf (isOn n i owner h) r.1 act) r.2 := by
  have hoff : isOn n i owner h = false := by
    rw [isOn, hdesc]
    exact decide_eq_false hne
  rw [hoff]
  cases ho with
  | failed e => exact .same rfl
  | done v fits => exact .same (moved_node_of_ne hne.symm)

theorem Conserves.stale {g : SlotId → DescId → SfNamespace → Except Int α × SfNamespace} {on : Bool}
    {act : α → Act} (hdesc : description n owner h = none) :
    Conserves i n (actOf on (withDescription owner h g n).1 act) (withDescription owner h g n).2 := by
  unfold withDescription
  rw [hdesc]
  exact .same rfl

/-- What a call does to a pipe is decided by its handles on that pipe. -/
theorem Conserves.on {g : SlotId → DescId → SfNamespace → Except Int α × SfNamespace} {act : α → Act}
    (ho : ∀ k d, description n owner h = some (k, d) → Outcome n d (withDescription owner h g n))
    (hpipe : ∀ k d, description n owner h = some (k, d) → (n.descriptions d).node = i →
      Conserves i n (actOf true (withDescription owner h g n).1 act) (withDescription owner h g n).2) :
    Conserves i n (actOf (isOn n i owner h) (withDescription owner h g n).1 act) (withDescription owner h g n).2 := by
  cases hdesc : description n owner h with
  | none => exact .stale hdesc
  | some kd =>
    obtain ⟨k, d⟩ := kd
    by_cases hd : (n.descriptions d).node = i
    · have hon : isOn n i owner h = true := isOn_iff.2 ⟨d, k, hdesc, hd⟩
      rw [hon]
      exact hpipe k d hdesc hd
    · exact .elsewhere hdesc hd (ho k d hdesc)

theorem conserves_read (hi : (n.nodes i).type = some .pipe) (bytes : Nat) :
    Conserves i n (actOf (isOn n i owner h) (sfNsRead b owner h bytes n).1 (.read (owner, h) bytes))
      (sfNsRead b owner h bytes n).2 := by
  refine .on (fun k d hd => sfNsRead_outcome hd b bytes) fun k d hdesc hd => ?_
  subst hd
  change Conserves _ n (actOf true (sfNsRead b owner h bytes n).1 _) (sfNsRead b owner h bytes n).2
  rw [sfNsRead_pipe hdesc hi]
  split
  · exact .same rfl
  split
  · exact .idle (by simp [actOf, Act.out, Act.into]) rfl rfl rfl
  split
  · split
    · exact .idle (by simp [actOf, Act.out, Act.into]) rfl rfl rfl
    · exact .same rfl
  · have hsplit : (n.node d).size = min bytes (n.node d).size + ((n.node d).size - min bytes (n.node d).size) := by omega
    unfold Conserves queue SfNamespace.setContent
    rw [setNode_self]
    simp only [actOf, if_true, accepted, returned, flatMap_cons, flatMap_nil, Act.out, Act.into, append_nil]
    rw [ringRead_eq, ringRead_eq, ringRead_eq, ← Ring.contents_split, ← hsplit]
    rfl

theorem conserves_write (hn : Good n) (hb : Bounded n) (hi : (n.nodes i).type = some .pipe) (data : List UInt8) :
    Conserves i n (actOf (isOn n i owner h) (sfNsWrite b owner h data n).1 (.wrote (owner, h) data))
      (sfNsWrite b owner h data n).2 := by
  refine .on (fun k d hd => sfNsWrite_outcome hd b data) fun k d hdesc hd => ?_
  subst hd
  change Conserves _ n (actOf true (sfNsWrite b owner h data n).1 _) (sfNsWrite b owner h data n).2
  have hlive : Live n d := hn.counted.pos (description_some hdesc).1
  have hfits := hb.fits (i := (n.descriptions d).node) (.inr hi)
  by_cases hmode : (n.descriptions d).mode &&& openWrite = 0
  · have hdenied : sfNsWrite b owner h data n = (stop .denied, n) := by
      unfold sfNsWrite
      rw [withDescription_eq hdesc]
      exact if_pos hmode
    rw [hdenied]
    exact .same rfl
  rw [sfNsWrite_pipe hdesc hi (hb.writable hlive hmode) (hb.cursors hlive (.inr hi)) hfits.1, if_neg hmode]
  split
  · exact .idle (by simp [actOf, Act.out, Act.into]) rfl rfl rfl
  split
  · exact .same rfl
  have hlength : (data.take (min data.length (dataBytes - (n.node d).size))).length =
      min data.length (dataBytes - (n.node d).size) := by simp
  have hsize : (n.node d).size ≤ dataBytes := hfits.1
  have hroom := contents_ringWrite (n.node d).data (n.node d).head (n.node d).size
    (data.take (min data.length (dataBytes - (n.node d).size))) (by rw [hlength]; omega)
  unfold Conserves queue SfNamespace.setContent
  rw [setNode_self]
  simp only [actOf, if_true, accepted, returned, flatMap_cons, flatMap_nil, Act.out, Act.into, append_nil,
    nil_append]
  rw [ringRead_eq, ringRead_eq]
  rw [hlength] at hroom
  exact hroom.symm

/-! ### Everything else -/

theorem Conserves.untouched (hacts : ∀ a ∈ acts, a.out = [] ∧ a.into = []) (hu : Untouched i n n') :
    Conserves i n acts n' := by
  obtain ⟨w, hw⟩ := hu
  exact .idle hacts (by rw [hw]) (by rw [hw]) (by rw [hw])

theorem openedOn_idle (r : Except Int Nat × SfNamespace) : ∀ a ∈ openedOn i owner r, a.out = [] ∧ a.into = [] := by
  intro a ha
  unfold openedOn at ha
  split at ha
  · split at ha
    · rw [mem_singleton.1 ha]
      exact ⟨rfl, rfl⟩
    · cases ha
  · cases ha

theorem reapedFrom_idle (owner : Nat) (ks : List SlotId) :
    ∀ n : SfNamespace, ∀ a ∈ reapedFrom i owner n ks, a.out = [] ∧ a.into = [] := by
  induction ks with
  | nil => exact fun _ => nofun
  | cons k ks ih =>
    intro n a ha
    rcases mem_append.1 ha with ha | ha
    · unfold reapedOn at ha
      split at ha
      · rw [mem_singleton.1 ha]
        exact ⟨rfl, rfl⟩
      · cases ha
    · exact ih _ a ha

/-- A call that cannot succeed on a pipe. -/
theorem Conserves.refused {g : SlotId → DescId → SfNamespace → Except Int α × SfNamespace} {act : α → Act}
    (hi : (n.nodes i).type = some .pipe)
    (ho : ∀ k d, description n owner h = some (k, d) → Outcome n d (withDescription owner h g n))
    (hpipe : ∀ k d, description n owner h = some (k, d) → (n.node d).type = some .pipe →
      ∃ e, withDescription owner h g n = (.error e, n)) :
    Conserves i n (actOf (isOn n i owner h) (withDescription owner h g n).1 act) (withDescription owner h g n).2 := by
  refine .on ho fun k d hdesc hd => ?_
  obtain ⟨e, he⟩ := hpipe k d hdesc (by rw [SfNamespace.node, hd]; exact hi)
  rw [he]
  exact .same rfl

theorem sfNsSeek_pipe (hd : description n owner h = some (k, d)) (ht : (n.node d).type = some .pipe) (offset : Nat) :
    sfNsSeek owner h offset n = (stop .notSeekable, n) := by
  unfold sfNsSeek
  rw [withDescription_eq hd]
  exact if_pos (.inl ht)

theorem sfNsTruncate_pipe (hd : description n owner h = some (k, d)) (ht : (n.node d).type = some .pipe) (b : Backend)
    (bytes : Nat) : ∃ e, sfNsTruncate b owner h bytes n = (.error e, n) := by
  unfold sfNsTruncate
  rw [withDescription_eq hd]
  dsimp only
  split
  · exact ⟨_, rfl⟩
  split
  · exact ⟨_, rfl⟩
  · rw [ht, if_pos (by decide)]
    exact ⟨_, rfl⟩

/-- **The step lemma**: no call loses bytes of a pipe. -/
theorem conserves_run (hn : Good n) (hb : Bounded n) (hi : (n.nodes i).type = some .pipe) (b : Backend) (c : FileCall)
    (stays : ((c.run b n).nodes i).type = some .pipe) : Conserves i n (observe i b n c) (c.run b n) := by
  have hstays : ((c.run b n).nodes i).type ≠ none := by
    rw [stays]
    exact nofun
  cases c with
  | pread owner h bytes offset =>
    rw [FileCall.run_pread]
    refine .untouched (fun a ha => ?_) (.of_eq rfl)
    obtain ⟨v, rfl⟩ := mem_actOf ha
    exact ⟨rfl, rfl⟩
  | request r =>
    cases r with
    | nsCreate p type ro =>
      obtain ⟨-, -, hnode⟩ := sfNsCreate_apart (n := n) (i := i) (by rw [hi]; exact nofun) p type ro
      exact .same hnode
    | nsOpen owner base path mode =>
      exact .untouched (openedOn_idle _) (untouched_opening (sfNsOpen_opening b owner base path mode n))
    | nsOpenat owner directory relative mode =>
      exact .untouched (openedOn_idle _) (untouched_openat b owner directory relative mode)
    | nsDup owner h =>
      refine .untouched (fun a ha => ?_) (untouched_dup owner h)
      obtain ⟨v, rfl⟩ := mem_actOf ha
      exact ⟨rfl, rfl⟩
    | nsClose owner h =>
      refine .untouched (fun a ha => ?_) (untouched_close hn owner h)
      obtain ⟨v, rfl⟩ := mem_actOf ha
      exact ⟨rfl, rfl⟩
    | nsRead owner h bytes => exact conserves_read hi bytes
    | nsWrite owner h data => exact conserves_write hn hb hi data
    | nsSeek owner h offset =>
      exact .refused hi (fun k d hd => sfNsSeek_outcome hd offset) fun k d hd ht => ⟨_, sfNsSeek_pipe hd ht offset⟩
    | nsTruncate owner h bytes =>
      exact .refused hi (fun k d hd => sfNsTruncate_outcome hd b bytes) fun k d hd ht => sfNsTruncate_pipe hd ht b bytes
    | nsUnlink owner directory relative => exact .same (removeNode_apart owner directory relative .file hstays).2.2
    | nsRmdir owner directory relative => exact .same (removeNode_apart owner directory relative .dir hstays).2.2
    | nsReap owner => exact .untouched (reapedFrom_idle owner _ n) (untouched_reap hn owner)
    | nsUnmount tag => exact .same (sfNsUnmount_apart hn.toSound (.inr hi) tag).2.2

end Conservation

/-! ## Whole runs -/

/-- **The run lemma.** -/
theorem NodeRun.conserves {s s' : Service} {acts : List Act} (hs : Reachable s)
    (hi : (s.ns.nodes i).type = some .pipe) (h : NodeRun i .pipe s acts s') : Conserves i s.ns acts s'.ns := by
  induction h with
  | start => exact .same rfl
  | call h b c stays ih =>
    obtain ⟨hreach, htype⟩ := h.reachable hs hi
    exact ih.trans (conserves_run (reachable_fit hreach).good (reachable_bounded hreach) htype b c stays)
  | other h step handles descriptions node ih =>
    have hall := ih.trans (Conserves.same node)
    rwa [append_nil] at hall

section Waiting

variable {s : Service} {i : NodeId} {owner h : Nat} {d : DescId}

section

variable (hs : Reachable s) (hi : (s.ns.nodes i).type = some .pipe)

include hs hi

/-- Nobody has the pipe open for writing where its counter is zero. -/
theorem writers_eq_zero :
    (s.ns.nodes i).writers = 0 ↔ ¬∃ c, Writes s.ns i c := by
  rw [(reachable_fit hs).good.writers hi, tally_eq_zero, not_exists]

/-- When a read has to wait, and when it is at the end. -/
theorem read_pipe_waits (hx : Holds s.ns i (owner, h) d)
    (hmode : (s.ns.descriptions d).mode &&& openRead ≠ 0) (b : Backend) {bytes : Nat} (hbytes : bytes ≠ 0) :
    ((sfNsRead b owner h bytes s.ns).1 = stop .wouldBlock ↔ queue s.ns i = [] ∧ ∃ c, Writes s.ns i c) ∧
      ((sfNsRead b owner h bytes s.ns).1 = .ok [] ↔ queue s.ns i = [] ∧ ¬∃ c, Writes s.ns i c) := by
  obtain ⟨k, hdesc, rfl⟩ := hx
  have hwriters := writers_eq_zero hs hi
  rw [sfNsRead_pipe hdesc hi, if_neg hmode, if_neg hbytes, queue_eq_nil, ← hwriters]
  have hnot : (∃ c, Writes s.ns (s.ns.descriptions d).node c) ↔ (s.ns.node d).writers ≠ 0 := by
    rw [SfNamespace.node, ne_eq, hwriters, not_not]
  rw [hnot]
  change (_ ↔ (s.ns.node d).size = 0 ∧ _) ∧ (_ ↔ (s.ns.node d).size = 0 ∧ (s.ns.node d).writers = 0)
  by_cases hsize : (s.ns.node d).size = 0
  · by_cases hw : (s.ns.node d).writers = 0 <;> simp [hsize, hw]
  have hout : ringRead (s.ns.node d).data (s.ns.node d).head (min bytes (s.ns.node d).size) ≠ [] := by
    intro hnil
    have hlength := congrArg length hnil
    simp only [ringRead, length_map, length_range, length_nil] at hlength
    omega
  rw [if_neg hsize]
  refine ⟨iff_of_false (by rintro ⟨⟩) fun hr => hsize hr.1,
    iff_of_false (fun hok => hout (Except.ok.inj hok)) fun hr => hsize hr.1⟩

/-- When a write has to wait. -/
theorem write_pipe_waits (hx : Holds s.ns i (owner, h) d)
    (hmode : (s.ns.descriptions d).mode &&& openWrite ≠ 0) (b : Backend) {data : List UInt8} (hdata : data ≠ []) :
    (sfNsWrite b owner h data s.ns).1 = stop .wouldBlock ↔ (queue s.ns i).length = dataBytes := by
  obtain ⟨k, hdesc, rfl⟩ := hx
  have hb := reachable_bounded hs
  have hlive : Live s.ns d := (reachable_fit hs).good.counted.pos (description_some hdesc).1
  have hsize : (s.ns.node d).size ≤ dataBytes := (hb.fits (i := (s.ns.descriptions d).node) (.inr hi)).1
  have hlength := length_pos_iff.2 hdata
  rw [sfNsWrite_pipe hdesc hi (hb.writable hlive hmode) (hb.cursors hlive (.inr hi)) hsize, if_neg hmode, if_neg hdata,
    length_queue]
  change _ ↔ (s.ns.node d).size = dataBytes
  split
  · exact iff_of_true rfl (by omega)
  · exact iff_of_false nofun (by omega)

end

end Waiting

/-- A new node holds nothing. -/
theorem queue_create {n : SfNamespace} {p : Path} {type : Nat} {ro : Bool} (hfree : (n.nodes i).type = none)
    (hnew : ((sfNsCreate p type ro n).2.nodes i).type ≠ none) : queue (sfNsCreate p type ro n).2 i = [] := by
  rcases sfNsCreate_cases p type ro n with ⟨e, he⟩ | ⟨j, t, hok, hset⟩
  · rw [he] at hnew
    exact absurd hfree hnew
  rw [hset] at hnew ⊢
  by_cases hij : i = j
  · rw [queue_eq_nil, hij, setNode_self]
    rfl
  · rw [setNode_of_ne hij] at hnew
    exact absurd hfree hnew

/-- **Pipes are lossless queues.** A pipe starts empty. In every run from every state that can be reached, what was
in the pipe and what writes were accepted is, in this order, what reads returned and what is in the pipe, of at most
`dataBytes` bytes. At every time a read of an empty pipe waits while someone has it open for writing and is at the
end otherwise, and a write waits where the pipe is full. -/
theorem pipe_lossless {i : NodeId} {s s' : Service} {acts : List Act} (hs : Reachable s)
    (hi : (s.ns.nodes i).type = some .pipe) (hrun : NodeRun i .pipe s acts s') :
    (∀ p type ro n, (n.nodes i).type = none → s.ns = (sfNsCreate p type ro n).2 → queue s.ns i = []) ∧
    queue s.ns i ++ accepted acts = returned acts ++ queue s'.ns i ∧ (queue s'.ns i).length ≤ dataBytes ∧
    (∀ b owner h d bytes, Holds s'.ns i (owner, h) d → (s'.ns.descriptions d).mode &&& openRead ≠ 0 → bytes ≠ 0 →
      ((sfNsRead b owner h bytes s'.ns).1 = stop .wouldBlock ↔ queue s'.ns i = [] ∧ ∃ c, Writes s'.ns i c) ∧
      ((sfNsRead b owner h bytes s'.ns).1 = .ok [] ↔ queue s'.ns i = [] ∧ ¬∃ c, Writes s'.ns i c)) ∧
    ∀ b owner h d data, Holds s'.ns i (owner, h) d → (s'.ns.descriptions d).mode &&& openWrite ≠ 0 → data ≠ [] →
      ((sfNsWrite b owner h data s'.ns).1 = stop .wouldBlock ↔ (queue s'.ns i).length = dataBytes) := by
  obtain ⟨hreach, htype⟩ := hrun.reachable hs hi
  refine ⟨?_, hrun.conserves hs hi, ?_, ?_, ?_⟩
  · intro p type ro n hfree hnew
    rw [hnew] at hi ⊢
    exact queue_create hfree (by rw [hi]; exact nofun)
  · rw [length_queue]
    exact ((reachable_bounded hreach).fits (.inr htype)).1
  · intro b owner h d bytes hx hmode hbytes
    exact read_pipe_waits hreach htype hx hmode b hbytes
  · intro b owner h d data hx hmode hdata
    exact write_pipe_waits hreach htype hx hmode b hdata

/-- The pipe of `pipeNamespace` is opened for reading, three bytes are written and two are read. -/
theorem pipe_lossless_sample : ∃ acts s', NodeRun 1 .pipe ⟨pipeNamespace, false⟩ acts s' ∧ acts.length = 3 ∧
    accepted acts = [1, 2, 3] ∧ queue pipeNamespace 1 ++ accepted acts = returned acts ++ queue s'.ns 1 := by
  have hstart : NodeRun 1 .pipe ⟨pipeNamespace, false⟩ [] ⟨pipeNamespace, false⟩ := .start
  have hopen := hstart.call bareBackend (.request (.nsOpen 2 rootPath [47, 112] openRead)) (by decide +kernel)
  have hwrite := hopen.call bareBackend (.request (.nsWrite 1 257 [1, 2, 3])) (by decide +kernel)
  have hread := hwrite.call bareBackend (.request (.nsRead 2 258 2)) (by decide +kernel)
  exact ⟨_, _, hread, by decide +kernel, by decide +kernel, (pipe_lossless pipe_reachable (by decide +kernel) hread).2.1⟩

end SpiritFox.Ns
