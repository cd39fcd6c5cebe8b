import SpiritFox.Ns.Contents
import SpiritFox.Ns.Grammar

/-!
# Listing a directory

`sf_ns_enumerate` finds the children of a directory by comparing bytes. On canonical paths this finds the nodes
whose parent the directory is, and their last components (`childName_iff`); as no name has a control character, the
names can be read back from the lines (`splitOn_lines`). The main result is `listing_exact`.
-/

namespace SpiritFox.Ns

open List

/-! ## Children -/

instance (p q : Path) : Decidable (IsParent p q) := inferInstanceAs (Decidable (_ ∧ _))

/-- The last components of the nodes in the directory `p`, in the order of their slots. -/
def childrenOf (n : SfNamespace) (p : Path) : List Path :=
  (List.finRange 32).filterMap fun i => (name n i).bind fun q => if IsParent p q then (components q).getLast? else none

section Children

variable {p q c : Path} {n : SfNamespace}

theorem components_eq_concat (hp : pathOk p = true) (hq : pathOk q = true) :
    components q = components p ++ [c] ↔ q = join p c ∧ Component c := by
  constructor
  · intro h
    have hc : Component c := .of_mem_components hq (by rw [h]; exact mem_append_right _ (mem_singleton_self c))
    refine ⟨?_, hc⟩
    rw [← pathOf_components (pathOk_head hq), h, ← splitOn_of_notMem hc.2.2.2, ← components_join hp hc.1,
      pathOf_components (head_join (pathOk_head hp))]
  · rintro ⟨rfl, hc⟩
    rw [components_join hp hc.1, splitOn_of_notMem hc.2.2.2]

/-- A canonical path has a name before and after every slash but the first. -/
theorem names_around {a b : Path} (h : pathOk (slash :: a ++ slash :: b) = true) : a ≠ [] ∧ b ≠ [] := by
  have hparts : components (slash :: a ++ slash :: b) = a.splitOn slash ++ b.splitOn slash := by
    rw [cons_append, components_cons (by simp), splitOn_append_cons_self]
  have hempty {x : Path} (hx : x = []) : [] ∈ x.splitOn slash := by
    rw [hx]
    exact mem_singleton_self []
  refine ⟨fun ha => ?_, fun hb => ?_⟩
  · exact (Component.of_mem_components h (hparts ▸ mem_append_left _ (hempty ha))).1 rfl
  · exact (Component.of_mem_components h (hparts ▸ mem_append_right _ (hempty hb))).1 rfl

/-- In terms of the parent that `sf_ns_create` looks up. -/
theorem isParent_iff (hp : pathOk p = true) (hq : pathOk q = true) :
    IsParent p q ∧ (components q).getLast? = some c ↔ q = join p c ∧ Component c := by
  rw [← components_eq_concat hp hq]
  constructor
  · rintro ⟨⟨hroot, rfl⟩, hlast⟩
    obtain ⟨a, b, rfl, hb⟩ := exists_component (slash_mem_of_pathOk hq)
    have hjoin : b ≠ [] ∧ a ++ slash :: b = join (parentOf (a ++ slash :: b)) b := by
      rw [parentOf_append hb]
      cases a with
      | nil => exact ⟨fun hnil => hroot (by rw [hnil]; rfl), rfl⟩
      | cons x a =>
        obtain rfl : x = slash := by simpa using pathOk_head hq
        obtain ⟨ha, hne⟩ := names_around hq
        refine ⟨hne, ?_⟩
        rw [if_neg (cons_ne_nil _ _), join, if_neg (by simpa using ha)]
    have hconcat := components_join hp hjoin.1
    rw [← hjoin.2, splitOn_of_notMem hb] at hconcat
    rw [hconcat, getLast?_concat] at hlast
    rw [hconcat, Option.some.inj hlast]
  · intro h
    obtain ⟨rfl, hc⟩ := (components_eq_concat hp hq).1 h
    have hne : p ≠ [] := ne_nil_of_mem (slash_mem_of_pathOk hp)
    refine ⟨⟨join_ne_rootPath hne hc.1, parentOf_join (pathOk_head hp) hc.2.2.2⟩, ?_⟩
    rw [h, getLast?_concat]

theorem continues_iff : continues p q = true ↔ ∃ c, q = p ++ slash :: c := by
  simp only [continues, Bool.and_eq_true, decide_eq_true_eq, isPrefixOf_iff_prefix]
  constructor
  · rintro ⟨⟨-, r, rfl⟩, hslash⟩
    rw [getElem?_append_right (Nat.le_refl _), Nat.sub_self, ← head?_eq_getElem?] at hslash
    obtain ⟨c, rfl⟩ := head?_eq_some_iff.1 hslash
    exact ⟨c, rfl⟩
  · rintro ⟨c, rfl⟩
    simp

theorem length_eq_one_iff (hp : pathOk p = true) : p.length = 1 ↔ p = rootPath := by
  obtain ⟨r, rfl⟩ := head?_eq_some_iff.1 (pathOk_head hp)
  simp [rootPath]

/-- What is left of a path after that of the directory and a slash. -/
theorem join_eq_iff (hp : pathOk p = true) (hq : pathOk q = true) :
    (if p = rootPath then some (q.drop 1) else if continues p q then some (q.drop (p.length + 1)) else none) = some c ↔
      q = join p c := by
  unfold join
  rw [if_congr (length_eq_one_iff hp) rfl rfl]
  split
  · rename_i hroot
    obtain ⟨r, hr⟩ := head?_eq_some_iff.1 (pathOk_head hq)
    rw [hr, hroot, Option.some.injEq]
    simp [rootPath]
  split
  · rename_i hc
    obtain ⟨r, hr⟩ := continues_iff.1 hc
    rw [hr]
    simp
  · rename_i hc
    exact iff_of_false (by rintro ⟨⟩) fun heq => hc (continues_iff.2 ⟨c, heq⟩)

/-- What is left is a name unless there is another slash. -/
theorem component_of_join (hp : pathOk p = true) (hq : pathOk (join p c) = true) (hc : slash ∉ c)
    (hlong : p.length < (join p c).length) : Component c := by
  have hne : c ≠ [] := by
    rintro rfl
    obtain ⟨a, rfl⟩ := head?_eq_some_iff.1 (pathOk_head hp)
    unfold join at hq hlong
    split at hq
    · rename_i hlen
      rw [if_pos hlen, append_nil] at hlong
      exact Nat.lt_irrefl _ hlong
    · exact (names_around hq).2 rfl
  refine .of_mem_components hq ?_
  rw [components_join hp hne, splitOn_of_notMem hc]
  exact mem_append_right _ (mem_singleton_self c)

/-- What the comparison of bytes finds. -/
theorem childName_iff {x : SfNode} (hp : pathOk p = true) (hx : pathOk x.path = true) :
    childName p x = some c ↔ x.type ≠ none ∧ x.path = join p c ∧ Component c := by
  unfold childName
  dsimp only
  constructor
  · intro h
    split at h
    · cases h
    rename_i hcond
    simp only [not_or, Nat.not_le] at hcond
    obtain ⟨hrest, hc⟩ := Option.filter_eq_some_iff.1 h
    have heq := (join_eq_iff hp hx).1 hrest
    refine ⟨hcond.1, heq, component_of_join hp (heq ▸ hx) (by simpa using hc) ?_⟩
    rw [← heq]
    exact hcond.2.2
  · rintro ⟨ht, heq, hc⟩
    have hlong : p.length < x.path.length := by
      have hpos := length_pos_iff.2 hc.1
      rw [heq, join]
      split <;> simp only [length_append, length_cons] <;> omega
    rw [if_neg]
    · exact Option.filter_eq_some_iff.2 ⟨(join_eq_iff hp hx).2 heq, by simpa using hc.2.2.2⟩
    rintro (h | rfl | h)
    · exact ht h
    · exact Nat.lt_irrefl _ hlong
    · exact Nat.not_le.2 hlong h

/-- On canonical paths the comparison of bytes finds the nodes in the directory. -/
theorem childName_eq (hcanonical : ∀ {i : NodeId} {q : Path}, name n i = some q → pathOk q = true)
    (hp : pathOk p = true) (i : NodeId) :
    childName p (n.nodes i) = (name n i).bind fun q => if IsParent p q then (components q).getLast? else none := by
  by_cases hi : (n.nodes i).type = none
  · rw [name_eq_none.2 hi, childName, if_pos (.inl hi)]
    rfl
  have hname : name n i = some (n.nodes i).path := name_eq_some.2 ⟨hi, rfl⟩
  have hq := hcanonical hname
  ext c
  rw [childName_iff hp hq, hname, Option.bind_some, ← isParent_iff hp hq]
  simp [hi]

theorem mem_childrenOf : c ∈ childrenOf n p ↔
    ∃ i q, name n i = some q ∧ IsParent p q ∧ (components q).getLast? = some c := by
  simp only [childrenOf, mem_filterMap, mem_finRange, true_and, Option.bind_eq_some_iff]
  constructor
  · rintro ⟨i, q, hname, hc⟩
    split at hc
    · rename_i hparent
      exact ⟨i, q, hname, hparent, hc⟩
    · cases hc
  · rintro ⟨i, q, hname, hparent, hc⟩
    exact ⟨i, q, hname, by rwa [if_pos hparent]⟩

theorem exists_of_mem_childrenOf (hn : Sound n) (hp : pathOk p = true) (hc : c ∈ childrenOf n p) :
    pathOk (join p c) = true := by
  obtain ⟨i, q, hname, hparent, hlast⟩ := mem_childrenOf.1 hc
  have hq := hn.canonical hname
  rw [← ((isParent_iff hp hq).1 ⟨hparent, hlast⟩).1]
  exact hq

/-- No name is there twice. -/
theorem nodup_childrenOf (hn : Sound n) (hp : pathOk p = true) : (childrenOf n p).Nodup := by
  refine (nodup_finRange 32).filterMap ?_
  have hpath {i : NodeId} {c : Path}
      (hi : ((name n i).bind fun q => if IsParent p q then (components q).getLast? else none) = some c) :
      name n i = some (join p c) := by
    obtain ⟨q, hname, hc⟩ := Option.bind_eq_some_iff.1 hi
    split at hc
    · rename_i hparent
      rw [hname, ((isParent_iff hp (hn.canonical hname)).1 ⟨hparent, hc⟩).1]
    · cases hc
  intro i j c hi hj
  exact hn.rooted.distinct (hpath hi) (hpath hj)

/-- No name has a control character. -/
theorem control_notMem (hn : Sound n) (hp : pathOk p = true) (hc : c ∈ childrenOf n p) : 10 ∉ c := by
  intro hmem
  have htext := (pathOk_iff.1 (exists_of_mem_childrenOf hn hp hc)).2.1
  have hjoin : 10 ∈ join p c := by
    unfold join
    split
    · exact mem_append_right _ hmem
    · exact mem_append_right _ (mem_cons_of_mem _ hmem)
  exact absurd (htext.2 10 hjoin) (by decide)

end Children

/-! ## Lines -/

/-- Every name on a line of its own. -/
def lines (names : List Path) : List UInt8 := names.flatMap (· ++ [10])

theorem splitOn_lines {names : List Path} (h : ∀ c ∈ names, 10 ∉ c) : (lines names).splitOn 10 = names ++ [[]] := by
  induction names with
  | nil => rfl
  | cons c names ih =>
    have hcons : lines (c :: names) = c ++ 10 :: lines names := by simp [lines]
    rw [hcons, splitOn_append_cons_self_of_not_mem (h c mem_cons_self),
      ih fun c hc => h c (mem_cons_of_mem _ hc), cons_append]

theorem lines_cons (c : Path) (names : List Path) : lines (c :: names) = c ++ [10] ++ lines names := flatMap_cons

/-- The loop lists the longest run of names that fits after what is there. -/
theorem listNames_eq (size : Nat) : ∀ (names : List Path) (out : List UInt8), out.length ≤ size →
    ∃ m ≤ names.length, (out ++ lines (names.take m)).length ≤ size ∧
      (∀ m' ≤ names.length, (out ++ lines (names.take m')).length ≤ size → m' ≤ m) ∧
      listNames size names out = if m = 0 ∧ names ≠ [] ∧ out = [] then stop .noSpace else .ok (out ++ lines (names.take m))
  | [], out, hout => by
    refine ⟨0, Nat.le_refl 0, by simpa [lines] using hout, fun m' hm' _ => hm', ?_⟩
    simp [listNames, lines, pure, Except.pure]
  | c :: names, out, hout => by
    by_cases hfits : size - out.length < c.length + 1
    · refine ⟨0, Nat.zero_le _, by simpa [lines] using hout, fun m' hm' hlen => ?_, ?_⟩
      · cases m' with
        | zero => exact Nat.le_refl 0
        | succ m' =>
          simp only [take_succ_cons, lines_cons, length_append, length_singleton] at hlen
          omega
      · rw [listNames, if_pos hfits]
        by_cases hnil : out = []
        · simp [hnil]
        · simp [hnil, lines, pure, Except.pure]
    · have hlen : (out ++ c ++ [10]).length ≤ size := by
        simp only [length_append, length_singleton]
        omega
      obtain ⟨m, hm, hin, hmost, hresult⟩ := listNames_eq size names (out ++ c ++ [10]) hlen
      have hsame (k : Nat) : out ++ lines ((c :: names).take (k + 1)) = out ++ c ++ [10] ++ lines (names.take k) := by
        simp only [take_succ_cons, lines_cons, append_assoc]
      refine ⟨m + 1, Nat.succ_le_succ hm, by rw [hsame]; exact hin, fun m' hm' hfits' => ?_, ?_⟩
      · cases m' with
        | zero => exact Nat.zero_le _
        | succ m' =>
          rw [hsame] at hfits'
          exact Nat.succ_le_succ (hmost m' (Nat.le_of_succ_le_succ hm') hfits')
      · rw [listNames, if_neg hfits, hresult, hsame]
        simp

/-! ## The listing -/

/-- **Listings are exact.** For every handle that may read a directory and every size of the buffer: the listing has
the children of the directory, each once and in the order of their slots, as many as fit, and is refused if the
first does not fit. In a buffer that is large enough the lines are the names of the children. -/
theorem listing_exact {s : Service} (hs : Reachable s) {owner h : Nat} {k : SlotId} {d : DescId}
    (hdesc : description s.ns owner h = some (k, d)) (hread : (s.ns.descriptions d).mode &&& openRead ≠ 0)
    (hdir : (s.ns.node d).type = some .dir) (size : Nat) :
    let names := childrenOf s.ns (s.ns.node d).path
    names.Nodup ∧
    (∀ c, c ∈ names ↔ ∃ i q, name s.ns i = some q ∧ IsParent (s.ns.node d).path q ∧ (components q).getLast? = some c) ∧
    (∃ m ≤ names.length, (lines (names.take m)).length ≤ size ∧
      (∀ m' ≤ names.length, (lines (names.take m')).length ≤ size → m' ≤ m) ∧
      (sfNsEnumerate owner h size s.ns).1 = if m = 0 ∧ names ≠ [] then stop .noSpace else .ok (lines (names.take m))) ∧
    ((lines names).length ≤ size → ∃ out,
      (sfNsEnumerate owner h size s.ns).1 = .ok out ∧ out.splitOn 10 = names ++ [[]]) := by
  intro names
  have hn := (reachable_fit hs).good.toSound
  have hp : pathOk (s.ns.node d).path = true :=
    hn.canonical (name_eq_some.2 ⟨by rw [← SfNamespace.node, hdir]; rintro ⟨⟩, rfl⟩)
  have hresult : (sfNsEnumerate owner h size s.ns).1 = listNames size names [] := by
    unfold sfNsEnumerate
    rw [withDescription_eq hdesc, if_neg hread, if_neg (not_not.2 hdir),
      List.filterMap_congr fun i _ => childName_eq hn.canonical hp i]
    rfl
  obtain ⟨m, hm, hfits, hmost, hlist⟩ := listNames_eq size names [] (Nat.zero_le _)
  simp only [List.nil_append, and_true] at hfits hmost hlist
  rw [hresult, hlist]
  refine ⟨nodup_childrenOf hn hp, fun c => mem_childrenOf, ⟨m, hm, hfits, hmost, rfl⟩, fun hlarge => ?_⟩
  have hall : names.length ≤ m := hmost _ (Nat.le_refl _) (by rwa [List.take_length])
  refine ⟨lines names, ?_, splitOn_lines fun c hc => control_notMem hn hp hc⟩
  rw [if_neg, List.take_of_length_le hall]
  rintro ⟨rfl, hne⟩
  exact hne (List.length_eq_zero_iff.1 (Nat.le_zero.1 hall))

/-- The root, open for reading, with a pipe and a file in a directory beside it. -/
def listedNamespace : SfNamespace :=
  (Request.nsOpen 1 rootPath rootPath openRead).run bareBackend
    ((Request.nsCreate [47, 100, 47, 102] 2 false).run bareBackend
      ((Request.nsCreate [47, 100] 1 false).run bareBackend ((Request.nsCreate [47, 112] 3 false).run bareBackend sfNsInit)))

theorem listed_reachable : Reachable ⟨listedNamespace, false⟩ :=
  (((Relation.ReflTransGen.refl.tail (.request bareBackend (.nsCreate [47, 112] 3 false))).tail
    (.request bareBackend (.nsCreate [47, 100] 1 false))).tail
      (.request bareBackend (.nsCreate [47, 100, 47, 102] 2 false))).tail
    (.request bareBackend (.nsOpen 1 rootPath rootPath openRead))

theorem listing_exact_sample : ∃ out, (sfNsEnumerate 1 257 16 listedNamespace).1 = .ok out ∧
    out.splitOn 10 = [[112], [100]] ++ [[]] := by
  have hnames : childrenOf listedNamespace (listedNamespace.node 0).path = [[112], [100]] := by decide +kernel
  have hdesc : description listedNamespace 1 257 = some (0, 0) := by decide +kernel
  rw [← hnames]
  refine (listing_exact listed_reachable hdesc (by decide +kernel) (by decide +kernel) 16).2.2.2 ?_
  change (lines (childrenOf listedNamespace (listedNamespace.node 0).path)).length ≤ 16
  rw [hnames]
  decide

end SpiritFox.Ns
