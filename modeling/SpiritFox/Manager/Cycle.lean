import SpiritFox.Abi
import SpiritFox.Lib.ByteMem
import SpiritFox.Lib.DepthFirst
import Mathlib.Data.List.Perm.Subperm

/-!
# Dependency cycles

`sfmod_cycle` searches the graph of dependencies depth first, with the path it has taken as text in a buffer of the
caller: a letter for each module and `>` between them. The recursion ends where the text does not fit.

`visit_spec` is what one call of `visit` does in a buffer that is large enough; `sfmodCycle_exact` is the whole search.
-/

namespace SpiritFox.Manager

open ByteMem DepthFirst Relation List

/-- `marks` and `chain` -/
structure Search where
  marks : Nat → Colour
  chain : Mem

/-- `'A' + i` -/
def letter (i : Nat) : UInt8 := UInt8.ofNat (65 + i)

def Search.mark (s : Search) (i : Nat) (c : Colour) : Search := { s with marks := Function.update s.marks i c }

def Search.write (s : Search) (off : Nat) (text : List UInt8) : Search := { s with chain := blit s.chain off text }

/-- The loop of `visit` over the dependencies that `wanted` selects; it stops where `go` does. -/
def visitAll (go : Nat → Search → Bool × Search) (wanted : Nat → Bool) : List Nat → Search → Bool × Search
  | [], s => (false, s)
  | j :: js, s =>
    if wanted j then
      match go j s with
      | (true, s) => (true, s)
      | (false, s) => visitAll go wanted js s
    else visitAll go wanted js s

/-- `visit`, where `room` is `size - depth` -/
def visit (deps : Nat → Nat) (n : Nat) : (room depth i : Nat) → Search → Bool × Search
  | room, depth, i, s =>
    match s.marks i with
    | .grey => (true, if 2 < room then s.write depth [letter i, 0] else s)
    | .black => (false, s)
    | .white =>
      let s := s.mark i .grey
      match room with
      | r + 3 =>
        let s := s.write depth [letter i, 62, 0]
        match visitAll (fun j s => visit deps n (r + 1) (depth + 2) j s) (deps i).testBit (List.range n) s with
        | (true, s) => (true, s)
        | (false, s) => (false, (s.mark i .black).write depth [0])
      | _ => (true, s)

/-- The loop of `sfmod_cycle`. -/
def cycleLoop (deps : Nat → Nat) (n size : Nat) : List Nat → Search → Except SfError Unit × Search
  | [], s => (.ok (), s.write 0 [0])
  | i :: is, s =>
    if deps i >>> n ≠ 0 then (.error .dependency, s)
    else match visit deps n size 0 i s with
      | (true, s) => (.error .dependency, s)
      | (false, s) => cycleLoop deps n size is s

/-- `sfmod_cycle`: the result and the buffer -/
def sfmodCycle (deps : Nat → Nat) (n : Nat) (chain : Mem) (size : Nat) : Except SfError Unit × Mem :=
  if 16 < n ∨ size < 4 then (.error .invalid, chain)
  else
    let (r, s) := cycleLoop deps n size (List.range n) ⟨fun _ => .white, chain⟩
    (r, s.chain)

/-! ## The graph and the text -/

/-- Module `i` depends on module `j`. -/
def Depends (deps : Nat → Nat) (n i j : Nat) : Prop := i < n ∧ j < n ∧ (deps i).testBit j = true

/-- The text that lists a path: its letters with `>` between them. -/
def pathText (path : List Nat) : List UInt8 := (path.map letter).intersperse 62

/-- The buffer holds the string `text`. -/
def HoldsString (chain : Mem) (text : List UInt8) : Prop :=
  slice chain 0 text.length = text ∧ 0 ∉ text ∧ chain text.length = 0

/-- The buffer lists a path of dependencies from `k` whose last module occurs earlier in it. -/
def ShowsCycle (deps : Nat → Nat) (n k : Nat) (chain : Mem) : Prop :=
  ∃ path v, HoldsString chain (pathText (path ++ [v])) ∧ (path ++ [v]).IsChain (Depends deps n) ∧ v ∈ path ∧
    path.head? = some k

/-- The text of a path that goes on. -/
def openText (path : List Nat) : List UInt8 := path.flatMap fun v => [letter v, 62]

theorem length_openText (path : List Nat) : (openText path).length = 2 * path.length := by
  simp [openText, length_flatMap, Nat.mul_comm]

theorem pathText_snoc (path : List Nat) (v : Nat) : pathText (path ++ [v]) = openText path ++ [letter v] := by
  induction path with
  | nil => rfl
  | cons u path ih =>
    rw [openText, flatMap_cons, append_assoc, ← openText, ← ih]
    cases path <;> rfl

theorem letter_ne_zero {i : Nat} (h : i < 16) : letter i ≠ 0 := by
  intro h0
  have := congrArg UInt8.toNat h0
  simp [letter] at this
  omega

section Search

variable {deps : Nat → Nat} {n size k : Nat} {s : Search} {path : List Nat} {i : Nat}

/-- Between two moves of the search from `k`: the colours are those of a search along `path`, which the buffer lists. -/
structure Standing (deps : Nat → Nat) (n k : Nat) (s : Search) (path : List Nat) : Prop where
  inv : Inv (Depends deps n) s.marks path
  lt : ∀ v ∈ path, v < n
  root : ∀ v ∈ path.getLast?, v = k
  text : slice s.chain 0 (2 * path.length) = openText path.reverse

/-- What a move can come to: a cycle on show, or the same path with `Q`. -/
def VisitOutcome (deps : Nat → Nat) (n k : Nat) (s : Search) (path : List Nat) (Q : Search → Prop) : Bool × Search → Prop
  | (true, s') => ShowsCycle deps n k s'.chain
  | (false, s') => Standing deps n k s' path ∧ (∀ v, s.marks v = .black → s'.marks v = .black) ∧ Q s'

theorem Standing.length_le (h : Standing deps n k s path) : path.length ≤ n := by
  have hsub : path ⊆ range n := fun v hv => mem_range.2 (h.lt v hv)
  simpa using (h.inv.nodup.subperm hsub).length_le

/-- The text below a write stays, and the write follows it. -/
theorem slice_write (s : Search) (off : Nat) (text : List UInt8) {k : Nat} (h : k ≤ text.length) :
    slice (s.write off text).chain 0 (off + k) = slice s.chain 0 off ++ text.take k := by
  have hlow : slice (s.write off text).chain 0 off = slice s.chain 0 off :=
    (eqOn_blit (a := 0) (n := off) (Or.inl (by omega))).slice (Nat.zero_le _) (Nat.le_refl _)
  have hnew := slice_blit s.chain off text (a := 0) (k := k) (by omega)
  rw [Nat.add_zero, drop_zero] at hnew
  rw [slice_add, hlow, Nat.zero_add]
  exact congrArg _ hnew

/-- A successor that is on the path closes a cycle. -/
theorem Standing.showsCycle (h : Standing deps n k s path) (hn : n ≤ 16) (hi : i < n) (hg : s.marks i = .grey)
    (he : ∀ u ∈ path.head?, Depends deps n u i) :
    ShowsCycle deps n k (s.write (2 * path.length) [letter i, 0]).chain := by
  have hlen : (pathText (path.reverse ++ [i])).length = 2 * path.length + 1 := by
    simp [pathText_snoc, length_openText]
  have hmem := (h.inv.grey i).1 hg
  refine ⟨path.reverse, i, ⟨?_, ?_, ?_⟩, ?_, mem_reverse.2 hmem, ?_⟩
  · rw [hlen, slice_write _ _ _ (by simp), h.text, pathText_snoc]
    rfl
  · have hletters : ∀ v ∈ path, letter v ≠ 0 := fun v hv => letter_ne_zero (by have := h.lt v hv; omega)
    have hi := letter_ne_zero (i := i) (by omega)
    simp only [pathText_snoc, openText, mem_append, mem_flatMap, mem_reverse, mem_cons,
      not_mem_nil, or_false]
    rintro (⟨v, hv, h0 | h0⟩ | h0)
    · exact hletters v hv h0.symm
    · cases h0
    · exact hi h0.symm
  · rw [hlen]
    exact blit_of_mem (by simp)
  · rw [← reverse_cons, isChain_reverse]
    exact h.inv.isChain_cons he
  · rw [head?_reverse]
    obtain ⟨u, hu⟩ := Option.ne_none_iff_exists'.1 (mt getLast?_eq_none_iff.1 (ne_nil_of_mem hmem))
    rw [hu, h.root u hu]

/-- The search goes on to a module it has not seen. -/
theorem Standing.enter (h : Standing deps n k s path) (hi : i < n) (hw : s.marks i = .white)
    (he : ∀ u ∈ path.head?, Depends deps n u i) (hk : path = [] → i = k) :
    Standing deps n k ((s.mark i .grey).write (2 * path.length) [letter i, 62, 0]) (i :: path) where
  inv := h.inv.enter hw he
  lt := by
    rintro v (_ | ⟨_, hv⟩)
    · exact hi
    · exact h.lt v hv
  root := by
    cases path with
    | nil => simpa using hk rfl
    | cons u path => simpa using h.root
  text := by
    rw [length_cons, Nat.mul_succ, slice_write _ _ _ (by simp), reverse_cons]
    change slice s.chain 0 (2 * path.length) ++ _ = _
    rw [h.text]
    simp [openText]

/-- The search leaves a module all of whose dependencies it has left. -/
theorem Standing.leave (h : Standing deps n k s (i :: path)) (hs : ∀ j, Depends deps n i j → s.marks j = .black) :
    Standing deps n k ((s.mark i .black).write (2 * path.length) [0]) path where
  inv := h.inv.leave hs
  lt v hv := h.lt v (mem_cons_of_mem i hv)
  root v hv := h.root v (by cases path <;> simp_all)
  text := by
    have hle : slice s.chain 0 (2 * path.length) = (slice s.chain 0 (2 * (i :: path).length)).take (2 * path.length) := by
      rw [take_slice, Nat.min_eq_left (by rw [length_cons]; omega)]
    have := slice_write (s.mark i .black) (2 * path.length) [0] (k := 0) (by simp)
    rw [Nat.add_zero, take_zero, append_nil] at this
    rw [this]
    change slice s.chain 0 (2 * path.length) = _
    rw [hle, h.text, reverse_cons, openText, flatMap_append]
    exact take_left' (by rw [← openText, length_openText, length_reverse])

/-- The loop over the dependencies, when each visit is as it should be. -/
theorem visitAll_spec {go : Nat → Search → Bool × Search} {wanted : Nat → Bool} {js : List Nat}
    (hgo : ∀ j ∈ js, wanted j = true → ∀ s, Standing deps n k s path →
      VisitOutcome deps n k s path (fun s' => s'.marks j = .black) (go j s)) :
    ∀ {s : Search}, Standing deps n k s path →
      VisitOutcome deps n k s path (fun s' => ∀ j ∈ js, wanted j = true → s'.marks j = .black)
        (visitAll go wanted js s) := by
  induction js with
  | nil => exact fun hs => ⟨hs, fun _ hv => hv, fun _ hj => absurd hj not_mem_nil⟩
  | cons j js ih =>
    intro s hs
    have hrest := @ih fun k hk => hgo k (mem_cons_of_mem j hk)
    rw [visitAll]
    split
    · rename_i hj
      have hvisit := hgo j mem_cons_self hj s hs
      rcases hr : go j s with ⟨_ | _, s₁⟩ <;> rw [hr] at hvisit
      · obtain ⟨hs₁, hmono, hblack⟩ := hvisit
        have hout := hrest hs₁
        dsimp only
        rcases hr' : visitAll go wanted js s₁ with ⟨_ | _, s₂⟩ <;> rw [hr'] at hout
        · refine ⟨hout.1, fun v hv => hout.2.1 v (hmono v hv), ?_⟩
          rintro k (_ | ⟨_, hk⟩) hw
          · exact hout.2.1 j hblack
          · exact hout.2.2 k hk hw
        · exact hout
      · exact hvisit
    · rename_i hj
      have hout := hrest hs
      rcases hr : visitAll go wanted js s with ⟨_ | _, s₂⟩ <;> rw [hr] at hout
      · refine ⟨hout.1, hout.2.1, ?_⟩
        rintro k (_ | ⟨_, hk⟩) hw
        · exact absurd hw hj
        · exact hout.2.2 k hk hw
      · exact hout

/-- **One visit**: in a buffer with room for every path it finds a cycle and shows it, or leaves the module. -/
theorem visit_spec (hn : n ≤ 16) (hsize : 2 * n + 2 < size) {room depth : Nat} (h : Standing deps n k s path) (hi : i < n)
    (he : ∀ u ∈ path.head?, Depends deps n u i) (hk : path = [] → i = k) (hdepth : depth = 2 * path.length)
    (hroom : depth + room = size) :
    VisitOutcome deps n k s path (fun s' => s'.marks i = .black) (visit deps n room depth i s) := by
  induction room using Nat.strong_induction_on generalizing path i s depth with
  | _ room ih =>
  subst hdepth
  have hlen := h.length_le
  rw [visit]
  split
  · rename_i hg
    rw [if_pos (by omega)]
    exact h.showsCycle hn hi hg he
  · rename_i hb
    exact ⟨h, fun _ hv => hv, hb⟩
  · rename_i hw
    have henter := h.enter hi hw he hk
    have hlen' := henter.length_le
    rw [length_cons] at hlen'
    obtain ⟨r, rfl⟩ : ∃ r, room = r + 3 := ⟨room - 3, by omega⟩
    dsimp only
    have hgo : ∀ j ∈ range n, (deps i).testBit j = true → ∀ s, Standing deps n k s (i :: path) →
        VisitOutcome deps n k s (i :: path) (fun s' => s'.marks j = .black)
          (visit deps n (r + 1) (2 * path.length + 2) j s) :=
      fun j hj hd s hs => ih (r + 1) (by omega) hs (mem_range.1 hj)
        (by simpa using ⟨hi, mem_range.1 hj, hd⟩) (by simp) rfl (by omega)
    have hall := visitAll_spec hgo henter
    generalize visitAll _ _ _ _ = r at hall ⊢
    obtain ⟨_ | _, s₁⟩ := r
    · obtain ⟨hs₁, hmono, hblack⟩ := hall
      refine ⟨hs₁.leave fun j hj => hblack j (mem_range.2 hj.2.1) hj.2.2, fun v hv => ?_, Function.update_self ..⟩
      have hne : v ≠ i := by
        rintro rfl
        rw [hw] at hv
        cases hv
      exact (Function.update_of_ne hne _ _).trans (hmono v ((Function.update_of_ne hne _ _).trans hv))
    · exact hall

/-- No cycle can be reached from module `i`. -/
def Clean (deps : Nat → Nat) (n i : Nat) : Prop :=
  ∀ v, ReflTransGen (Depends deps n) i v → ¬ TransGen (Depends deps n) v v

/-- The loop over all modules stops at the first one with a bad mask or a cycle to show. -/
theorem cycleLoop_spec (hn : n ≤ 16) (hsize : 2 * n + 2 < size) : ∀ {is : List Nat} {s : Search}, (∀ i ∈ is, i < n) →
    Inv (Depends deps n) s.marks [] → match cycleLoop deps n size is s with
    | (.ok _, _) => ∀ i ∈ is, deps i >>> n = 0 ∧ Clean deps n i
    | (.error e, s') => e = .dependency ∧ ∃ done k rest, is = done ++ k :: rest ∧
        (∀ i ∈ done, deps i >>> n = 0 ∧ Clean deps n i) ∧
        (deps k >>> n ≠ 0 ∨ deps k >>> n = 0 ∧ ShowsCycle deps n k s'.chain)
  | [], s, _, _ => fun i hi => absurd hi not_mem_nil
  | i :: is, s, hlt, hs => by
    rw [cycleLoop]
    by_cases hmask : deps i >>> n ≠ 0
    · rw [if_pos hmask]
      exact ⟨rfl, [], i, is, rfl, fun _ h => absurd h not_mem_nil, Or.inl hmask⟩
    rw [if_neg hmask]
    rw [ne_eq, Decidable.not_not] at hmask
    have hstand : Standing deps n i s [] := ⟨hs, by simp, by simp, rfl⟩
    have hvisit : VisitOutcome deps n i s [] (fun s' => s'.marks i = .black) (visit deps n size 0 i s) :=
      visit_spec hn hsize hstand (hlt i mem_cons_self) (by simp) (fun _ => rfl) rfl (Nat.zero_add size)
    generalize visit deps n size 0 i s = r at hvisit ⊢
    obtain ⟨_ | _, s₁⟩ := r
    · obtain ⟨hs₁, -, hblack⟩ := hvisit
      have hclean : Clean deps n i := fun v hv => hs₁.inv.not_cyclic hblack hv
      have hrest := cycleLoop_spec hn hsize (fun j hj => hlt j (mem_cons_of_mem i hj)) hs₁.inv
      dsimp only
      generalize cycleLoop deps n size is s₁ = r at hrest ⊢
      obtain ⟨e | _, s₂⟩ := r
      · obtain ⟨he, done, k, rest, rfl, hdone, hk⟩ := hrest
        exact ⟨he, i :: done, k, rest, rfl, forall_mem_cons.2 ⟨⟨hmask, hclean⟩, hdone⟩, hk⟩
      · exact forall_mem_cons.2 ⟨⟨hmask, hclean⟩, hrest⟩
    · exact ⟨rfl, [], i, is, rfl, fun _ h => absurd h not_mem_nil, Or.inr ⟨hmask, hvisit⟩⟩

end Search

/-- What is on show is a cycle. -/
theorem ShowsCycle.cyclic {deps : Nat → Nat} {n k : Nat} {chain : Mem} (h : ShowsCycle deps n k chain) :
    ∃ v, TransGen (Depends deps n) v v := by
  obtain ⟨path, v, -, hchain, hmem, -⟩ := h
  have hpair := (hchain.imp fun _ _ => TransGen.single).pairwise
  exact ⟨v, (pairwise_append.1 hpair).2.2 v hmem v (mem_singleton_self v)⟩

theorem shiftRight_eq_zero_iff {a n : Nat} : a >>> n = 0 ↔ a < 2 ^ n := by
  rw [Nat.shiftRight_eq_div_pow, Nat.div_eq_zero_iff_lt (Nat.two_pow_pos n)]

/-- **Cycle detection.** In a buffer with room for a path through all modules, `sfmod_cycle` returns 0 exactly when
every mask names modules below `n` and the dependencies have no cycle. Otherwise it stops at the first module with a
bad mask or with a cycle that can be reached from it, and shows that cycle. -/
theorem sfmodCycle_exact (deps : Nat → Nat) (chain : Mem) {n size : Nat} (hn : n ≤ 16) (hmin : 4 ≤ size)
    (hsize : 2 * n + 2 < size) :
    ((sfmodCycle deps n chain size).1 = .ok () ↔
      (∀ i < n, deps i < 2 ^ n) ∧ ∀ i, ¬ TransGen (Depends deps n) i i) ∧
    ((sfmodCycle deps n chain size).1 ≠ .ok () → (sfmodCycle deps n chain size).1 = .error .dependency ∧
      ∃ k < n, (∀ i < k, deps i < 2 ^ n ∧ Clean deps n i) ∧
        (2 ^ n ≤ deps k ∨ deps k < 2 ^ n ∧ ShowsCycle deps n k (sfmodCycle deps n chain size).2)) := by
  have hstart : Inv (Depends deps n) (Search.mk (fun _ => .white) chain).marks [] := .start fun _ => rfl
  have hloop := cycleLoop_spec hn hsize (fun i hi => List.mem_range.1 hi) hstart
  rw [sfmodCycle, if_neg (by omega)]
  generalize cycleLoop deps n size (List.range n) ⟨fun _ => .white, chain⟩ = r at hloop ⊢
  obtain ⟨e | _, s'⟩ := r
  · obtain ⟨rfl, done, k, rest, hrange, hdone, hk⟩ := hloop
    simp only [ne_eq, shiftRight_eq_zero_iff, Nat.not_lt] at hdone hk
    have hkn : k < n := List.mem_range.1 (by simp [hrange])
    have hearlier : ∀ i < k, i ∈ done := fun i hi => by
      have hmem : i ∈ done ++ k :: rest := hrange ▸ List.mem_range.2 (by omega)
      have hsorted : (done ++ k :: rest).Pairwise (· < ·) := hrange ▸ List.pairwise_lt_range
      have hlater := (List.pairwise_cons.1 (List.pairwise_append.1 hsorted).2.1).1
      rcases List.mem_append.1 hmem with h | _ | ⟨_, h⟩
      · exact h
      · omega
      · have := hlater i h
        omega
    refine ⟨⟨by rintro ⟨⟩, fun hgood => ?_⟩, fun _ => ⟨rfl, k, hkn, fun i hi => hdone i (hearlier i hi), hk⟩⟩
    rcases hk with hk | ⟨-, hshow⟩
    · exact absurd (hgood.1 k hkn) (Nat.not_lt.2 hk)
    · obtain ⟨v, hv⟩ := hshow.cyclic
      exact absurd hv (hgood.2 v)
  · simp only [List.mem_range, shiftRight_eq_zero_iff] at hloop
    refine ⟨⟨fun _ => ⟨fun i hi => (hloop i hi).1, fun i hi => ?_⟩, fun _ => rfl⟩, fun h => absurd rfl h⟩
    obtain ⟨j, hij, -⟩ := TransGen.head'_iff.1 hi
    exact (hloop i hij.1).2 i .refl hi

/-- A depends on B, B on C and C on A. -/
def threeModules : Nat → Nat := fun i => [2, 4, 1].getD i 0

example : slice (sfmodCycle threeModules 3 zeros 64).2 0 8 = [65, 62, 66, 62, 67, 62, 65, 0] := by decide +kernel

theorem sfmodCycle_exact_three : (sfmodCycle threeModules 3 zeros 64).1 = .error .dependency := by
  have h01 : Depends threeModules 3 0 1 := ⟨by decide, by decide, by decide⟩
  have h12 : Depends threeModules 3 1 2 := ⟨by decide, by decide, by decide⟩
  have h20 : Depends threeModules 3 2 0 := ⟨by decide, by decide, by decide⟩
  obtain ⟨hiff, herr⟩ := sfmodCycle_exact threeModules zeros (by decide : 3 ≤ 16) (by decide : 4 ≤ 64) (by decide)
  exact (herr fun hok => (hiff.1 hok).2 0 (((TransGen.single h01).tail h12).tail h20)).1

/-- Without modules there is no cycle, but a buffer of three bytes is refused. -/
theorem sfmodCycle_three_bytes : 2 * 0 + 2 < 3 ∧ (∀ i, ¬ TransGen (Depends (fun _ => 0) 0) i i) ∧
    (sfmodCycle (fun _ => 0) 0 zeros 3).1 = .error .invalid := by
  refine ⟨by decide, fun i hi => ?_, rfl⟩
  obtain ⟨j, hij, -⟩ := TransGen.head'_iff.1 hi
  exact absurd hij.1 (Nat.not_lt_zero i)

end SpiritFox.Manager
