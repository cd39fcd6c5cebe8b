import SpiritFox.Kernel.Space

/-!
# User ranges and copies

What `user_range`, `copy_in` and `copy_out` of `kernel/memory.c` do, byte for byte, for a task whose pages have
frames of their own.

- `scanRange_eq`: the loop of `user_range`, which leaves by the address of the last page, ends;
- `userRange_iff`: what it has checked of every byte;
- `copyInLoop_eq`, `copyOutLoop_spec`: the copies go page by page, but by what the task sees they are one.

The main result is `user_copies_exact`.
-/

namespace SpiritFox.Core

open ByteMem List

section Copies

variable {L : Layout} {k : Kernel} {j : TaskId} {s : Space L} {v n : Nat} {write : Bool} {a b : Nat} {x : Mapping L}
  {bytes : List UInt8}

/-! ## The scan -/

/-- The loop of `user_range`, which leaves at the address of the last page; `none` when the rounds run out. -/
def scanPages (L : Layout) (k : Kernel) (j : TaskId) (stop : Nat) (write : Bool) : Nat → Nat → Option Bool
  | 0, _ => none
  | rounds + 1, a =>
    if userPage L k j a write = false then some false
    else if a = stop then some true
    else scanPages L k j stop write rounds ((a + 4096) % 2 ^ 64)

/-- `user_range` with that loop. -/
def scanRange (L : Layout) (k : Kernel) (j : TaskId) (rounds v n : Nat) (write : Bool) : Option Bool :=
  if v < 0x40000000 ∨ 0x80000000 ≤ v ∨ 0x80000000 - v < n then some false
  else if n = 0 then some true
  else scanPages L k j ((v + n - 1) / 4096 * 4096) write rounds (v / 4096 * 4096)

theorem scanPages_eq {d : Nat} : ∀ {rounds p : Nat}, d < rounds → (p + d + 1) * 4096 < 2 ^ 64 →
    scanPages L k j ((p + d) * 4096) write rounds (p * 4096) =
      some ((range (d + 1)).all fun i => userPage L k j ((p + i) * 4096) write) := by
  induction d with
  | zero =>
    intro rounds p hrounds _
    obtain ⟨rounds, rfl⟩ := Nat.exists_eq_add_of_lt hrounds
    rw [Nat.zero_add, scanPages]
    cases hpage : userPage L k j (p * 4096) write <;> simp [hpage]
  | succ d ih =>
    intro rounds p hrounds hend
    obtain ⟨rounds, rfl⟩ : ∃ r, rounds = r + 1 := ⟨rounds - 1, by omega⟩
    have hnext : (p * 4096 + 4096) % 2 ^ 64 = (p + 1) * 4096 := by omega
    have hne : p * 4096 ≠ (p + (d + 1)) * 4096 := by omega
    have hlater : d < rounds := by omega
    have hpages : p + 1 + d = p + (d + 1) := by omega
    have hrest := ih hlater (hpages ▸ hend)
    rw [hpages] at hrest
    rw [scanPages, range_succ_eq_map, all_cons, all_map, if_neg hne, hnext, hrest]
    cases hpage : userPage L k j (p * 4096) write with
    | false => simp
    | true => simp [Function.comp_def, Nat.add_assoc, Nat.add_comm 1]

/-- **The scan ends**, after a round for each page of the user half at most. -/
theorem scanRange_eq (L : Layout) (k : Kernel) (j : TaskId) {rounds : Nat} (h : 0x40000 ≤ rounds) (v n : Nat)
    (write : Bool) :
    scanRange L k j rounds v n write = some (userRange L k j v n write) := by
  unfold scanRange userRange
  split
  · rfl
  split
  · rfl
  · have hpages : (v + n - 1) / 4096 = v / 4096 + ((v + n - 1) / 4096 - v / 4096) := by omega
    rw [hpages, scanPages_eq (by omega) (by omega), Nat.add_sub_cancel_left]

/-! ## The range -/

/-- A page of the task that a copy may go to: this is its entry. -/
structure Usable (L : Layout) (k : Kernel) (j : TaskId) (a : Nat) (write : Bool) (p : Nat) : Prop where
  entry : lookup L k j a = some p
  present : p &&& 1 ≠ 0
  user : p &&& 4 ≠ 0
  memory : p &&& pteMmio = 0
  writable : write = true → p &&& 2 ≠ 0

theorem userPage_usable : userPage L k j a write = true ↔ ∃ p, Usable L k j a write p := by
  unfold userPage
  constructor
  · intro h
    split at h
    · cases h
    rename_i p hp
    obtain ⟨hpresent, huser, hmemory, hwrite⟩ := of_decide_eq_true h
    exact ⟨p, hp, hpresent, huser, hmemory, hwrite⟩
  · rintro ⟨p, hp⟩
    rw [hp.entry]
    exact decide_eq_true ⟨hp.present, hp.user, hp.memory, hp.writable⟩

/-- The entry of an address is that of its page. -/
theorem lookup_page (h : a / 4096 = b / 4096) : lookup L k j a = lookup L k j b := by
  have hrange : (a < 0x40000000 ∨ 0x80000000 ≤ a) ↔ (b < 0x40000000 ∨ 0x80000000 ≤ b) := by omega
  have hthird : a / 2 ^ 30 = b / 2 ^ 30 := by omega
  have hsecond : a / 2 ^ 21 % 512 = b / 2 ^ 21 % 512 := by omega
  have hfirst : a / 2 ^ 12 % 512 = b / 2 ^ 12 % 512 := by omega
  unfold lookup pte
  rw [if_congr hrange rfl rfl, hthird, hsecond, hfirst]

theorem usable_page {p : Nat} (h : a / 4096 = b / 4096) (hu : Usable L k j a write p) : Usable L k j b write p :=
  ⟨(lookup_page h).symm.trans hu.entry, hu.present, hu.user, hu.memory, hu.writable⟩

/-- **What `user_range` accepts**, whatever the tables hold. -/
theorem userRange_iff : userRange L k j v n write = true ↔ (0x40000000 ≤ v ∧ v < 0x80000000 ∧ v + n ≤ 0x80000000) ∧
    ∀ a, v ≤ a → a < v + n → ∃ p, Usable L k j a write p := by
  unfold userRange
  by_cases hout : v < 0x40000000 ∨ 0x80000000 ≤ v ∨ 0x80000000 - v < n
  · rw [if_pos hout]
    constructor
    · exact nofun
    · rintro ⟨hin, -⟩
      omega
  have hin : 0x40000000 ≤ v ∧ v < 0x80000000 ∧ v + n ≤ 0x80000000 := by omega
  rw [if_neg hout]
  by_cases hn : n = 0
  · rw [if_pos hn]
    exact ⟨fun _ => ⟨hin, fun a _ _ => by omega⟩, fun _ => rfl⟩
  rw [if_neg hn, all_eq_true]
  constructor
  · refine fun h => ⟨hin, fun a hva hav => ?_⟩
    obtain ⟨p, hp⟩ := userPage_usable.1 (h (a / 4096 - v / 4096) (mem_range.2 (by omega)))
    exact ⟨p, usable_page (by omega) hp⟩
  · rintro ⟨-, h⟩ i hi
    have hi' := mem_range.1 hi
    -- A byte of the range in the page of this round.
    obtain ⟨p, hp⟩ := h (max v ((v / 4096 + i) * 4096)) (by omega) (by omega)
    exact userPage_usable.2 ⟨p, usable_page (by omega) hp⟩

theorem userRange_read (h : userRange L k j v n true = true) : userRange L k j v n false = true := by
  obtain ⟨hin, hbytes⟩ := userRange_iff.1 h
  refine userRange_iff.2 ⟨hin, fun a hva hav => ?_⟩
  obtain ⟨p, hp⟩ := hbytes a hva hav
  exact ⟨p, hp.entry, hp.present, hp.user, hp.memory, nofun⟩

/-! ## Frames -/

/-- Different pages have different frames. -/
def Space.Distinct (s : Space L) : Prop :=
  ∀ a b x y, s.mapped a = some x → s.mapped b = some y → x.target.address = y.target.address → a / 4096 = b / 4096

/-- Where the byte at an address is in memory. -/
def Space.phys (s : Space L) (a : Nat) : Nat :=
  match s.mapped a with
  | some x => x.target.address + a % 4096
  | none => 0

theorem phys_mapped (h : s.mapped a = some x) : s.phys a = x.target.address + a % 4096 := by
  unfold Space.phys
  rw [h]

/-- The bytes of a page are one after another. -/
theorem phys_add (h : s.mapped v = some x) {i : Nat} (hi : v % 4096 + i < 4096) :
    s.phys (v + i) = s.phys v + i := by
  have hnext : s.mapped (v + i) = some x := (mapped_page (by omega)).trans h
  rw [phys_mapped h, phys_mapped hnext]
  omega

theorem phys_inj (hd : s.Distinct) {y : Mapping L} (ha : s.mapped a = some x) (hb : s.mapped b = some y)
    (h : s.phys a = s.phys b) : a = b := by
  rw [phys_mapped ha, phys_mapped hb] at h
  obtain ⟨p, hp⟩ := x.target.aligned
  obtain ⟨q, hq⟩ := y.target.aligned
  have hpage := hd a b x y ha hb (by omega)
  omega

/-- A write to a page of the space is not one to its tables. -/
theorem represents_blit {m : Mem} (h : Represents m s) (hx : s.mapped v = some x) {o : Nat}
    (ho : o + bytes.length ≤ 4096) : Represents (blit m (x.target.address + o) bytes) s := by
  refine h.congr fun r i hr => eqOn_blit ?_
  by_cases hpage : ∃ i', x.target = .page i'
  · obtain ⟨i', ht⟩ := hpage
    have hne : i ≠ i' := by
      rintro rfl
      have hdata := Space.role_mapped hx ht
      rw [Space.role_table hr] at hdata
      cases hdata
      cases hr
    have hdisjoint := poolPage_disjoint (L := L) hne
    rw [ht]
    simp only [Target.address]
    omega
  · have hout := Target.outside fun i' ht => hpage ⟨i', ht⟩
    unfold poolPage
    have := i.isLt
    omega

/-! ## The copies -/

theorem chunk_pos (v : Nat) {n : Nat} (h : n ≠ 0) : 0 < chunk v n := by
  unfold chunk
  omega

/-- `copy_in` goes page by page, and gets the bytes in order. -/
theorem copyInLoop_eq (hcr3 : (k.tasks j).cr3 = poolPage L s.top) (h : Represents k.mem s) :
    ∀ {rounds v n : Nat}, n ≤ rounds →
    s.Covers v n write → copyInLoop L k j rounds v n = (range n).map fun i => k.mem (s.phys (v + i))
  | 0, v, n, hn, _ => by
    obtain rfl : n = 0 := by omega
    rfl
  | rounds + 1, v, n, hn, hcover => by
    rw [copyInLoop]
    by_cases h0 : n = 0
    · rw [if_pos h0, h0]
      rfl
    obtain ⟨x, hx, -⟩ := hcover v (Nat.le_refl v) (by omega)
    have hpos := chunk_pos v h0
    obtain ⟨hpage, hle⟩ := chunk_le v n
    have hphys : userPhys L k j v = s.phys v := (userPhys_eq hcr3 h hx).trans (phys_mapped hx).symm
    have hfirst : slice k.mem (s.phys v) (chunk v n) = (range (chunk v n)).map fun i => k.mem (s.phys (v + i)) := by
      refine map_congr_left fun i hi => ?_
      have := mem_range.1 hi
      rw [phys_add hx (by omega)]
    have hfew : n - chunk v n ≤ rounds := by omega
    have hrest := copyInLoop_eq hcr3 h hfew (hcover.add hle)
    rw [if_neg h0, hphys, hfirst, hrest]
    have hsplit : range n = range (chunk v n) ++ (range (n - chunk v n)).map (chunk v n + ·) := by
      rw [← range_add]
      congr 1
      omega
    rw [hsplit, map_append, map_map]
    simp only [Function.comp_def, Nat.add_assoc]

/-- The memory `m'` is `m` with these bytes at an address of the space. -/
structure Put (s : Space L) (m : Mem) (v : Nat) (bytes : List UInt8) (m' : Mem) : Prop where
  tables : Represents m' s
  put : ∀ i < bytes.length, m' (s.phys (v + i)) = bytes.getD i 0
  rest : ∀ p, (∀ i < bytes.length, p ≠ s.phys (v + i)) → m' p = m p

/-- A part in one page, and then the others. -/
theorem Put.cons (hd : s.Distinct) {m m' : Mem} {c : Nat} (hcover : s.Covers v bytes.length write)
    (hc : v % 4096 + c ≤ 4096 ∧ c ≤ bytes.length) (hpos : 0 < c)
    (h : Put s (blit m (s.phys v) (bytes.take c)) (v + c) (bytes.drop c) m') : Put s m v bytes m' := by
  obtain ⟨x, hx, -⟩ := hcover v (Nat.le_refl v) (by omega)
  have hmapped : ∀ i < bytes.length, ∃ y, s.mapped (v + i) = some y := fun i hi => by
    obtain ⟨y, hy, -⟩ := hcover (v + i) (by omega) (by omega)
    exact ⟨y, hy⟩
  have hlen : (bytes.take c).length = c := length_take_of_le hc.2
  have hdrop : (bytes.drop c).length = bytes.length - c := length_drop
  refine ⟨h.tables, fun i hi => ?_, fun p hp => ?_⟩
  · by_cases hic : i < c
    · have hfirst : m' (s.phys (v + i)) = blit m (s.phys v) (bytes.take c) (s.phys (v + i)) := by
        refine h.rest _ fun i' hi' heq => ?_
        obtain ⟨y, hy⟩ := hmapped i hi
        obtain ⟨z, hz⟩ := hmapped (c + i') (by omega)
        rw [Nat.add_assoc] at heq
        have := phys_inj hd hy hz heq
        omega
      rw [hfirst, phys_add hx (by omega), blit_of_mem (by omega)]
      simp [getD_eq_getElem?_getD, hic]
    · have hlater := h.put (i - c) (by omega)
      rw [Nat.add_assoc, Nat.add_sub_cancel' (by omega)] at hlater
      rw [hlater]
      simp [getD_eq_getElem?_getD, getElem?_drop, Nat.add_sub_cancel' (Nat.le_of_not_lt hic)]
  · rw [h.rest p fun i hi => by
      rw [Nat.add_assoc]
      exact hp (c + i) (by omega)]
    apply blit_of_lt
    rw [hlen]
    by_contra hmem
    have hat := hp (p - s.phys v) (by omega)
    rw [phys_add hx (by omega)] at hat
    omega

/-- `copy_out` goes page by page, and changes the bytes of the range. -/
theorem copyOutLoop_spec (hd : s.Distinct) (rounds : Nat) (hcr3 : (k.tasks j).cr3 = poolPage L s.top)
    (h : Represents k.mem s) (hn : bytes.length ≤ rounds) (hcover : s.Covers v bytes.length write) :
    ∃ m, copyOutLoop L j rounds k v bytes = { k with mem := m } ∧ Put s k.mem v bytes m := by
  induction rounds generalizing v k bytes with
  | zero =>
    obtain rfl := eq_nil_of_length_eq_zero (Nat.le_zero.1 hn)
    exact ⟨k.mem, rfl, h, nofun, fun _ _ => rfl⟩
  | succ rounds ih =>
    rw [copyOutLoop]
    by_cases h0 : bytes = []
    · rw [if_pos h0, h0]
      exact ⟨k.mem, rfl, h, nofun, fun _ _ => rfl⟩
    have hlen : bytes.length ≠ 0 := fun h => h0 (eq_nil_of_length_eq_zero h)
    obtain ⟨x, hx, -⟩ := hcover v (Nat.le_refl v) (by omega)
    have hpos := chunk_pos v hlen
    have hchunk := chunk_le v bytes.length
    have hphys : userPhys L k j v = s.phys v := (userPhys_eq hcr3 h hx).trans (phys_mapped hx).symm
    have htables : Represents (blit k.mem (s.phys v) (bytes.take (chunk v bytes.length))) s := by
      rw [phys_mapped hx]
      refine represents_blit h hx ?_
      rw [length_take_of_le hchunk.2]
      exact hchunk.1
    have hdrop : (bytes.drop (chunk v bytes.length)).length = bytes.length - chunk v bytes.length := length_drop
    have hfew : (bytes.drop (chunk v bytes.length)).length ≤ rounds := by omega
    have hcover' := hcover.add hchunk.2
    rw [← hdrop] at hcover'
    rw [if_neg h0, hphys]
    obtain ⟨m, hrun, hput⟩ := @ih { k with mem := blit k.mem (s.phys v) (bytes.take (chunk v bytes.length)) }
      (v + chunk v bytes.length) (bytes.drop (chunk v bytes.length)) hcr3 htables hfew hcover'
    exact ⟨m, hrun, Put.cons hd hcover hchunk hpos hput⟩

/-! ## What the task sees -/

/-- The byte that the task reads at an address, by the processor's walk. -/
def userByte (k : Kernel) (j : TaskId) (a : Nat) : Option UInt8 :=
  (walk k.mem (k.tasks j).cr3 a).map fun leaf => k.mem (leaf.frame + a % 4096)

theorem userByte_eq (hcr3 : (k.tasks j).cr3 = poolPage L s.top) (h : Represents k.mem s) (ha : a < 2 ^ 48) :
    userByte k j a = (s.mapped a).map fun _ => k.mem (s.phys a) := by
  unfold userByte
  rw [hcr3, walk_eq h, Nat.mod_eq_of_lt ha]
  cases hx : s.mapped a with
  | none => rfl
  | some x =>
    rw [phys_mapped hx]
    rfl

/-- What `copy_out` leaves of a copy to `v`. -/
structure Stored (L : Layout) (k : Kernel) (j : TaskId) (v : Nat) (bytes : List UInt8) (k' : Kernel) : Prop where
  /-- Only memory is changed. -/
  only : k' = { k with mem := k'.mem }
  /-- The task sees the bytes in the range, and what it saw before everywhere else. -/
  written : ∀ i < bytes.length, userByte k' j (v + i) = bytes[i]?
  kept : ∀ a < 2 ^ 48, ¬ (v ≤ a ∧ a < v + bytes.length) → userByte k' j a = userByte k j a
  /-- No other byte of memory is changed. -/
  memory : ∀ p, (∀ i < bytes.length, ∀ leaf, walk k.mem (k.tasks j).cr3 (v + i) = some leaf →
    p ≠ leaf.frame + (v + i) % 4096) →
    k'.mem p = k.mem p
  /-- The tables are as they were. -/
  tables : ∀ a, walk k'.mem (k'.tasks j).cr3 a = walk k.mem (k.tasks j).cr3 a
  /-- Copying the range back gives what was written. -/
  back : copyIn L k' j v bytes.length = some bytes

/-- The check of user ranges and the copies of a task are exact. -/
structure CopiesExact (L : Layout) (k : Kernel) (j : TaskId) : Prop where
  /-- The scan ends. -/
  scan : ∀ v n write rounds, 0x40000 ≤ rounds → scanRange L k j rounds v n write = some (userRange L k j v n write)
  /-- The range is one of the user half, and the page of every byte can be used. -/
  range : ∀ v n write, userRange L k j v n write = true ↔ (0x40000000 ≤ v ∧ v < 0x80000000 ∧ v + n ≤ 0x80000000) ∧
    ∀ a, v ≤ a → a < v + n → ∃ p, Usable L k j a write p
  /-- Such a page is one that the processor lets the task use, at the same frame. -/
  seen : ∀ a write p, Usable L k j a write p →
    ∃ leaf, walk k.mem (k.tasks j).cr3 a = some leaf ∧ leaf.frame = p &&& entryMask ∧ (write = true → leaf.writable = true)
  /-- `copy_in` gets the bytes that the task sees. -/
  read : ∀ v n, userRange L k j v n false = true →
    ∃ bytes, copyIn L k j v n = some bytes ∧ bytes.length = n ∧ ∀ i < n, userByte k j (v + i) = bytes[i]?
  /-- `copy_out` changes them. -/
  stored : ∀ v bytes, userRange L k j v bytes.length true = true →
    ∃ k', copyOut L k j v bytes = some k' ∧ Stored L k j v bytes k'
  /-- Otherwise nothing is copied. -/
  refusedIn : ∀ v n, userRange L k j v n false = false → copyIn L k j v n = none
  refusedOut : ∀ v bytes, userRange L k j v bytes.length true = false → copyOut L k j v bytes = none

section Exact

variable (hcr3 : (k.tasks j).cr3 = poolPage L s.top) (h : Represents k.mem s)
include hcr3 h

theorem usable_seen {a p : Nat} (hu : Usable L k j a write p) :
    ∃ leaf, walk k.mem (k.tasks j).cr3 a = some leaf ∧ leaf.frame = p &&& entryMask ∧
      (write = true → leaf.writable = true) := by
  obtain ⟨x, hx, -, hwrite⟩ := (userPage_iff hcr3 h).1 (userPage_usable.2 ⟨p, hu⟩)
  have hentry := lookup_mapped hcr3 h hx
  rw [hu.entry] at hentry
  obtain rfl := Option.some.inj hentry
  have hlow : a < 2 ^ 48 := by
    unfold Space.mapped at hx
    split at hx
    · omega
    · cases hx
  refine ⟨x.leaf, ?_, (x.entry_and).symm, fun hw => ?_⟩
  · rw [hcr3, walk_eq h, Nat.mod_eq_of_lt hlow, hx]
    rfl
  · exact decide_eq_true (hwrite hw)

/-- The bytes of a range that a copy may go to are mapped, and below the top of the user half. -/
theorem userRange_mapped (hu : userRange L k j v n write = true) {i : Nat} (hi : i < n) :
    v + i < 2 ^ 48 ∧ ∃ x, s.mapped (v + i) = some x := by
  obtain ⟨hin, -⟩ := userRange_iff.1 hu
  obtain ⟨x, hx, -⟩ := covers_of_userRange hcr3 h hu (v + i) (by omega) (by omega)
  exact ⟨by omega, x, hx⟩

theorem copyIn_eq (hu : userRange L k j v n false = true) :
    copyIn L k j v n = some ((range n).map fun i => k.mem (s.phys (v + i))) := by
  unfold copyIn
  rw [if_pos hu, copyInLoop_eq hcr3 h (Nat.le_refl n) (covers_of_userRange hcr3 h hu)]

/-- **What a copy to the task leaves.** -/
theorem copyOut_stored (hd : s.Distinct) {bytes : List UInt8} (hu : userRange L k j v bytes.length true = true) :
    ∃ k', copyOut L k j v bytes = some k' ∧ Stored L k j v bytes k' := by
  obtain ⟨m, hrun, hput⟩ := copyOutLoop_spec hd bytes.length hcr3 h (Nat.le_refl _) (covers_of_userRange hcr3 h hu)
  have hcopy : copyOut L k j v bytes = some { k with mem := m } := by
    unfold copyOut
    rw [if_pos hu, hrun]
  have hcr3' : (({ k with mem := m } : Kernel).tasks j).cr3 = poolPage L s.top := hcr3
  have hmapped : ∀ {i}, i < bytes.length → v + i < 2 ^ 48 ∧ ∃ x, s.mapped (v + i) = some x := userRange_mapped hcr3 h hu
  refine ⟨_, hcopy, rfl, fun i hi => ?_, fun a ha hout => ?_, fun p hp => ?_, fun a => ?_, ?_⟩
  · obtain ⟨hlow, x, hx⟩ := hmapped hi
    rw [userByte_eq hcr3' hput.tables hlow, hx, Option.map_some, getElem?_eq_getElem hi]
    exact congrArg some ((hput.put i hi).trans (by simp [hi]))
  · rw [userByte_eq hcr3' hput.tables ha, userByte_eq hcr3 h ha]
    cases hx : s.mapped a with
    | none => rfl
    | some x =>
      refine congrArg some (hput.rest _ fun i hi heq => hout ?_)
      obtain ⟨-, y, hy⟩ := hmapped hi
      have := phys_inj hd hx hy heq
      omega
  · refine hput.rest p fun i hi => ?_
    obtain ⟨hlow, x, hx⟩ := hmapped hi
    have hwalk : walk k.mem (k.tasks j).cr3 (v + i) = some x.leaf := by
      rw [hcr3, walk_eq h, Nat.mod_eq_of_lt hlow, hx]
      rfl
    rw [phys_mapped hx]
    exact hp i hi x.leaf hwalk
  · rw [hcr3, walk_eq h]
    exact walk_eq hput.tables a
  · have hread : userRange L { k with mem := m } j v bytes.length false = true := by
      obtain ⟨hin, hbytes⟩ := userRange_iff.1 (userRange_read hu)
      refine userRange_iff.2 ⟨hin, fun a hva hav => ?_⟩
      obtain ⟨p, hp⟩ := hbytes a hva hav
      have hsame : lookup L { k with mem := m } j a = lookup L k j a := by rw [lookup_eq hcr3' hput.tables, lookup_eq hcr3 h]
      exact ⟨p, hsame.trans hp.entry, hp.present, hp.user, hp.memory, hp.writable⟩
    rw [copyIn_eq hcr3' hput.tables hread]
    refine congrArg some (ext_getElem (by simp) fun i hi hi' => ?_)
    rw [getElem_map, getElem_range]
    exact (hput.put i hi').trans (by simp [hi'])

/-- **User ranges and copies are exact** for a task whose pages have frames of their own, over any number of pages. -/
theorem user_copies_exact (hd : s.Distinct) : CopiesExact L k j where
  scan v n write rounds hrounds := scanRange_eq L k j hrounds v n write
  range v n write := userRange_iff
  seen a write p hu := usable_seen hcr3 h hu
  read v n hu := by
    refine ⟨_, copyIn_eq hcr3 h hu, by simp, fun i hi => ?_⟩
    obtain ⟨hlow, x, hx⟩ := userRange_mapped hcr3 h hu hi
    rw [userByte_eq hcr3 h hlow, hx]
    simp [hi]
  stored v bytes hu := copyOut_stored hcr3 h hd hu
  refusedIn v n hu := by
    unfold copyIn
    rw [hu]
    rfl
  refusedOut v bytes hu := by
    unfold copyOut
    rw [hu]
    rfl

end Exact

end Copies

/-! ## Two pages, with their frames in the other order -/

def samplePage (i : PageId) : Mapping sampleLayout := ⟨.page i, .write, false, fun _ h => nomatch h⟩

/-- The tables of the sample, with no page mapped. -/
def sampleTables : Space sampleLayout :=
  ((((Space.fresh 0 1 (by decide) false).setSecond 2 rfl rfl).setFirst 3 (secondIndex 0x40000000) rfl
    (by decide) rfl).claim 4 rfl).claim
    5 rfl

def sampleFirst : Space sampleLayout :=
  sampleTables.setLeaf (secondIndex 0x40000000) (firstIndex 0x40000000) (samplePage 5) (by decide) (by rintro i ⟨⟩; rfl)

def sampleSpace : Space sampleLayout :=
  sampleFirst.setLeaf (secondIndex 0x40001000) (firstIndex 0x40001000) (samplePage 4) (by decide) (by rintro i ⟨⟩; rfl)

/-- The entries that lead to the two pages. -/
def sampleMemory : Mem :=
  let page i := poolPage sampleLayout i
  let m := setEntry (setEntry zeros (page 0) 0 (page 1 ||| 7)) (page 1) 0 (sampleLayout.kernelPd ||| 3)
  let m := setEntry (setEntry m (page 1) 1 (page 2 ||| 7)) (page 2) (secondIndex 0x40000000) (page 3 ||| 7)
  setEntry (setEntry m (page 3) (firstIndex 0x40000000) (samplePage 5).entry) (page 3) (firstIndex 0x40001000)
    (samplePage 4).entry

theorem entry_zeros (table n : Nat) : entry zeros table n = 0 := by
  have hslice : slice zeros (table + 8 * n) 8 = replicate 8 0 := by simp [slice, zeros]
  unfold entry load
  rw [hslice]
  rfl

/-- An entry of a page that no write of the sample went to. -/
theorem entry_untouched {m : Mem} {i i' : PageId} {n : Fin 512} {v : Nat}
    (h : ∀ n' : Fin 512, entry m (poolPage sampleLayout i') n' = 0)
    (hi : i ≠ i') : ∀ n' : Fin 512, entry (setEntry m (poolPage sampleLayout i) n v) (poolPage sampleLayout i') n' = 0 :=
  fun n' => (entry_setEntry_of_ne m v i i' n n' (.inl hi)).trans (h n')

theorem represents_sample : Represents sampleMemory sampleSpace := by
  have hzero : ∀ (i : PageId) (n : Fin 512), entry zeros (poolPage sampleLayout i) n = 0 := fun i n => entry_zeros _ n
  have htwo : ∀ i : PageId, 0 ≠ i → 1 ≠ i → ∀ n : Fin 512, entry (setEntry (setEntry zeros (poolPage sampleLayout 0) 0
      (poolPage sampleLayout 1 ||| 7)) (poolPage sampleLayout 1) 0 (sampleLayout.kernelPd ||| 3))
        (poolPage sampleLayout i) n = 0 :=
    fun i h0 h1 => entry_untouched (n := 0) (entry_untouched (n := 0) (hzero i) h0) h1
  have hfresh := Space.represents_fresh (L := sampleLayout) (by decide : (0 : PageId) ≠ 1) false (hzero 0) (hzero 1)
  have hsecond := Space.represents_setSecond (i := 2) hfresh rfl rfl (htwo 2 (by decide) (by decide))
  have hfirst := Space.represents_setFirst (i := 3) (b := secondIndex 0x40000000) hsecond rfl rfl rfl
    (entry_untouched (n := 1) (htwo 3 (by decide) (by decide)) (by decide))
  have hclaimed := Space.represents_claim (i := 5) (Space.represents_claim (i := 4) hfirst rfl) rfl
  have htable : sampleTables.first (secondIndex 0x40000000) = some 3 := rfl
  have htable' : sampleFirst.first (secondIndex 0x40001000) = some 3 := rfl
  have hleaf := Space.represents_setLeaf (c := firstIndex 0x40000000) (x := samplePage 5) hclaimed htable
    (by rintro i ⟨⟩; rfl)
  exact Space.represents_setLeaf (s := sampleFirst) (c := firstIndex 0x40001000) (x := samplePage 4) hleaf htable'
    (by rintro i ⟨⟩; rfl)

/-- A task with these tables. -/
def sampleTask : Kernel :=
  { sampleStart.setTask 0 { sampleStart.tasks 0 with cr3 := poolPage sampleLayout 0 } with mem := sampleMemory }

theorem sampleSpace_mapped (a : Nat) : sampleSpace.mapped a =
    if a / 4096 = 0x40001 then some (samplePage 4) else if a / 4096 = 0x40000 then some (samplePage 5) else none := by
  unfold sampleSpace
  rw [Space.mapped_setLeaf (by decide)]
  unfold sampleFirst
  rw [Space.mapped_setLeaf (by decide)]
  have hnone : sampleTables.mapped a = none := by
    unfold Space.mapped
    split <;> rfl
  rw [hnone]

theorem sampleSpace_distinct : sampleSpace.Distinct := by
  intro a b x y ha hb haddress
  rw [sampleSpace_mapped] at ha hb
  have hapart : poolPage sampleLayout 4 ≠ poolPage sampleLayout 5 := fun h => absurd (poolPage_inj h) (by decide)
  split_ifs at ha hb <;> cases ha <;> cases hb
  · omega
  · exact absurd haddress hapart
  · exact absurd haddress.symm hapart
  · omega

theorem user_copies_exact_sample : CopiesExact sampleLayout sampleTask 0 ∧
    userRange sampleLayout sampleTask 0 0x40000ffc 8 true = true :=
  ⟨user_copies_exact rfl represents_sample sampleSpace_distinct, by decide +kernel⟩

end SpiritFox.Core
