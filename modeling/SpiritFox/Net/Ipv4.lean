import SpiritFox.Lib.Checks
import SpiritFox.Lib.Numeral
import SpiritFox.Abi

/-!
# IPv4 addresses as text

`sf_net_parse_ipv4` and `sf_net_format_ipv4` of `services/net_proto.c`. An address is accepted when it is four groups of
digits with dots between them (`IsAddress`), and every address is read back from its text (`ipv4_round_trip`).
-/

namespace SpiritFox.Net

open Checks Numeral

/-! ## The code -/

/-- The inner loop of `sf_net_parse_ipv4`: the value and the count of digits so far. -/
def ipv4Digits : Nat → Nat → List UInt8 → Except SfError (Nat × Nat × List UInt8)
  | value, digits, [] => .ok (value, digits, [])
  | value, digits, c :: text =>
    if 48 ≤ c ∧ c ≤ 57 then
      if digits = 3 then .error .invalid
      else if 255 < value * 10 + (c - 48).toNat then .error .invalid
      else ipv4Digits (value * 10 + (c - 48).toNat) (digits + 1) text
    else .ok (value, digits, c :: text)

/-- The dot behind every part but the last. -/
def ipv4Dot (left : Nat) (text : List UInt8) : Except SfError (List UInt8) :=
  if left = 0 then .ok text
  else match text with
    | 46 :: text => .ok text
    | _ => .error .invalid

/-- The outer loop, with the number of parts that are left. -/
def ipv4Parts : Nat → Nat → List UInt8 → Except SfError (Nat × List UInt8)
  | 0, ip, text => .ok (ip, text)
  | left + 1, ip, text =>
    if ¬ text.head?.any isDigit then throw .invalid
    else do
      -- `value`, `digits`, and the text behind them
      let r ← ipv4Digits 0 0 text
      if r.2.1 = 0 then throw .invalid
      else do
        let text ← ipv4Dot left r.2.2
        ipv4Parts left ((ip <<< 8 ||| r.1) % 2 ^ 32) text

/-- `sf_net_parse_ipv4` on the text before the terminator; `*out` is assigned at the end. -/
def sfNetParseIpv4 (text : List UInt8) (out : Nat) : Except SfError Unit × Nat :=
  match ipv4Parts 4 0 text with
  | .error e => (.error e, out)
  | .ok (ip, rest) => if rest ≠ [] then (.error .invalid, out) else (.ok (), ip)

/-- The `do` loop of `sf_net_format_ipv4`: the digits from the last one on. -/
def ipv4Reversed (value : Nat) : List UInt8 :=
  UInt8.ofNat (48 + value % 10) :: if value / 10 = 0 then [] else ipv4Reversed (value / 10)
termination_by value
decreasing_by omega

/-- `sf_net_format_ipv4`: the characters before the terminator. -/
def sfNetFormatIpv4 (ip : UInt32) : List UInt8 :=
  [24, 16, 8, 0].flatMap fun shift : Nat =>
    (ipv4Reversed ((ip.toNat >>> shift) % 256)).reverse ++ if shift = 0 then [] else [46]

/-! ## Groups -/

/-- One to three digits whose value is at most 255. -/
structure IsGroup (ds : List UInt8) (n : Nat) : Prop where
  digits : ∀ c ∈ ds, isDigit c = true
  length : 1 ≤ ds.length ∧ ds.length ≤ 3
  value : ofText ds = n
  small : n ≤ 255

/-- Four groups with single dots between them. -/
def IsAddress (text : List UInt8) (ip : Nat) : Prop :=
  ∃ a b c d i j k l, text = a ++ 46 :: (b ++ 46 :: (c ++ 46 :: d)) ∧ IsGroup a i ∧ IsGroup b j ∧ IsGroup c k ∧ IsGroup d l ∧
    ip = ((i * 256 + j) * 256 + k) * 256 + l

section Groups

variable {text rest ds : List UInt8} {value digits n ip : Nat}

theorem ipv4Digits_eq (hvalue : value ≤ 255) (hdigits : digits ≤ 3) (text : List UInt8) : ipv4Digits value digits text =
    if digits + (text.takeWhile isDigit).length ≤ 3 ∧ readOn 10 value ((text.takeWhile isDigit).map digitOf) ≤ 255 then
      .ok (readOn 10 value ((text.takeWhile isDigit).map digitOf), digits + (text.takeWhile isDigit).length,
        text.dropWhile isDigit)
    else .error .invalid := by
  induction text generalizing value digits with
  | nil => exact (if_pos ⟨hdigits, hvalue⟩).symm
  | cons c text ih =>
    unfold ipv4Digits
    by_cases hc : isDigit c = true
    · rw [if_pos (isDigit_iff.1 hc), List.takeWhile_cons_of_pos hc, List.dropWhile_cons_of_pos hc, List.length_cons,
        ← Nat.add_assoc, Nat.add_right_comm, List.map_cons, readOn_cons]
      change (if digits = 3 then _ else if 255 < value * 10 + digitOf c then _ else
        ipv4Digits (value * 10 + digitOf c) (digits + 1) text) = _
      have hle : value * 10 + digitOf c ≤ readOn 10 (value * 10 + digitOf c) ((text.takeWhile isDigit).map digitOf) :=
        le_readOn (by decide)
      split
      · rw [if_neg (by omega)]
      split
      · rw [if_neg (by omega)]
      · exact ih (by omega) (by omega)
    · rw [if_neg (mt isDigit_iff.2 hc), List.takeWhile_cons_of_neg hc, List.dropWhile_cons_of_neg hc]
      exact (if_pos ⟨hdigits, hvalue⟩).symm

theorem ipv4Digits_eq_ok : ipv4Digits 0 0 text = .ok (n, digits, rest) ∧ digits ≠ 0 ↔
    ∃ ds, text = ds ++ rest ∧ (IsGroup ds n ∧ digits = ds.length) ∧ ∀ c ∈ rest.head?, isDigit c = false := by
  rw [ipv4Digits_eq (Nat.zero_le _) (Nat.zero_le _)]
  constructor
  · rintro ⟨h, hdigits⟩
    split at h
    · rename_i hok
      cases h
      rw [Nat.zero_add] at *
      exact ⟨_, List.takeWhile_append_dropWhile.symm,
        ⟨⟨fun c hc => List.mem_takeWhile_imp hc, ⟨Nat.pos_of_ne_zero hdigits, hok.1⟩, rfl, hok.2⟩, rfl⟩, head_dropWhile _⟩
    · cases h
  · rintro ⟨ds, rfl, ⟨hg, rfl⟩, hrest⟩
    obtain ⟨htake, hdrop⟩ := span_append hg.digits hrest
    have hvalue : readOn 10 0 (ds.map digitOf) = n := hg.value
    rw [htake, hdrop, hvalue, Nat.zero_add, if_pos ⟨hg.length.2, hg.small⟩]
    exact ⟨rfl, Nat.ne_of_gt hg.length.1⟩

/-- What stands behind a part. -/
def dot (left : Nat) : List UInt8 := if left = 0 then [] else [46]

theorem ipv4Dot_eq_ok {left : Nat} : ipv4Dot left text = .ok rest ↔ text = dot left ++ rest := by
  unfold ipv4Dot dot
  split
  · simp
  split
  · simp
  · rename_i h
    simp only [reduceCtorEq, false_iff]
    exact h rest

/-- One round of the outer loop reads one group and the dot behind it. -/
theorem ipv4Parts_succ_eq_ok {left : Nat} {r : Nat × List UInt8} : ipv4Parts (left + 1) ip text = .ok r ↔
    ∃ ds n rest, text = ds ++ (dot left ++ rest) ∧ IsGroup ds n ∧ (∀ c ∈ (dot left ++ rest).head?, isDigit c = false) ∧
      ipv4Parts left ((ip <<< 8 ||| n) % 2 ^ 32) rest = .ok r := by
  rw [ipv4Parts]
  simp only [guard_eq_ok, bind_eq_ok, Prod.exists, ipv4Dot_eq_ok]
  constructor
  · rintro ⟨-, n, digits, _, hdigits, hzero, rest, rfl, h⟩
    obtain ⟨ds, rfl, ⟨hg, -⟩, hrest⟩ := ipv4Digits_eq_ok.1 ⟨hdigits, hzero⟩
    exact ⟨ds, n, rest, rfl, hg, hrest, h⟩
  · rintro ⟨ds, n, rest, rfl, hg, hrest, h⟩
    obtain ⟨hdigits, hzero⟩ := ipv4Digits_eq_ok.2 ⟨ds, rfl, ⟨hg, rfl⟩, hrest⟩
    refine ⟨fun hnone => hnone ?_, n, ds.length, _, hdigits, hzero, rest, rfl, h⟩
    obtain ⟨c, ds, rfl⟩ := List.exists_cons_of_length_pos hg.length.1
    simp [hg.digits c List.mem_cons_self]

theorem push_eq (hip : ip < 2 ^ 24) (hn : n ≤ 255) : (ip <<< 8 ||| n) % 2 ^ 32 = ip * 256 + n := by
  rw [← Nat.shiftLeft_add_eq_or_of_lt (by omega), Nat.shiftLeft_eq]
  omega

/-- **A text is an address exactly when it is four groups.** -/
theorem sfNetParseIpv4_eq_ok {out : Nat} : sfNetParseIpv4 text out = (.ok (), ip) ↔ IsAddress text ip := by
  have hparts : sfNetParseIpv4 text out = (.ok (), ip) ↔ ipv4Parts 4 0 text = .ok (ip, []) := by
    unfold sfNetParseIpv4
    rcases ipv4Parts 4 0 text with e | ⟨ip', rest⟩
    · simp
    · by_cases hrest : rest = [] <;> simp [hrest]
  rw [hparts]
  have hdot : ∀ rest : List UInt8, ∀ c ∈ ([46] ++ rest).head?, isDigit c = false := by simp [isDigit]
  have hzero : ∀ ip' rest, ipv4Parts 0 ip' rest = .ok (ip, []) ↔ ip' = ip ∧ rest = [] := by simp [ipv4Parts]
  simp only [ipv4Parts_succ_eq_ok, hzero]
  constructor
  · rintro ⟨a, i, _, rfl, ha, -, b, j, _, rfl, hb, -, c, k, _, rfl, hc, -, d, l, _, rfl, hd, -, rfl, rfl⟩
    have hi := ha.small
    have hj := hb.small
    have hk := hc.small
    refine ⟨a, b, c, d, i, j, k, l, ?_, ha, hb, hc, hd, ?_⟩
    · simp [dot]
    · rw [push_eq (by decide) hi, push_eq (by omega) hj, push_eq (by omega) hk, push_eq (by omega) hd.small, Nat.zero_mul,
        Nat.zero_add]
  · rintro ⟨a, b, c, d, i, j, k, l, rfl, ha, hb, hc, hd, rfl⟩
    have hi := ha.small
    have hj := hb.small
    have hk := hc.small
    refine ⟨a, i, _, rfl, ha, hdot _, b, j, _, rfl, hb, hdot _, c, k, _, rfl, hc, hdot _, d, l, [], ?_, hd,
      by simp [dot], ?_⟩
    · simp [dot]
    · rw [push_eq (by decide) hi, push_eq (by omega) hj, push_eq (by omega) hk, push_eq (by omega) hd.small, Nat.zero_mul,
        Nat.zero_add]
      exact ⟨rfl, rfl⟩

end Groups

/-! ## Texts of addresses -/

theorem reverse_ipv4Reversed (n : Nat) : (ipv4Reversed n).reverse = decimal n := by
  unfold decimal
  induction n using digit_induction (b := 10) (by decide) with
  | hlt n h =>
    rw [ipv4Reversed, write_of_lt h, if_pos (by omega), Nat.mod_eq_of_lt h]
    rfl
  | hle n h ih =>
    rw [ipv4Reversed, if_neg (by omega), List.reverse_cons, ih, write_of_le (by decide) h, List.map_append]
    rfl

theorem isGroup_decimal {n : Nat} (h : n ≤ 255) : IsGroup (decimal n) n where
  digits := (isNumeral_decimal n).digits
  length := by
    have hle := length_write_le (b := 10) (n := n) (k := 2) (by decide) (by omega)
    exact ⟨List.length_pos_iff.2 (isNumeral_decimal n).nonempty, by simpa [decimal] using hle⟩
  value := ofText_decimal n
  small := h

theorem sfNetFormatIpv4_eq (ip : UInt32) : sfNetFormatIpv4 ip = decimal (ip.toNat / 2 ^ 24 % 256) ++
    46 :: (decimal (ip.toNat / 2 ^ 16 % 256) ++ 46 :: (decimal (ip.toNat / 2 ^ 8 % 256) ++
      46 :: decimal (ip.toNat % 256))) := by
  simp [sfNetFormatIpv4, reverse_ipv4Reversed, Nat.shiftRight_eq_div_pow]

structure Ipv4Exact : Prop where
  /-- The text and its terminator fit the buffer. -/
  fits : ∀ ip, (sfNetFormatIpv4 ip).length + 1 ≤ 16
  read_back : ∀ ip out, sfNetParseIpv4 (sfNetFormatIpv4 ip) out = (.ok (), ip.toNat)
  accepted : ∀ text out ip, sfNetParseIpv4 text out = (.ok (), ip) ↔ IsAddress text ip
  unchanged : ∀ text out e ip, sfNetParseIpv4 text out = (.error e, ip) → ip = out

/-- **Addresses and their texts correspond.** -/
theorem ipv4_round_trip : Ipv4Exact where
  fits ip := by
    have hgroup : ∀ n, (decimal (n % 256)).length ≤ 3 := fun n => (isGroup_decimal (by omega)).length.2
    have h₁ := hgroup (ip.toNat / 2 ^ 24)
    have h₂ := hgroup (ip.toNat / 2 ^ 16)
    have h₃ := hgroup (ip.toNat / 2 ^ 8)
    have h₄ := hgroup ip.toNat
    rw [sfNetFormatIpv4_eq]
    simp only [List.length_append, List.length_cons]
    omega
  read_back ip out := by
    have hgroup : ∀ n, IsGroup (decimal (n % 256)) (n % 256) := fun n => isGroup_decimal (by omega)
    have hlt := ip.toNat_lt
    rw [sfNetFormatIpv4_eq]
    refine sfNetParseIpv4_eq_ok.2 ⟨_, _, _, _, _, _, _, _, rfl, hgroup _, hgroup _, hgroup _, hgroup _, ?_⟩
    omega
  accepted _ _ _ := sfNetParseIpv4_eq_ok
  unchanged text out e ip h := by
    unfold sfNetParseIpv4 at h
    split at h
    · exact (congrArg Prod.snd h).symm
    split at h
    · exact (congrArg Prod.snd h).symm
    · cases h

end SpiritFox.Net
