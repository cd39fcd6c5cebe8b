import Mathlib.Data.List.Lex
import Mathlib.Data.Prod.Lex
import Mathlib.Tactic.Ring

/-!
# Deterministic CBOR

Trees of CBOR data items without tags and floating point, and their deterministic encoding: every head in its
shortest form, and the entries of a map in the order of their encoded keys, shorter keys first. `Fits L l v` says
that a tree keeps to the limits `L` and is nested at most `l` levels; keys are distinct for a map in any order, and
increasing for a map in the order of its encoding. `Encodes` is encoding as such, with longer heads and entries in
any order. The main results are `encode_inj`, for one tree of each encoding, and `length_encode_le`, for the
shortest encoding of each tree.
-/

namespace Cbor

open List

variable {n m l : Nat} {r s : List UInt8}

inductive Value where
  | null
  | bool (b : Bool)
  | int (i : Int)
  | bytes (b : List UInt8)
  | text (t : List Char)
  | list (vs : List Value)
  | map (es : List (List Char × Value))

/-! ## Encoding -/

/-- The low `k` bytes of `n`, most significant first. -/
def be : Nat → Nat → List UInt8
  | 0, _ => []
  | k + 1, n => UInt8.ofNat (n / 256 ^ k) :: be k n

/-- The bytes that the argument of a head takes after its first byte. -/
def width (n : Nat) : Nat :=
  if n < 24 then 0 else if n < 2 ^ 8 then 1 else if n < 2 ^ 16 then 2 else if n < 2 ^ 32 then 4 else 8

/-- The argument itself, or what says how many bytes it takes. -/
def tag (n : Nat) : Nat :=
  if n < 24 then n else if n < 2 ^ 8 then 24 else if n < 2 ^ 16 then 25 else if n < 2 ^ 32 then 26 else 27

/-- The head of major type `t` and argument `n`, in its shortest form. -/
def head (t n : Nat) : List UInt8 := UInt8.ofNat (t * 32 + tag n) :: be (width n) n

def utf8 (t : List Char) : List UInt8 := t.flatMap String.utf8EncodeChar

def text (t : List Char) : List UInt8 := head 3 (utf8 t).length ++ utf8 t

/-- Keys are ordered by length, then bytewise. -/
def rank (a : List UInt8) : Nat ×ₗ List Nat := toLex (a.length, a.map UInt8.toNat)

/-- Encoded entries in the order of their keys. -/
def sortEntries (ps : List (List UInt8 × List UInt8)) : List (List UInt8 × List UInt8) :=
  ps.mergeSort fun p q => rank p.1 ≤ rank q.1

def join (ps : List (List UInt8 × List UInt8)) : List UInt8 := ps.flatMap fun p => p.1 ++ p.2

mutual

def encode : Value → List UInt8
  | .null => head 7 22
  | .bool b => head 7 (if b then 21 else 20)
  | .int i => if 0 ≤ i then head 0 i.toNat else head 1 (-1 - i).toNat
  | .bytes b => head 2 b.length ++ b
  | .text t => text t
  | .list vs => head 4 vs.length ++ encodeList vs
  | .map es => head 5 es.length ++ join (sortEntries (encodeEntries es))

def encodeList : List Value → List UInt8
  | [] => []
  | v :: vs => encode v ++ encodeList vs

def encodeEntries : List (List Char × Value) → List (List UInt8 × List UInt8)
  | [] => []
  | (k, v) :: es => (text k, encode v) :: encodeEntries es

end

theorem encodeEntries_eq : ∀ es, encodeEntries es = es.map fun e => (text e.1, encode e.2)
  | [] => by simp [encodeEntries]
  | (k, v) :: es => by simp [encodeEntries, encodeEntries_eq es]

/-! ## Limits -/

/-- What may stand in a tree. -/
structure Limits where
  int : Int → Prop
  bytes : List UInt8 → Prop
  text : List Char → Prop
  /-- How a key of a map relates to each key after it. -/
  keys : List Char → List Char → Prop

def Fits (L : Limits) : Nat → Value → Prop
  | 0, _ => False
  | _ + 1, .null => True
  | _ + 1, .bool _ => True
  | _ + 1, .int i => L.int i
  | _ + 1, .bytes b => L.bytes b
  | _ + 1, .text t => L.text t
  | l + 1, .list vs => vs.length ≤ 65536 ∧ ∀ v ∈ vs, Fits L l v
  | l + 1, .map es => es.length ≤ 65536 ∧ (es.map Prod.fst).Pairwise L.keys ∧ ∀ e ∈ es, L.text e.1 ∧ Fits L l e.2

def NulFree (t : List Char) : Prop := ∀ c ∈ t, c ≠ Char.ofNat 0

/-- Text without NUL whose encoding has a length. -/
def TextOk (t : List Char) : Prop := NulFree t ∧ (utf8 t).length < 2 ^ 64

/-- What has a head, with the keys of maps in relation `R`. -/
def encodable (R : List Char → List Char → Prop) : Limits where
  int i := -2 ^ 64 ≤ i ∧ i < 2 ^ 64
  bytes b := b.length < 2 ^ 64
  text := TextOk
  keys := R

/-- The keys are in the order of their encodings. -/
def KeyLt (k k' : List Char) : Prop := rank (text k) < rank (text k')

/-- A weaker relation of the keys, and more levels. -/
theorem Fits.mono {R R' : List Char → List Char → Prop} (hR : ∀ {k k'}, R k k' → R' k k') : ∀ {l l' : Nat} {v : Value},
    l ≤ l' → Fits (encodable R) l v → Fits (encodable R') l' v
  | 0, _, _, _, h => h.elim
  | l + 1, 0, _, hl, _ => absurd hl (Nat.not_succ_le_zero l)
  | l + 1, l' + 1, v, hl, h => by
    have ih {v : Value} : Fits (encodable R) l v → Fits (encodable R') l' v := Fits.mono hR (Nat.le_of_succ_le_succ hl)
    cases v with
    | null | bool b | int i | bytes b | text t => exact h
    | list vs => exact ⟨h.1, fun v hv => ih (h.2 v hv)⟩
    | map es => exact ⟨h.1, h.2.1.imp hR, fun e he => ⟨(h.2.2 e he).1, ih (h.2.2 e he).2⟩⟩

/-! ## Heads -/

theorem length_be : ∀ k n, (be k n).length = k
  | 0, _ => rfl
  | k + 1, n => by simp [be, length_be k]

/-- No form of a head is shorter: immediate, or with an argument of `k` bytes. -/
theorem width_le (n : Nat) : (n < 24 → width n = 0) ∧ ∀ k ∈ [1, 2, 4, 8], n < 256 ^ k → width n ≤ k := by
  constructor
  · intro h
    rw [width, if_pos h]
  intro k hk hn
  rw [width]
  simp only [mem_cons, not_mem_nil, or_false] at hk
  rcases hk with rfl | rfl | rfl | rfl <;> (repeat' split) <;> omega

theorem tag_lt (n : Nat) : tag n < 32 := by
  unfold tag
  repeat' split
  all_goals omega

/-- The tag determines the width, and the argument if that is in the tag. -/
theorem tag_inj (h : tag n = tag m) : width n = width m ∧ (width n = 0 → n = m) := by
  unfold tag width at *
  split_ifs at h ⊢ <;> simp <;> omega

/-- Reading big-endian bytes after the number `v`. -/
def ofBe (v : Nat) (bs : List UInt8) : Nat := bs.foldl (fun v b => v * 256 + b.toNat) v

theorem ofBe_be : ∀ k v n, ofBe v (be k n) = v * 256 ^ k + n % 256 ^ k
  | 0, v, n => by simp [ofBe, be, Nat.mod_one]
  | k + 1, v, n => by
    have ih := ofBe_be k (v * 256 + (UInt8.ofNat (n / 256 ^ k)).toNat) n
    rw [UInt8.toNat_ofNat'] at ih
    rw [be, ofBe, foldl_cons, ← ofBe, UInt8.toNat_ofNat', ih, Nat.mod_pow_succ (b := 256)]
    ring

theorem ofBe_add (v : Nat) (bs : List UInt8) : ofBe v bs = v * 256 ^ bs.length + ofBe 0 bs := by
  induction bs generalizing v with
  | nil => simp [ofBe]
  | cons b bs ih =>
    change ofBe (v * 256 + b.toNat) bs = _ + ofBe (0 * 256 + b.toNat) bs
    rw [ih, ih (0 * 256 + b.toNat), length_cons]
    ring

theorem ofBe_lt (bs : List UInt8) : ofBe 0 bs < 256 ^ bs.length := by
  induction bs with
  | nil => simp [ofBe]
  | cons b bs ih =>
    have hb : b.toNat + 1 ≤ 256 := b.toNat_lt
    change ofBe (0 * 256 + b.toNat) bs < _
    rw [ofBe_add, length_cons, Nat.pow_succ]
    calc (0 * 256 + b.toNat) * 256 ^ bs.length + ofBe 0 bs
        < (b.toNat + 1) * 256 ^ bs.length := by rw [Nat.zero_mul, Nat.zero_add, Nat.add_mul]; omega
      _ ≤ 256 * 256 ^ bs.length := Nat.mul_le_mul_right _ hb
      _ = 256 ^ bs.length * 256 := Nat.mul_comm _ _

/-- The bytes depend on the low part of the number only. -/
theorem be_congr : ∀ {k n m : Nat}, n % 256 ^ k = m % 256 ^ k → be k n = be k m
  | 0, _, _, _ => rfl
  | k + 1, n, m, h => by
    have hbyte : ∀ x, x / 256 ^ k % 256 = x % 256 ^ (k + 1) / 256 ^ k := by
      intro x
      rw [Nat.pow_succ, Nat.mod_mul_right_div_self]
    have hlow : ∀ x, x % 256 ^ k = x % 256 ^ (k + 1) % 256 ^ k := by
      intro x
      rw [Nat.mod_mod_of_dvd x (Nat.pow_dvd_pow 256 (Nat.le_succ k))]
    have hhead : UInt8.ofNat (n / 256 ^ k) = UInt8.ofNat (m / 256 ^ k) := by
      apply UInt8.toNat_inj.1
      simp only [UInt8.toNat_ofNat', Nat.reducePow, hbyte, h]
    have hrest : be k n = be k m := be_congr (by rw [hlow n, hlow m, h])
    rw [be, be, hhead, hrest]

/-- The bytes are those of the number that they are read as. -/
theorem be_ofBe : ∀ bs : List UInt8, be bs.length (ofBe 0 bs) = bs
  | [] => rfl
  | b :: bs => by
    have hlt := ofBe_lt bs
    have hpos : 0 < 256 ^ bs.length := Nat.pow_pos (by decide)
    have hval : ofBe 0 (b :: bs) = b.toNat * 256 ^ bs.length + ofBe 0 bs := by
      change ofBe (0 * 256 + b.toNat) bs = _
      rw [ofBe_add, Nat.zero_mul, Nat.zero_add]
    have hdiv : ofBe 0 (b :: bs) / 256 ^ bs.length = b.toNat := by
      rw [hval, Nat.mul_comm, Nat.mul_add_div hpos, Nat.div_eq_of_lt hlt, Nat.add_zero]
    have hrest : be bs.length (ofBe 0 (b :: bs)) = be bs.length (ofBe 0 bs) := by
      apply be_congr
      rw [hval, Nat.mul_comm, Nat.mul_add_mod]
    rw [length_cons, be, hdiv, hrest, be_ofBe bs, UInt8.ofNat_toNat]

theorem be_injective {k : Nat} (hn : n < 256 ^ k) (hm : m < 256 ^ k) (h : be k n = be k m) : n = m := by
  have hv := congrArg (ofBe 0) h
  rw [ofBe_be, ofBe_be, Nat.mod_eq_of_lt hn, Nat.mod_eq_of_lt hm] at hv
  omega

theorem lt_width (hn : n < 2 ^ 64) : width n = 0 ∨ n < 256 ^ width n := by
  unfold width
  repeat' split
  all_goals omega

theorem head_inj {t t' : Nat} (ht : t < 8) (ht' : t' < 8) (hn : n < 2 ^ 64) (hm : m < 2 ^ 64)
    (h : head t n ++ r = head t' m ++ s) : t = t' ∧ n = m ∧ r = s := by
  obtain ⟨hbyte, hrest⟩ := cons.inj h
  have hlt := tag_lt n
  have hlt' := tag_lt m
  have hsame : t * 32 + tag n = t' * 32 + tag m := by
    have hnat := congrArg UInt8.toNat hbyte
    simp only [UInt8.toNat_ofNat'] at hnat
    omega
  have hboth : t = t' ∧ tag n = tag m := by omega
  obtain ⟨hwidth, himm⟩ := tag_inj hboth.2
  rw [← hwidth] at hrest
  obtain ⟨hbe, hrs⟩ := append_inj hrest (by rw [length_be, length_be])
  refine ⟨hboth.1, ?_, hrs⟩
  rcases lt_width hn with h0 | hn'
  · exact himm h0
  rcases lt_width hm with h0 | hm'
  · exact himm (hwidth.trans h0)
  · exact be_injective hn' (hwidth ▸ hm') hbe

/-! ## Entries in order -/

theorem rank_injective : Function.Injective rank := by
  intro a b h
  have hmap : a.map UInt8.toNat = b.map UInt8.toNat := (Prod.mk.inj h).2
  exact map_injective_iff.2 (fun x y hxy => UInt8.toNat_inj.1 hxy) hmap

theorem sortEntries_perm (ps : List (List UInt8 × List UInt8)) : (sortEntries ps).Perm ps := mergeSort_perm ps _

/-- Entries with distinct keys are sorted strictly. -/
theorem sortEntries_pairwise {ps : List (List UInt8 × List UInt8)} (h : (ps.map Prod.fst).Nodup) :
    (sortEntries ps).Pairwise fun p q => rank p.1 < rank q.1 := by
  have hle : (sortEntries ps).Pairwise fun p q => rank p.1 ≤ rank q.1 := by
    have htrans : ∀ a b c : List UInt8 × List UInt8, decide (rank a.1 ≤ rank b.1) = true →
      decide (rank b.1 ≤ rank c.1) = true →
        decide (rank a.1 ≤ rank c.1) = true :=
      fun _ _ _ hab hbc => decide_eq_true (le_trans (of_decide_eq_true hab) (of_decide_eq_true hbc))
    have htotal : ∀ a b : List UInt8 × List UInt8, (decide (rank a.1 ≤ rank b.1) || decide (rank b.1 ≤ rank a.1)) = true :=
      fun a b => by simpa using le_total (rank a.1) (rank b.1)
    exact (pairwise_mergeSort htrans htotal ps).imp fun hab => of_decide_eq_true hab
  have hne : (sortEntries ps).Pairwise fun p q => p.1 ≠ q.1 :=
    pairwise_map.1 (((sortEntries_perm ps).map Prod.fst).nodup_iff.2 h)
  exact (hle.and hne).imp fun hpq => lt_of_le_of_ne hpq.1 fun he => hpq.2 (rank_injective he)

/-- Entries in order stay where they are. -/
theorem sortEntries_of_pairwise {ps : List (List UInt8 × List UInt8)} (h : ps.Pairwise fun p q => rank p.1 < rank q.1) :
    sortEntries ps = ps :=
  mergeSort_of_pairwise (h.imp fun hpq => decide_eq_true (le_of_lt hpq))

theorem encode_list (vs : List Value) : encode (.list vs) = head 4 vs.length ++ vs.flatMap encode := by
  have h : ∀ vs, encodeList vs = vs.flatMap encode := by
    intro vs
    induction vs with
    | nil => simp [encodeList]
    | cons v vs ih => simp [encodeList, ih]
  rw [encode, h]

/-! ## Text -/

/-- The first character of a text is read off its encoding. -/
theorem utf8EncodeChar_inj {c d : Char}
    (h : String.utf8EncodeChar c ++ r = String.utf8EncodeChar d ++ s) : c = d ∧ r = s := by
  have hc := ByteArray.utf8DecodeChar?_utf8EncodeChar_append (b := r.toByteArray) (c := c)
  have hd := ByteArray.utf8DecodeChar?_utf8EncodeChar_append (b := s.toByteArray) (c := d)
  rw [← toByteArray_append] at hc hd
  rw [h, hd] at hc
  obtain rfl := Option.some.inj hc
  exact ⟨rfl, append_cancel_left h⟩

theorem utf8_cons_ne_nil (c : Char) (t : List Char) : utf8 (c :: t) ≠ [] := by
  have hpos := c.utf8Size_pos
  intro h
  have hlen := congrArg length h
  simp [utf8] at hlen
  omega

theorem utf8_injective : ∀ {t u : List Char}, utf8 t = utf8 u → t = u
  | [], [], _ => rfl
  | [], d :: u, h => absurd h.symm (utf8_cons_ne_nil d u)
  | c :: t, [], h => absurd h (utf8_cons_ne_nil c t)
  | c :: t, d :: u, h => by
    obtain ⟨rfl, hrest⟩ := utf8EncodeChar_inj (by simpa [utf8] using h)
    rw [utf8_injective hrest]

theorem text_inj {t u : List Char} (ht : TextOk t) (hu : TextOk u) (h : text t ++ r = text u ++ s) :
    t = u ∧ r = s := by
  rw [text, text, append_assoc, append_assoc] at h
  obtain ⟨_, hlen, hrest⟩ := head_inj (by decide) (by decide) ht.2 hu.2 h
  obtain ⟨hutf, hrs⟩ := append_inj hrest hlen
  exact ⟨utf8_injective hutf, hrs⟩

/-! ## One tree for each encoding -/

namespace Value

/-- The major type of the item. -/
def major : Value → Nat
  | null => 7
  | bool _ => 7
  | int i => if 0 ≤ i then 0 else 1
  | bytes _ => 2
  | text _ => 3
  | list _ => 4
  | map _ => 5

/-- The argument of the item's head. -/
def argument : Value → Nat
  | null => 22
  | bool b => if b then 21 else 20
  | int i => if 0 ≤ i then i.toNat else (-1 - i).toNat
  | bytes b => b.length
  | text t => (utf8 t).length
  | list vs => vs.length
  | map es => es.length

/-- What follows the head. -/
def body : Value → List UInt8
  | null => []
  | bool _ => []
  | int _ => []
  | bytes b => b
  | text t => utf8 t
  | list vs => vs.flatMap encode
  | map es => join (sortEntries (es.map fun e => (Cbor.text e.1, encode e.2)))

end Value

theorem encode_eq (v : Value) : encode v = head v.major v.argument ++ v.body := by
  cases v with
  | int i => by_cases h : 0 ≤ i <;> simp [encode, Value.major, Value.argument, Value.body, h]
  | list vs => exact encode_list vs
  | map es => rw [encode, encodeEntries_eq]; rfl
  | _ => simp [encode, Value.major, Value.argument, Value.body, text]

theorem major_lt (v : Value) : v.major < 8 := by
  cases v <;> simp [Value.major]
  split <;> decide

theorem argument_lt {R : List Char → List Char → Prop} {v : Value} (h : Fits (encodable R) l v) :
    v.argument < 2 ^ 64 := by
  cases l with
  | zero => cases h
  | succ l =>
    cases v with
    | int i =>
      obtain ⟨h₁, h₂⟩ := h
      simp only [Value.argument]
      split <;> omega
    | bool b => cases b <;> simp [Value.argument]
    | null => simp [Value.argument]
    | bytes b => exact h
    | text t => exact h.2
    | list vs => exact Nat.lt_of_le_of_lt h.1 (by decide)
    | map es => exact Nat.lt_of_le_of_lt h.1 (by decide)

theorem flatMap_inj
    (ih : ∀ {v w r s}, Fits (encodable KeyLt) l v → Fits (encodable KeyLt) l w → encode v ++ r = encode w ++ s →
      v = w ∧ r = s) :
    ∀ {vs ws : List Value} {r s : List UInt8}, vs.length = ws.length → (∀ v ∈ vs, Fits (encodable KeyLt) l v) →
      (∀ w ∈ ws, Fits (encodable KeyLt) l w) →
      vs.flatMap encode ++ r = ws.flatMap encode ++ s → vs = ws ∧ r = s
  | [], [], r, s, _, _, _, h => ⟨rfl, h⟩
  | v :: vs, w :: ws, r, s, hlen, hv, hw, h => by
    rw [flatMap_cons, flatMap_cons, append_assoc, append_assoc] at h
    obtain ⟨rfl, hrest⟩ := ih (hv v mem_cons_self) (hw w mem_cons_self) h
    obtain ⟨rfl, hrs⟩ := flatMap_inj ih (Nat.succ.inj hlen) (fun v h => hv v (mem_cons_of_mem _ h))
      (fun w h => hw w (mem_cons_of_mem _ h)) hrest
    exact ⟨rfl, hrs⟩

theorem join_inj
    (ih : ∀ {v w r s}, Fits (encodable KeyLt) l v → Fits (encodable KeyLt) l w → encode v ++ r = encode w ++ s →
      v = w ∧ r = s) :
    ∀ {es fs : List (List Char × Value)} {r s : List UInt8}, es.length = fs.length →
      (∀ e ∈ es, TextOk e.1 ∧ Fits (encodable KeyLt) l e.2) → (∀ f ∈ fs, TextOk f.1 ∧ Fits (encodable KeyLt) l f.2) →
      join (es.map fun e => (text e.1, encode e.2)) ++ r = join (fs.map fun e => (text e.1, encode e.2)) ++ s →
        es = fs ∧ r = s
  | [], [], r, s, _, _, _, h => ⟨rfl, h⟩
  | (k, v) :: es, (k', w) :: fs, r, s, hlen, he, hf, h => by
    simp only [join, map_cons, flatMap_cons, append_assoc] at h
    obtain ⟨hk, hv⟩ := he (k, v) mem_cons_self
    obtain ⟨hk', hw⟩ := hf (k', w) mem_cons_self
    obtain ⟨rfl, hvalue⟩ := text_inj hk hk' h
    obtain ⟨rfl, hrest⟩ := ih hv hw hvalue
    obtain ⟨rfl, hrs⟩ := join_inj ih (Nat.succ.inj hlen) (fun e h => he e (mem_cons_of_mem _ h))
      (fun f h => hf f (mem_cons_of_mem _ h)) hrest
    exact ⟨rfl, hrs⟩

theorem join_sorted {es : List (List Char × Value)} (h : (es.map Prod.fst).Pairwise KeyLt) :
    (Value.map es).body = join (es.map fun e => (text e.1, encode e.2)) := by
  rw [Value.body, sortEntries_of_pairwise]
  exact pairwise_map.2 ((pairwise_map.1 h).imp fun hk => hk)

/-- **A tree with its maps in order is determined by its encoding**, also when more bytes follow. -/
theorem encode_inj : ∀ {v w : Value} {r s : List UInt8}, Fits (encodable KeyLt) l v → Fits (encodable KeyLt) l w →
    encode v ++ r = encode w ++ s → v = w ∧ r = s := by
  induction l with
  | zero => exact fun h => h.elim
  | succ l ih =>
    intro v w r s hv hw h
    rw [encode_eq, encode_eq, append_assoc, append_assoc] at h
    obtain ⟨hmajor, harg, hbody⟩ := head_inj (major_lt v) (major_lt w) (argument_lt hv) (argument_lt hw) h
    cases v <;> cases w
    case null.null => exact ⟨rfl, hbody⟩
    case bool.bool b c => cases b <;> cases c <;> simp_all [Value.argument, Value.body]
    case int.int i j =>
      have hij : i = j := by
        simp only [Value.major, Value.argument] at hmajor harg
        split_ifs at hmajor harg <;> omega
      exact ⟨congrArg Value.int hij, hbody⟩
    case bytes.bytes b c =>
      obtain ⟨rfl, hrs⟩ := append_inj hbody harg
      exact ⟨rfl, hrs⟩
    case text.text t u =>
      obtain ⟨hutf, hrs⟩ := append_inj hbody harg
      exact ⟨congrArg _ (utf8_injective hutf), hrs⟩
    case list.list vs ws =>
      obtain ⟨rfl, hrs⟩ := flatMap_inj ih harg hv.2 hw.2 hbody
      exact ⟨rfl, hrs⟩
    case map.map es fs =>
      rw [join_sorted hv.2.1, join_sorted hw.2.1] at hbody
      obtain ⟨rfl, hrs⟩ := join_inj ih harg hv.2.2 hw.2.2 hbody
      exact ⟨rfl, hrs⟩
    -- items of different kinds have different heads
    all_goals
      exfalso
      simp only [Value.major, Value.argument] at hmajor harg
      (try split_ifs at hmajor harg) <;> omega

/-! ## The shortest encoding -/

/-- The ways to write a head. -/
inductive HeadForm (t n : Nat) : List UInt8 → Prop
  | immediate (hn : n < 24) : HeadForm t n [UInt8.ofNat (t * 32 + n)]
  | wide {a k : Nat} (ha : (a, k) ∈ [(24, 1), (25, 2), (26, 4), (27, 8)]) (hn : n < 256 ^ k) :
      HeadForm t n (UInt8.ofNat (t * 32 + a) :: be k n)

mutual

/-- The ways to write a tree: heads in any form, the entries of maps in any order. -/
inductive Encodes : Value → List UInt8 → Prop
  | null : Encodes .null (head 7 22)
  | bool (b : Bool) : Encodes (.bool b) (head 7 (if b then 21 else 20))
  | int {i : Int} {h : List UInt8} (hh : HeadForm (Value.int i).major (Value.int i).argument h) : Encodes (.int i) h
  | bytes {b h : List UInt8} (hh : HeadForm 2 b.length h) : Encodes (.bytes b) (h ++ b)
  | text {t : List Char} {h : List UInt8} (hh : HeadForm 3 (utf8 t).length h) : Encodes (.text t) (h ++ utf8 t)
  | list {vs : List Value} {h bs : List UInt8} (hh : HeadForm 4 vs.length h) (hb : EncodesList vs bs) :
    Encodes (.list vs) (h ++ bs)
  | map {es es' : List (List Char × Value)} {h bs : List UInt8} (hp : es'.Perm es) (hh : HeadForm 5 es.length h)
      (hb : EncodesEntries es' bs) : Encodes (.map es) (h ++ bs)

inductive EncodesList : List Value → List UInt8 → Prop
  | nil : EncodesList [] []
  | cons {v : Value} {vs : List Value} {b bs : List UInt8} (hv : Encodes v b) (hvs : EncodesList vs bs) :
      EncodesList (v :: vs) (b ++ bs)

inductive EncodesEntries : List (List Char × Value) → List UInt8 → Prop
  | nil : EncodesEntries [] []
  | cons {k : List Char} {v : Value} {es : List (List Char × Value)} {h b bs : List UInt8}
      (hk : HeadForm 3 (utf8 k).length h) (hv : Encodes v b) (hes : EncodesEntries es bs) :
      EncodesEntries ((k, v) :: es) (h ++ utf8 k ++ (b ++ bs))

end

theorem HeadForm.length_le {t : Nat} {h : List UInt8} (hh : HeadForm t n h) : (head t n).length ≤ h.length := by
  rw [head, length_cons, length_be]
  cases hh with
  | immediate hn => rw [(width_le n).1 hn, length_singleton]
  | @wide a k ha hn =>
    have hk : k ∈ [1, 2, 4, 8] := mem_map_of_mem (f := Prod.snd) ha
    rw [length_cons, length_be]
    exact Nat.succ_le_succ ((width_le n).2 k hk hn)

theorem length_body_perm {es es' : List (List Char × Value)} (h : es'.Perm es) :
    (Value.map es).body.length = (join (es'.map fun e => (text e.1, encode e.2))).length := by
  let entry (e : List Char × Value) : List UInt8 × List UInt8 := (text e.1, encode e.2)
  have hp : (sortEntries (es.map entry)).Perm (es'.map entry) := (sortEntries_perm _).trans (h.symm.map entry)
  rw [Value.body]
  exact (List.Perm.flatMap_right (fun p => p.1 ++ p.2) hp).length_eq

mutual

/-- **No encoding of a tree is shorter than its deterministic encoding.** -/
theorem length_encode_le : ∀ {v : Value} {bs : List UInt8}, Encodes v bs → (encode v).length ≤ bs.length
  | _, _, .null => by simp [encode]
  | _, _, .bool b => by simp [encode]
  | _, _, .int hh => by simpa [encode_eq, Value.body] using hh.length_le
  | _, _, .bytes hh => by
    rw [encode_eq, length_append, length_append]
    exact Nat.add_le_add_right hh.length_le _
  | _, _, .text hh => by
    rw [encode_eq, length_append, length_append]
    exact Nat.add_le_add_right hh.length_le _
  | _, _, .list hh hb => by
    rw [encode_eq, length_append, length_append]
    exact Nat.add_le_add hh.length_le (length_encodeList_le hb)
  | _, _, .map hp hh hb => by
    rw [encode_eq, length_append, length_append, length_body_perm hp]
    exact Nat.add_le_add hh.length_le (length_encodeEntries_le hb)

theorem length_encodeList_le : ∀ {vs : List Value} {bs : List UInt8}, EncodesList vs bs →
    (vs.flatMap encode).length ≤ bs.length
  | _, _, .nil => Nat.le_refl 0
  | _, _, .cons hv hvs => by
    rw [flatMap_cons, length_append, length_append]
    exact Nat.add_le_add (length_encode_le hv) (length_encodeList_le hvs)

theorem length_encodeEntries_le : ∀ {es : List (List Char × Value)} {bs : List UInt8}, EncodesEntries es bs →
    (join (es.map fun e => (text e.1, encode e.2))).length ≤ bs.length
  | _, _, .nil => Nat.le_refl 0
  | _, _, .cons hk hv hes => by
    have hhead := hk.length_le
    have hvalue := length_encode_le hv
    have hrest := length_encodeEntries_le hes
    simp only [join, map_cons, flatMap_cons, text, length_append] at hrest ⊢
    omega

end

theorem headForm_head (hn : n < 2 ^ 64) (t : Nat) : HeadForm t n (head t n) := by
  unfold head tag width
  split_ifs with h₁ h₂ h₃ h₄
  · exact .immediate h₁
  · exact .wide (by simp) h₂
  · exact .wide (by simp) h₃
  · exact .wide (by simp) h₄
  · exact .wide (by simp) hn

theorem encodesList_flatMap : ∀ {vs : List Value}, (∀ v ∈ vs, Encodes v (encode v)) → EncodesList vs (vs.flatMap encode)
  | [], _ => .nil
  | v :: _, h => .cons (h v mem_cons_self) (encodesList_flatMap fun w hw => h w (mem_cons_of_mem v hw))

theorem encodesEntries_join : ∀ {es : List (List Char × Value)}, (∀ e ∈ es, TextOk e.1 ∧ Encodes e.2 (encode e.2)) →
    EncodesEntries es (join (es.map fun e => (text e.1, encode e.2)))
  | [], _ => .nil
  | (k, v) :: es, h => by
    obtain ⟨hk, hv⟩ := h (k, v) mem_cons_self
    have hes := encodesEntries_join fun e he => h e (mem_cons_of_mem _ he)
    have hsplit : join (((k, v) :: es).map fun e => (text e.1, encode e.2)) =
        head 3 (utf8 k).length ++ utf8 k ++ (encode v ++ join (es.map fun e => (text e.1, encode e.2))) := by
      simp [join, text]
    rw [hsplit]
    exact .cons (headForm_head hk.2 3) hv hes

/-- The deterministic encoding is an encoding. -/
theorem encodes_encode : ∀ {v : Value}, Fits (encodable KeyLt) l v → Encodes v (encode v) := by
  induction l with
  | zero => exact fun h => h.elim
  | succ l ih =>
    intro v hv
    have hhead := headForm_head (argument_lt hv) v.major
    cases v with
    | null => simpa only [encode] using Encodes.null
    | bool b => simpa only [encode] using Encodes.bool b
    | int i =>
      rw [encode_eq, Value.body, append_nil]
      exact .int hhead
    | bytes b => exact encode_eq (.bytes b) ▸ .bytes hhead
    | text t => exact encode_eq (.text t) ▸ .text hhead
    | list vs => exact encode_eq (.list vs) ▸ .list hhead (encodesList_flatMap fun v h => ih (hv.2 v h))
    | map es =>
      obtain ⟨-, hkeys, hes⟩ := hv
      rw [encode_eq, join_sorted hkeys]
      exact .map (List.Perm.refl es) hhead (encodesEntries_join fun e h => ⟨(hes e h).1, ih (hes e h).2⟩)

end Cbor
