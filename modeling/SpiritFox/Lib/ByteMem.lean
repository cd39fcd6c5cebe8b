import Mathlib.Algebra.Group.Nat.Defs
import Mathlib.Data.List.Basic
import Mathlib.Logic.Function.Basic

/-!
# Byte memories

A memory is a map from addresses to bytes. `slice` reads a range, `blit` overwrites one (the C `memcpy`), and
`le`/`toLe` read and write little-endian integers. Everything a program does with a buffer is then a nest of `blit`s,
and what a later read sees is decided by two facts: `slice_blit_self` for the range just written, and `EqOn` for any range
that does not meet it (`eqOn_blit`).

A `Block n` is a fixed run of `n` bytes, the unit a device moves; `join` lays blocks out one after another.
-/

namespace ByteMem

open List

/-- A byte-addressed memory. -/
abbrev Mem := Nat → UInt8

def zeros : Mem := fun _ => 0

/-- The `n` bytes from `off` on. -/
def slice (m : Mem) (off n : Nat) : List UInt8 := (List.range n).map fun i => m (off + i)

/-- The memory with `bs` copied to `off`. -/
def blit (m : Mem) (off : Nat) (bs : List UInt8) : Mem :=
  fun i => if off ≤ i ∧ i < off + bs.length then bs.getD (i - off) 0 else m i

/-- The memory with the `n` bytes from `off` on set to zero. -/
def clear (m : Mem) (off n : Nat) : Mem := fun i => if off ≤ i ∧ i < off + n then 0 else m i

/-- All `n` bytes from `off` on are zero. -/
def isZero (m : Mem) (off n : Nat) : Bool := (slice m off n).all (· == 0)

/-! ## Reading back what was written -/

@[simp] theorem length_slice (m : Mem) (off n : Nat) : (slice m off n).length = n := by simp [slice]

theorem slice_congr {m m' : Mem} {a a' n : Nat} (h : ∀ i < n, m (a + i) = m' (a' + i)) : slice m a n = slice m' a' n := by
  unfold slice
  exact map_congr_left fun i hi => h i (mem_range.1 hi)

theorem blit_of_lt {m : Mem} {off i : Nat} {bs : List UInt8} (h : i < off ∨ off + bs.length ≤ i) :
    blit m off bs i = m i := by
  unfold blit
  rw [if_neg (by omega)]

theorem blit_of_mem {m : Mem} {off i : Nat} {bs : List UInt8} (h : i < bs.length) :
    blit m off bs (off + i) = bs.getD i 0 := by
  unfold blit
  rw [if_pos (by omega), Nat.add_sub_cancel_left]

theorem slice_blit_self (m : Mem) (off : Nat) (bs : List UInt8) : slice (blit m off bs) off bs.length = bs := by
  apply ext_getElem (by simp)
  intro i h₁ h₂
  simp only [slice, getElem_map, getElem_range, blit_of_mem h₂]
  simp [h₂]

/-- A part of what was written. -/
theorem slice_blit (m : Mem) (off : Nat) (bs : List UInt8) {a k : Nat} (h : a + k ≤ bs.length) :
    slice (blit m off bs) (off + a) k = (bs.drop a).take k := by
  apply ext_getElem (by simp; omega)
  intro i h₁ h₂
  rw [length_slice] at h₁
  simp only [slice, getElem_map, getElem_range, getElem_take, getElem_drop]
  rw [Nat.add_assoc, blit_of_mem (by omega)]
  simp [show a + i < bs.length by omega]

theorem slice_add (m : Mem) (off n k : Nat) : slice m off (n + k) = slice m off n ++ slice m (off + n) k := by
  simp [slice, range_add, Nat.add_assoc]

theorem take_slice (m : Mem) (off n k : Nat) : (slice m off n).take k = slice m off (min k n) := by
  rw [slice, ← map_take, take_range]
  rfl

theorem drop_slice (m : Mem) (off n a : Nat) : (slice m off n).drop a = slice m (off + a) (n - a) := by
  apply ext_getElem (by simp)
  intro i h₁ h₂
  simp [slice, Nat.add_assoc]

theorem slice_clear (m : Mem) (off n : Nat) : slice (clear m off n) off n = replicate n 0 := by
  apply ext_getElem (by simp)
  intro i h₁ h₂
  rw [length_slice] at h₁
  simp [slice, clear, h₁]

/-- Where two fields lie one after another. -/
theorem slice_eq_append {m : Mem} {a n k : Nat} {l₁ l₂ : List UInt8} (h₁ : l₁.length = n) :
    slice m a (n + k) = l₁ ++ l₂ ↔ slice m a n = l₁ ∧ slice m (a + n) k = l₂ := by
  rw [slice_add]
  exact ⟨fun h => append_inj h (by rw [length_slice, h₁]), fun h => by rw [h.1, h.2]⟩

theorem isZero_iff {m : Mem} {off n : Nat} : isZero m off n = true ↔ ∀ i < n, m (off + i) = 0 := by
  simp [isZero, slice]

/-! ## Terminated strings -/

/-- A string ends at its terminator. -/
theorem takeWhile_terminated {s : List UInt8} (h : 0 ∉ s) (rest : List UInt8) : (s ++ 0 :: rest).takeWhile (· != 0) = s := by
  have hall : ∀ c ∈ s, (c != 0) = true := fun c hc => bne_iff_ne.2 fun h0 => h (h0 ▸ hc)
  rw [takeWhile_append_of_pos hall]
  simp

/-! ## Little-endian integers -/

/-- The integer with these bytes, least significant first. -/
def le : List UInt8 → Nat
  | [] => 0
  | b :: bs => b.toNat + 256 * le bs

/-- The `n` low bytes of `v`, least significant first. -/
def toLe : Nat → Nat → List UInt8
  | 0, _ => []
  | n + 1, v => UInt8.ofNat v :: toLe n (v / 256)

@[simp] theorem length_toLe : ∀ n v, (toLe n v).length = n
  | 0, _ => rfl
  | n + 1, v => by simp [toLe, length_toLe n]

theorem le_toLe : ∀ {n v : Nat}, v < 256 ^ n → le (toLe n v) = v
  | 0, v, h => by simp at h; simp [toLe, le, h]
  | n + 1, v, h => by
    have hv : v / 256 < 256 ^ n := Nat.div_lt_of_lt_mul (by rwa [Nat.pow_succ, Nat.mul_comm] at h)
    simp only [toLe, le, le_toLe hv, UInt8.toNat_ofNat']
    omega

theorem toLe_le : ∀ bs : List UInt8, toLe bs.length (le bs) = bs
  | [] => rfl
  | b :: bs => by
    have hb : b.toNat < 256 := b.toNat_lt
    have hhead : UInt8.ofNat (b.toNat + 256 * le bs) = b := by
      rw [← UInt8.toNat_inj, UInt8.toNat_ofNat']
      omega
    have htail : (b.toNat + 256 * le bs) / 256 = le bs := by omega
    simp only [le, length_cons, toLe, hhead, htail, toLe_le bs]

/-- The `n`-byte integer at `off`. -/
def load (m : Mem) (off n : Nat) : Nat := le (slice m off n)

theorem le_lt : ∀ bs : List UInt8, le bs < 256 ^ bs.length
  | [] => by simp [le]
  | b :: bs => by
    have hb : b.toNat < 256 := b.toNat_lt
    have ih := le_lt bs
    simp only [le, length_cons, Nat.pow_succ]
    omega

theorem load_lt (m : Mem) (off n : Nat) : load m off n < 256 ^ n := by
  have h := le_lt (slice m off n)
  rwa [length_slice] at h

/-- The integer determines its bytes. -/
theorem load_eq_iff {m : Mem} {off n v : Nat} (hv : v < 256 ^ n) : load m off n = v ↔ slice m off n = toLe n v := by
  constructor
  · rintro rfl
    have h := toLe_le (slice m off n)
    rw [length_slice] at h
    exact h.symm
  · intro h
    rw [load, h, le_toLe hv]

/-- The memory with the `n`-byte integer `v` stored at `off`. -/
def store (m : Mem) (off n v : Nat) : Mem := blit m off (toLe n v)

theorem load_store_self (m : Mem) (off : Nat) {n v : Nat} (h : v < 256 ^ n) : load (store m off n v) off n = v := by
  have hs := slice_blit_self m off (toLe n v)
  rw [length_toLe] at hs
  unfold load store
  rw [hs, le_toLe h]

/-! ## Memories that agree on a range -/

/-- The two memories agree on the `n` bytes from `a` on. -/
def EqOn (m m' : Mem) (a n : Nat) : Prop := ∀ i, a ≤ i → i < a + n → m i = m' i

section EqOn

variable {m m' : Mem} {a n c k : Nat}

section

variable (h : EqOn m m' a n) (h₁ : a ≤ c) (h₂ : c + k ≤ a + n)

include h h₁ h₂

theorem EqOn.slice : slice m c k = slice m' c k :=
  slice_congr fun i hi => h (c + i) (by omega) (by omega)

theorem EqOn.isZero : isZero m c k = isZero m' c k := by
  unfold ByteMem.isZero
  rw [h.slice h₁ h₂]

theorem EqOn.load : load m c k = load m' c k := by
  unfold ByteMem.load
  rw [h.slice h₁ h₂]

end

theorem EqOn.trans {m'' : Mem} (h : EqOn m m' a n) (h' : EqOn m' m'' a n) : EqOn m m'' a n :=
  fun i h₁ h₂ => (h i h₁ h₂).trans (h' i h₁ h₂)

theorem eqOn_blit {off : Nat} {bs : List UInt8} (h : a + n ≤ off ∨ off + bs.length ≤ a) :
    EqOn (blit m off bs) m a n := fun i h₁ h₂ => blit_of_lt (by omega)

theorem eqOn_store {off w v : Nat} (h : a + n ≤ off ∨ off + w ≤ a) : EqOn (store m off w v) m a n :=
  eqOn_blit (by simpa using h)

/-- The memory `m'` differs from `m` in the `n` bytes from `a` on at most. -/
def DiffIn (m m' : Mem) (a n : Nat) : Prop := ∀ i, i < a ∨ a + n ≤ i → m' i = m i

theorem DiffIn.refl : DiffIn m m a n := fun _ _ => rfl

theorem DiffIn.blit {off : Nat} {bs : List UInt8} (h : DiffIn m m' a n) (h₁ : a ≤ off) (h₂ : off + bs.length ≤ a + n) :
    DiffIn m (blit m' off bs) a n := fun i hi => (blit_of_lt (by omega)).trans (h i hi)

theorem DiffIn.store {off w v : Nat} (h : DiffIn m m' a n) (h₁ : a ≤ off) (h₂ : off + w ≤ a + n) :
    DiffIn m (store m' off w v) a n := h.blit h₁ (by simpa using h₂)

end EqOn

/-! ## Runs of stores -/

/-- The memory after the `n`-byte integers of `ws` were stored, each at its own address. -/
def storeAll (n : Nat) (m : Mem) (ws : List (Nat × Nat)) : Mem := ws.foldl (fun m w => store m w.1 n w.2) m

theorem storeAll_of_apart {n i : Nat} : ∀ {ws : List (Nat × Nat)} {m : Mem}, (∀ w ∈ ws, i < w.1 ∨ w.1 + n ≤ i) →
    storeAll n m ws i = m i
  | [], _, _ => rfl
  | w :: ws, m, h => by
    obtain ⟨hw, hws⟩ := forall_mem_cons.1 h
    have hstore : store m w.1 n w.2 i = m i := blit_of_lt (by simpa using hw)
    exact (storeAll_of_apart hws).trans hstore

/-- Stores that keep apart all last. -/
theorem slice_storeAll {n : Nat} : ∀ {ws : List (Nat × Nat)}
    {m : Mem}, ws.Pairwise (fun v w => v.1 + n ≤ w.1 ∨ w.1 + n ≤ v.1) →
    ∀ w ∈ ws, slice (storeAll n m ws) w.1 n = toLe n w.2
  | [], _, _, _, hw => nomatch hw
  | v :: ws, m, hpair, w, hw => by
    obtain ⟨hv, hpair⟩ := pairwise_cons.1 hpair
    rcases mem_cons.1 hw with rfl | hw
    · have hlater : slice (storeAll n (store m w.1 n w.2) ws) w.1 n = slice (store m w.1 n w.2) w.1 n := by
        apply slice_congr
        intro i hi
        apply storeAll_of_apart
        intro u hu
        have := hv u hu
        omega
      have hself := slice_blit_self m w.1 (toLe n w.2)
      rw [length_toLe] at hself
      exact hlater.trans hself
    · exact slice_storeAll hpair w hw

/-! ## Blocks -/

/-- A run of `n` bytes. -/
abbrev Block (n : Nat) := Fin n → UInt8

/-- A block as a memory, zero past its end. -/
def Block.mem {n : Nat} (b : Block n) : Mem := fun i => if h : i < n then b ⟨i, h⟩ else 0

/-- The block of `n` bytes at `off`. -/
def blockAt (n : Nat) (m : Mem) (off : Nat) : Block n := fun i => m (off + i)

/-- Blocks laid out one after another. -/
def join {n : Nat} (bs : Nat → Block n) : Mem := fun i => (bs (i / n)).mem (i % n)

theorem blockAt_mem {n i : Nat} (m : Mem) (off : Nat) (h : i < n) : (blockAt n m off).mem i = m (off + i) := by
  simp [Block.mem, blockAt, h]

theorem slice_blockAt {n a k : Nat} (m : Mem) (off : Nat) (h : a + k ≤ n) :
    slice (blockAt n m off).mem a k = slice m (off + a) k :=
  slice_congr fun i hi => by rw [blockAt_mem m off (by omega), Nat.add_assoc]

/-- Cutting a memory into blocks and laying them out again gives the memory back. -/
theorem join_blockAt {n : Nat} (hn : 0 < n) (m : Mem) : join (fun i => blockAt n m (i * n)) = m := by
  funext i
  unfold join
  rw [blockAt_mem m _ (Nat.mod_lt i hn), Nat.mul_comm, Nat.div_add_mod]

end ByteMem
