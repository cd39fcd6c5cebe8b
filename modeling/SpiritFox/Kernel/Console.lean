import SpiritFox.Lib.Ring
import SpiritFox.Kernel.Dispatch

/-!
# Console input

The ring between `console_irq` and `console_read`, over every order of interrupts and reads. A byte that finds the ring full
is dropped, and the next read says so and empties the ring; so what is read between two such reports is what was received
since the first of them, without a gap (`console_no_silent_loss`).
-/

namespace SpiritFox.Core

open List Ring

/-! ## Runs -/

inductive ConsoleOp
  | irq (bytes : List UInt8)
  | read

/-- What happens in a run: a byte comes in, for which the ring has room or not, or a read returns. -/
inductive ConsoleEvent
  | stored (b : UInt8)
  | dropped (b : UInt8)
  | result (r : Int)
  deriving DecidableEq

/-- What becomes of the bytes of an interrupt. -/
def arrivals (c : Console) : List UInt8 → List ConsoleEvent
  | [] => []
  | b :: bytes => (if c.count < 256 then .stored b else .dropped b) :: arrivals (consoleIrq c [b]) bytes

def consoleTrace (c : Console) : List ConsoleOp → List ConsoleEvent
  | [] => []
  | .irq bytes :: ops => arrivals c bytes ++ consoleTrace (consoleIrq c bytes) ops
  | .read :: ops => .result (consoleRead c).1 :: consoleTrace (consoleRead c).2 ops

/-- The ring after boot. -/
def consoleStart : Console := ⟨fun _ => 0, 0, 0, false⟩

/-- The bytes that came in. -/
def received (tr : List ConsoleEvent) : List UInt8 :=
  tr.filterMap fun
    | .stored b | .dropped b => some b
    | .result _ => none

/-- The bytes that reads returned. -/
def returned (tr : List ConsoleEvent) : List UInt8 :=
  tr.filterMap fun
    | .result r => if 0 ≤ r then some (UInt8.ofNat r.toNat) else none
    | _ => none

abbrev overflowEvent : ConsoleEvent := .result SfError.eventOverflow.code

/-- Where a stretch of a run may begin: at its start, or behind a report of overflow. -/
def Begins (before : List ConsoleEvent) : Prop := before = [] ∨ ∃ a, before = a ++ [overflowEvent]

/-- Nothing is lost silently. A stretch without a report returns the first of the bytes that came in during it; from a
dropped byte to the report no read returns anything else; and a read that finds nothing comes when everything was
returned. -/
structure NoSilentLoss (tr : List ConsoleEvent) : Prop where
  contiguous : ∀ a mid z, tr = a ++ mid ++ z → Begins a → overflowEvent ∉ mid → returned mid <+: received mid
  reported : ∀ a b mid z, tr = a ++ .dropped b :: mid ++ z → overflowEvent ∉ mid → ∀ r, .result r ∉ mid
  blocked : ∀ a mid z, tr = a ++ mid ++ .result SfError.wouldBlock.code :: z → Begins a → overflowEvent ∉ mid →
    received mid = returned mid ∧ ∀ b, .dropped b ∉ mid

/-! ## Byte by byte -/

section Console

variable {c : Console} {mid : List ConsoleEvent}

/-- One byte of an interrupt, or a read. -/
def move (c : Console) : Option UInt8 → ConsoleEvent × Console
  | some b => (if c.count < 256 then .stored b else .dropped b, consoleIrq c [b])
  | none => (.result (consoleRead c).1, (consoleRead c).2)

def moveAll (c : Console) (ts : List (Option UInt8)) : Console := ts.foldl (fun c t => (move c t).2) c

def moveEvents (c : Console) : List (Option UInt8) → List ConsoleEvent
  | [] => []
  | t :: ts => (move c t).1 :: moveEvents (move c t).2 ts

theorem moveEvents_append (c : Console) (ts us : List (Option UInt8)) :
    moveEvents c (ts ++ us) = moveEvents c ts ++ moveEvents (moveAll c ts) us := by
  induction ts generalizing c with
  | nil => rfl
  | cons t ts ih => exact congrArg (_ :: ·) (ih _)

theorem consoleTrace_moves (c : Console) (ops : List ConsoleOp) : ∃ ts, consoleTrace c ops = moveEvents c ts := by
  induction ops generalizing c with
  | nil => exact ⟨[], rfl⟩
  | cons op ops ih =>
    cases op with
    | read =>
      obtain ⟨ts, h⟩ := ih (consoleRead c).2
      exact ⟨none :: ts, congrArg (_ :: ·) h⟩
    | irq bytes =>
      obtain ⟨ts, h⟩ := ih (consoleIrq c bytes)
      refine ⟨bytes.map some ++ ts, ?_⟩
      simp only [consoleTrace]
      rw [h]
      clear h ih
      induction bytes generalizing c with
      | nil => rfl
      | cons b bytes ih => exact congrArg (_ :: ·) (ih _)

/-- A run can be cut where its events are cut. -/
theorem moveEvents_split {x y : List ConsoleEvent} {ts : List (Option UInt8)} (h : moveEvents c ts = x ++ y) :
    ∃ us vs, ts = us ++ vs ∧ moveEvents c us = x ∧ moveEvents (moveAll c us) vs = y := by
  induction x generalizing c ts with
  | nil => exact ⟨[], ts, rfl, rfl, h⟩
  | cons e x ih =>
    cases ts with
    | nil => cases h
    | cons t ts =>
      obtain ⟨hhead, htail⟩ := cons.inj h
      obtain ⟨us, vs, rfl, hus, hvs⟩ := ih htail
      exact ⟨t :: us, vs, rfl, congr (congrArg _ hhead) hus, hvs⟩

theorem moveEvents_cons {e : ConsoleEvent} {y : List ConsoleEvent} {ts : List (Option UInt8)}
    (h : moveEvents c ts = e :: y) : ∃ t us, ts = t :: us ∧ (move c t).1 = e ∧ moveEvents (move c t).2 us = y := by
  cases ts with
  | nil => cases h
  | cons t us => exact ⟨t, us, rfl, cons.inj h⟩

/-- What the events say of the ring. -/
theorem move_event {t : Option UInt8} {e : ConsoleEvent} (h : (move c t).1 = e) :
    (e = overflowEvent → (move c t).2.count = 0 ∧ (move c t).2.overflow = false) ∧
    (e = .result SfError.wouldBlock.code → c.count = 0 ∧ c.overflow = false) ∧
    (∀ b, e = .dropped b → (move c t).2.overflow = true) := by
  subst h
  cases t with
  | some b =>
    simp only [move, consoleIrq, foldl_cons, foldl_nil]
    split <;> simp
  | none =>
    have hbyte : ∀ (b : UInt8) (err : SfError), (b.toNat : Int) ≠ err.code := fun b err h => by
      have := err.code_neg
      omega
    simp only [move, consoleRead]
    split
    · simp [show SfError.eventOverflow.code ≠ SfError.wouldBlock.code by decide]
    · split
      · rename_i hflag hcount
        simp [show SfError.wouldBlock.code ≠ SfError.eventOverflow.code by decide, hcount, hflag]
      · simp [hbyte]

/-! ## A stretch between two reports -/

/-- The ring against the events since it was empty. -/
structure Unread (c : Console) (mid : List ConsoleEvent) : Prop where
  le : c.count ≤ 256
  full : c.overflow = true → c.count = 256
  kept : returned mid ++ contents c.input c.head c.count <+: received mid
  exact : c.overflow = false → received mid = returned mid ++ contents c.input c.head c.count ∧ ∀ b, .dropped b ∉ mid

theorem Unread.byte (h : Unread c mid) (b : UInt8) : Unread (move c (some b)).2 (mid ++ [(move c (some b)).1]) := by
  have hreturned : ∀ e ∈ [ConsoleEvent.stored b, .dropped b], returned (mid ++ [e]) = returned mid ∧
      received (mid ++ [e]) = received mid ++ [b] := by
    simp [returned, received]
  simp only [move, consoleIrq, foldl_cons, foldl_nil]
  split
  · rename_i hroom
    have hflag : c.overflow = false := Bool.eq_false_iff.2 fun hf => absurd (h.full hf) (Nat.ne_of_lt hroom)
    obtain ⟨hexact, hnone⟩ := h.exact hflag
    have hsame : received mid ++ [b] = returned mid ++ (contents c.input c.head c.count ++ [b]) := by
      rw [hexact, append_assoc]
    rw [← contents_push hroom] at hsame
    obtain ⟨hret, hrec⟩ := hreturned (.stored b) mem_cons_self
    refine ⟨hroom, fun hf => absurd (hf.symm.trans hflag) (by decide), ?_, fun _ => ⟨?_, by simpa using hnone⟩⟩ <;>
      rw [hret, hrec, hsame]
    · exact prefix_refl _
    · rfl
  · rename_i hroom
    obtain ⟨hret, hrec⟩ := hreturned (.dropped b) (mem_cons_of_mem _ mem_cons_self)
    refine ⟨h.le, fun _ => Nat.le_antisymm h.le (Nat.le_of_not_lt hroom), ?_, Bool.noConfusion⟩
    rw [hret, hrec]
    exact h.kept.trans (prefix_append _ _)

theorem Unread.read (h : Unread c mid) (hreport : (move c none).1 ≠ overflowEvent) :
    Unread (move c none).2 (mid ++ [(move c none).1]) := by
  unfold move consoleRead at *
  dsimp only at *
  split at hreport
  · exact absurd rfl hreport
  rename_i hflag
  obtain ⟨hexact, hnone⟩ := h.exact (Bool.eq_false_iff.2 hflag)
  rw [if_neg hflag]
  have hrec : ∀ r, received (mid ++ [.result r]) = received mid := by simp [received]
  have hdrop : ∀ r b, ConsoleEvent.dropped b ∉ mid ++ [.result r] := by simpa using hnone
  split
  · have hret : returned (mid ++ [.result SfError.wouldBlock.code]) = returned mid := by
      rw [returned, filterMap_append]
      exact append_nil _
    refine ⟨h.le, h.full, ?_, fun _ => ⟨?_, hdrop _⟩⟩ <;> rw [hret, hrec]
    · exact h.kept
    · exact hexact
  · rename_i hcount
    obtain ⟨count, hc⟩ := Nat.exists_eq_succ_of_ne_zero hcount
    have hret : ∀ b : UInt8, returned (mid ++ [.result b.toNat]) = returned mid ++ [b] := by simp [returned]
    have hsame : received mid = returned mid ++ [c.input (cell c.head)] ++ contents c.input ((c.head + 1) % 256) count := by
      rw [hexact, hc, contents_pop, append_assoc, singleton_append]
    refine ⟨(Nat.sub_le _ _).trans h.le, fun hf => absurd hf hflag, ?_, fun _ => ⟨?_, hdrop _⟩⟩ <;>
      rw [hret, hrec, hc]
    · rw [hsame]
      exact prefix_refl _
    · exact hsame

theorem unread_moves (hempty : Unread c []) (ts : List (Option UInt8)) (hmid : overflowEvent ∉ moveEvents c ts) :
    Unread (moveAll c ts) (moveEvents c ts) := by
  induction ts using List.reverseRecOn with
  | nil => exact hempty
  | append_singleton ts t ih =>
    rw [moveEvents_append] at hmid ⊢
    have h := ih fun hin => hmid (mem_append_left _ hin)
    have hlast : moveAll c (ts ++ [t]) = (move (moveAll c ts) t).2 := foldl_append
    rw [hlast]
    cases t with
    | some b => exact h.byte b
    | none => exact h.read fun heq => hmid (mem_append_right _ (heq ▸ mem_cons_self))

/-- A dropped byte is reported before anything else. -/
theorem reported_moves (hflag : c.overflow = true) (ts : List (Option UInt8)) (hmid : overflowEvent ∉ moveEvents c ts)
    (r : Int) : .result r ∉ moveEvents c ts := by
  induction ts generalizing c with
  | nil => exact not_mem_nil
  | cons t ts ih =>
    obtain ⟨hhead, htail⟩ := not_or.1 (fun h => hmid (mem_cons.2 h))
    cases t with
    | none => exact absurd (by simp [move, consoleRead, hflag]) hhead
    | some b =>
      refine not_mem_cons_of_ne_of_not_mem ?_ (ih ?_ htail)
      · unfold move
        dsimp only
        split <;> exact ConsoleEvent.noConfusion
      · simp only [move, consoleIrq, foldl_cons, foldl_nil]
        split
        · exact hflag
        · rfl

theorem unread_begin {us : List (Option UInt8)} (h : Begins (moveEvents consoleStart us)) :
    Unread (moveAll consoleStart us) [] := by
  have hempty : ∀ {c : Console}, c.count = 0 ∧ c.overflow = false → Unread c [] := by
    rintro c ⟨hcount, hflag⟩
    have hnone : contents c.input c.head c.count = [] := by
      rw [hcount]
      rfl
    refine ⟨by omega, fun hf => absurd (hf.symm.trans hflag) (by decide), ?_, fun _ => ⟨?_, fun _ => not_mem_nil⟩⟩ <;>
      rw [hnone]
    · exact prefix_refl _
    · rfl
  rcases h with h | ⟨a, h⟩
  · cases us with
    | nil => exact hempty ⟨rfl, rfl⟩
    | cons t us => cases h
  · obtain ⟨xs, vs, rfl, -, hv⟩ := moveEvents_split h
    obtain ⟨t, ws, rfl, ht, hw⟩ := moveEvents_cons hv
    cases ws with
    | cons _ _ => cases hw
    | nil =>
      rw [moveAll, foldl_append]
      exact hempty ((move_event ht).1 rfl)

/-- **Console input is never lost silently.** -/
theorem console_no_silent_loss (ops : List ConsoleOp) : NoSilentLoss (consoleTrace consoleStart ops) := by
  obtain ⟨ts, hts⟩ := consoleTrace_moves consoleStart ops
  rw [hts]
  constructor
  · intro a mid z h hbegin hmid
    obtain ⟨xs, zs, -, hx, -⟩ := moveEvents_split h
    obtain ⟨us, vs, -, rfl, rfl⟩ := moveEvents_split hx
    exact (prefix_append _ _).trans (unread_moves (unread_begin hbegin) vs hmid).kept
  · intro a b mid z h hmid
    obtain ⟨xs, zs, -, hx, -⟩ := moveEvents_split h
    obtain ⟨us, vs, -, -, hv⟩ := moveEvents_split hx
    obtain ⟨t, ws, -, ht, rfl⟩ := moveEvents_cons hv
    exact reported_moves ((move_event ht).2.2 b rfl) ws hmid
  · intro a mid z h hbegin hmid
    obtain ⟨xs, zs, -, hx, hz⟩ := moveEvents_split h
    obtain ⟨us, vs, rfl, rfl, rfl⟩ := moveEvents_split hx
    obtain ⟨t, ws, -, ht, -⟩ := moveEvents_cons hz
    rw [moveAll, foldl_append] at ht
    obtain ⟨hcount, hflag⟩ := (move_event ht).2.1 rfl
    obtain ⟨hexact, hnone⟩ := (unread_moves (unread_begin hbegin) vs hmid).exact hflag
    have hcount : (moveAll (moveAll consoleStart us) vs).count = 0 := hcount
    rw [hcount] at hexact
    exact ⟨hexact.trans (append_nil _), hnone⟩

end Console

end SpiritFox.Core
