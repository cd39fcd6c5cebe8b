import Mathlib.Data.List.Basic
import Mathlib.Logic.Function.Basic

/-!
# Block devices with a volatile write cache

A `Disk` holds its durable contents and the writes that no flush has made durable yet, oldest first. Reads see the
newest write (`cache`); a power loss leaves at every address, independently of the others, what was durable, any one
of the pending writes to it, or a torn mixture (`Left`, `Crash`). Which contents a torn write can leave is a parameter.

A `Faulty` disk carries a script with the outcome of each operation to come. A write that fails may still have left
any number of versions behind; a flush that fails leaves everything pending, which covers every partial flush, since a
later power loss may keep any subset of what is pending.

`perform` runs a list of operations up to the first failure. Its two lemmas are all the proofs below need: what a run of
writes can leave behind (`perform_left`), and what it has written when every operation succeeded (`perform_cache`).
-/

namespace WriteCache

open List

variable {S : Type}

structure Disk (S : Type) where
  durable : Nat → S
  pending : List (Nat × S)

/-- The contents with a list of writes applied, oldest first. -/
def applyAll (ws : List (Nat × S)) (m : Nat → S) : Nat → S :=
  ws.foldl (fun m w => Function.update m w.1 w.2) m

/-- What reads return. -/
def Disk.cache (d : Disk S) : Nat → S := applyAll d.pending d.durable

def Disk.write (d : Disk S) (a : Nat) (s : S) : Disk S := { d with pending := d.pending ++ [(a, s)] }

def Disk.flush (d : Disk S) : Disk S := ⟨d.cache, []⟩

/-- No write to `a` is waiting for a flush. -/
def Disk.Clean (d : Disk S) (a : Nat) : Prop := ∀ s, (a, s) ∉ d.pending

/-- Address `a` may hold `s` after a power loss. -/
def Left (torn : Nat → S → Prop) (d : Disk S) (a : Nat) (s : S) : Prop :=
  s = d.durable a ∨ (a, s) ∈ d.pending ∨ (torn a s ∧ ∃ s', (a, s') ∈ d.pending)

/-- `m` is what a power loss may leave on the medium. -/
def Crash (torn : Nat → S → Prop) (d : Disk S) (m : Nat → S) : Prop := ∀ a, Left torn d a (m a)

/-! ## What a power loss can leave -/

section Power

variable {torn : Nat → S → Prop} {d : Disk S} {a b : Nat} {s t : S}

theorem applyAll_append (ws vs : List (Nat × S)) (m : Nat → S) :
    applyAll (ws ++ vs) m = applyAll vs (applyAll ws m) := by
  unfold applyAll
  exact foldl_append

/-- An address no write goes to keeps its contents. -/
theorem applyAll_other : ∀ (ws : List (Nat × S)) (m : Nat → S) {a : Nat}, (∀ s, (a, s) ∉ ws) → applyAll ws m a = m a
  | [], _, _, _ => rfl
  | (b, t) :: ws, m, a, h => by
    have hab : a ≠ b := fun e => h t (by simp [e])
    show applyAll ws (Function.update m b t) a = m a
    rw [applyAll_other ws _ fun s hs => h s (mem_cons_of_mem _ hs), Function.update_of_ne hab]

/-- An address holds the contents it had or one of the writes to it. -/
theorem applyAll_mem : ∀ (ws : List (Nat × S)) (m : Nat → S) (a : Nat),
    applyAll ws m a = m a ∨ (a, applyAll ws m a) ∈ ws
  | [], _, _ => Or.inl rfl
  | (b, t) :: ws, m, a => by
    show applyAll ws (Function.update m b t) a = m a ∨ _
    rcases applyAll_mem ws (Function.update m b t) a with h | h
    · by_cases hab : a = b
      · subst hab
        rw [Function.update_self] at h
        exact Or.inr (mem_cons.2 (Or.inl (congrArg (Prod.mk a) h)))
      · exact Or.inl (by rw [h, Function.update_of_ne hab])
    · exact Or.inr (mem_cons_of_mem _ h)

/-- Writes to distinct addresses all take effect. -/
theorem applyAll_of_mem : ∀ (ws : List (Nat × S)) (m : Nat → S), (ws.map Prod.fst).Nodup → ∀ {a : Nat} {s : S},
    (a, s) ∈ ws → applyAll ws m a = s
  | (b, t) :: ws, m, hn, a, s, h => by
    obtain ⟨hb, hn⟩ := nodup_cons.1 hn
    show applyAll ws (Function.update m b t) a = s
    rcases mem_cons.1 h with h | h
    · obtain ⟨rfl, rfl⟩ := Prod.mk.inj h
      rw [applyAll_other ws _ fun u hu => hb (mem_map.2 ⟨_, hu, rfl⟩), Function.update_self]
    · exact applyAll_of_mem ws _ hn h

theorem cache_clean (h : d.Clean a) : d.cache a = d.durable a := applyAll_other _ _ h

@[simp] theorem cache_write (d : Disk S) (a : Nat) (s : S) : (d.write a s).cache = Function.update d.cache a s := by
  simp [Disk.cache, Disk.write, applyAll]

theorem cache_single (m : Nat → S) (a : Nat) (s : S) : (⟨m, [(a, s)]⟩ : Disk S).cache = Function.update m a s := rfl

/-- Reads return something a power loss may leave. -/
theorem left_cache (torn : Nat → S → Prop) (d : Disk S) (a : Nat) : Left torn d a (d.cache a) := by
  rcases applyAll_mem d.pending d.durable a with h | h
  · exact Or.inl h
  · exact Or.inr (Or.inl h)

/-- The running device is one of its own power-loss outcomes. -/
theorem crash_cache (torn : Nat → S → Prop) (d : Disk S) : Crash torn d d.cache := left_cache torn d

/-- Without a pending write the contents are settled. -/
theorem left_clean (h : d.Clean a) (hl : Left torn d a s) : s = d.durable a := by
  rcases hl with hl | hl | ⟨_, t, ht⟩
  · exact hl
  · exact absurd hl (h s)
  · exact absurd ht (h t)

theorem clean_flush (d : Disk S) (a : Nat) : d.flush.Clean a := fun s hs => by simp [Disk.flush] at hs

theorem clean_of_no_pending (h : d.pending = []) (a : Nat) : d.Clean a := fun s hs => by simp [h] at hs

end Power

/-! ## Operations that fail -/

/-- One version of a sector that a failed write leaves behind. -/
inductive Residue (S : Type) where
  | old
  | new
  | torn (s : S)

inductive Outcome (S : Type) where
  | ok
  | fail (left : List (Residue S))

structure Faulty (S : Type) where
  disk : Disk S
  script : List (Outcome S)

inductive Op (S : Type) where
  | write (a : Nat) (s : S)
  | flush

/-- What a residue of writing `s` to `a` is; a torn version the device cannot produce is dropped. -/
def Residue.content (tornOk : Nat → S → Bool) (d : Disk S) (a : Nat) (s : S) : Residue S → Option S
  | .old => some (d.cache a)
  | .new => some s
  | .torn t => if tornOk a t then some t else none

/-- One operation, with the next outcome of the script (success once the script is used up). -/
def Faulty.op (tornOk : Nat → S → Bool) (f : Faulty S) : Op S → Bool × Faulty S
  | .write a s =>
    match f.script with
    | .fail left :: rest =>
      (false, ⟨{ f.disk with pending :=
        f.disk.pending ++ (left.filterMap (Residue.content tornOk f.disk a s)).map (Prod.mk a) }, rest⟩)
    | _ => (true, ⟨f.disk.write a s, f.script.tail⟩)
  | .flush =>
    match f.script with
    | .fail _ :: rest => (false, ⟨f.disk, rest⟩)
    | _ => (true, ⟨f.disk.flush, f.script.tail⟩)

/-- Operations in order, up to the first failure. -/
def perform (tornOk : Nat → S → Bool) : List (Op S) → Faulty S → Bool × Faulty S
  | [], f => (true, f)
  | o :: os, f =>
    let (ok, f') := f.op tornOk o
    if ok then perform tornOk os f' else (false, f')

section Runs

variable (tornOk : Nat → S → Bool)

theorem perform_append (os ps : List (Op S)) (f : Faulty S) :
    perform tornOk (os ++ ps) f =
      if (perform tornOk os f).1 then perform tornOk ps (perform tornOk os f).2 else perform tornOk os f := by
  induction os generalizing f with
  | nil => simp [perform]
  | cons o os ih =>
    simp only [cons_append, perform]
    by_cases h : (f.op tornOk o).1 = true
    · simp only [h, ↓reduceIte, ih]
    · simp [h]

theorem perform_flush (f : Faulty S) :
    ((perform tornOk [Op.flush] f).1 = true ∧ (perform tornOk [Op.flush] f).2.disk = f.disk.flush) ∨
      ((perform tornOk [Op.flush] f).1 = false ∧ (perform tornOk [Op.flush] f).2.disk = f.disk) := by
  rcases f with ⟨d, _ | ⟨o, rest⟩⟩
  · exact Or.inl ⟨rfl, rfl⟩
  cases o with
  | ok => exact Or.inl ⟨rfl, rfl⟩
  | fail left => exact Or.inr ⟨rfl, rfl⟩

/-- What holds of a failed first part and of every outcome of the second holds of the whole run. -/
theorem perform_append_cases {R : Bool × Faulty S → Prop} {os ps : List (Op S)} {f : Faulty S}
    (hfail : (perform tornOk os f).1 = false → R (perform tornOk os f))
    (hok : (perform tornOk os f).1 = true → R (perform tornOk ps (perform tornOk os f).2)) :
    R (perform tornOk (os ++ ps) f) := by
  rw [perform_append]
  cases h : (perform tornOk os f).1 with
  | false => exact hfail h
  | true => exact hok h

/-- What a write can do: succeed, or fail and leave versions that are old, new or torn. -/
theorem op_write_cases (f : Faulty S) (b : Nat) (t : S) :
    ((f.op tornOk (.write b t)).1 = true ∧ (f.op tornOk (.write b t)).2.disk = f.disk.write b t) ∨
      ((f.op tornOk (.write b t)).1 = false ∧ ∃ ss : List S, (f.op tornOk (.write b t)).2.disk =
          { f.disk with pending := f.disk.pending ++ ss.map (Prod.mk b) } ∧
        ∀ s ∈ ss, s = f.disk.cache b ∨ s = t ∨ tornOk b s = true) := by
  rcases f with ⟨d, _ | ⟨o, rest⟩⟩
  · exact Or.inl ⟨rfl, rfl⟩
  cases o with
  | ok => exact Or.inl ⟨rfl, rfl⟩
  | fail left =>
    refine Or.inr ⟨rfl, _, rfl, fun s hs => ?_⟩
    obtain ⟨r, _, hr⟩ := mem_filterMap.1 hs
    cases r with
    | old => exact Or.inl (Option.some.inj hr).symm
    | new => exact Or.inr (Or.inl (Option.some.inj hr).symm)
    | torn u =>
      simp only [Residue.content] at hr
      split at hr
      · cases hr; exact Or.inr (Or.inr ‹_›)
      · cases hr

/-- Whatever its outcome, a write adds to what a power loss may leave only its own contents, or a torn one. -/
theorem op_write_left (f : Faulty S) (b : Nat) (t : S) {a : Nat} {s : S}
    (h : Left (fun a s => tornOk a s = true) (f.op tornOk (.write b t)).2.disk a s) :
    Left (fun a s => tornOk a s = true) f.disk a s ∨ (a = b ∧ (s = t ∨ tornOk a s = true)) := by
  -- both outcomes append versions of `b` to what is pending
  obtain ⟨ss, hd, hss⟩ : ∃ ss : List S, (f.op tornOk (.write b t)).2.disk =
      { f.disk with pending := f.disk.pending ++ ss.map (Prod.mk b) } ∧
        ∀ s ∈ ss, s = f.disk.cache b ∨ s = t ∨ tornOk b s = true := by
    rcases op_write_cases tornOk f b t with ⟨_, hd⟩ | ⟨_, h⟩
    · exact ⟨[t], hd, fun s hs => Or.inr (Or.inl (mem_singleton.1 hs))⟩
    · exact h
  rw [hd] at h
  rcases h with h | h | ⟨ht, u, hu⟩
  · exact Or.inl (Or.inl h)
  · rcases mem_append.1 h with h | h
    · exact Or.inl (Or.inr (Or.inl h))
    · obtain ⟨s', hs', heq⟩ := mem_map.1 h
      obtain ⟨rfl, rfl⟩ := Prod.mk.inj heq
      rcases hss s' hs' with rfl | rfl | hs
      · exact Or.inl (left_cache _ _ _)
      · exact Or.inr ⟨rfl, Or.inl rfl⟩
      · exact Or.inr ⟨rfl, Or.inr hs⟩
  · rcases mem_append.1 hu with hu | hu
    · exact Or.inl (Or.inr (Or.inr ⟨ht, u, hu⟩))
    · obtain ⟨_, _, heq⟩ := mem_map.1 hu
      exact Or.inr ⟨(Prod.mk.inj heq).1.symm, Or.inr ht⟩

/-- A write to `b` leaves every other clean address clean. -/
theorem op_write_clean (f : Faulty S) (t : S) {a b : Nat} (hab : a ≠ b) (hc : f.disk.Clean a) :
    (f.op tornOk (.write b t)).2.disk.Clean a ∧
      (f.op tornOk (.write b t)).2.disk.durable a = f.disk.durable a := by
  rcases op_write_cases tornOk f b t with ⟨_, hd⟩ | ⟨_, ss, hd, _⟩
  · rw [hd]
    refine ⟨fun s hs => ?_, rfl⟩
    rcases mem_append.1 hs with hs | hs
    · exact hc s hs
    · exact hab (Prod.mk.inj (mem_singleton.1 hs)).1
  · rw [hd]
    refine ⟨fun s hs => ?_, rfl⟩
    rcases mem_append.1 hs with hs | hs
    · exact hc s hs
    · obtain ⟨_, _, heq⟩ := mem_map.1 hs
      exact hab (Prod.mk.inj heq).1.symm

/-- What a run of writes may leave, whether or not it got through. -/
theorem perform_left : ∀ (ws : List (Nat × S)) (f : Faulty S) {a : Nat} {s : S},
    Left (fun a s => tornOk a s = true) (perform tornOk (ws.map fun w => Op.write w.1 w.2) f).2.disk a s →
    Left (fun a s => tornOk a s = true) f.disk a s ∨ ∃ t, (a, t) ∈ ws ∧ (s = t ∨ tornOk a s = true)
  | [], _, _, _, h => Or.inl h
  | (b, t) :: ws, f, a, s, h => by
    have hop : Left (fun a s => tornOk a s = true) (f.op tornOk (.write b t)).2.disk a s →
        Left (fun a s => tornOk a s = true) f.disk a s ∨ ∃ u, (a, u) ∈ (b, t) :: ws ∧ (s = u ∨ tornOk a s = true) := by
      intro hl
      rcases op_write_left tornOk f b t hl with ho | ⟨rfl, hn⟩
      · exact Or.inl ho
      · exact Or.inr ⟨t, mem_cons_self, hn⟩
    simp only [map_cons, perform] at h
    split at h
    · rcases perform_left ws _ h with h | ⟨u, hu, h⟩
      · exact hop h
      · exact Or.inr ⟨u, mem_cons_of_mem _ hu, h⟩
    · exact hop h

/-- An address that a run of writes does not go to stays clean. -/
theorem perform_clean : ∀ (ws : List (Nat × S)) (f : Faulty S) {a : Nat}, f.disk.Clean a → (∀ s, (a, s) ∉ ws) →
    (perform tornOk (ws.map fun w => Op.write w.1 w.2) f).2.disk.Clean a ∧
      (perform tornOk (ws.map fun w => Op.write w.1 w.2) f).2.disk.durable a = f.disk.durable a
  | [], _, _, hc, _ => ⟨hc, rfl⟩
  | (b, t) :: ws, f, a, hc, h => by
    have hab : a ≠ b := fun e => h t (by simp [e])
    have hop := op_write_clean tornOk f t hab hc
    simp only [map_cons, perform]
    split
    · obtain ⟨h₁, h₂⟩ := perform_clean ws _ hop.1 fun s hs => h s (mem_cons_of_mem _ hs)
      exact ⟨h₁, h₂.trans hop.2⟩
    · exact hop

/-- A run of writes that got through has written all of them. -/
theorem perform_cache : ∀ (ws : List (Nat × S)) (f : Faulty S),
    (perform tornOk (ws.map fun w => Op.write w.1 w.2) f).1 = true →
    (perform tornOk (ws.map fun w => Op.write w.1 w.2) f).2.disk.cache = applyAll ws f.disk.cache
  | [], _, _ => rfl
  | (b, t) :: ws, f, h => by
    simp only [map_cons, perform] at h ⊢
    split at h
    · rename_i hok
      rw [if_pos hok, perform_cache ws _ h]
      rcases op_write_cases tornOk f b t with ⟨_, hd⟩ | ⟨hno, _⟩
      · rw [hd, cache_write]
        rfl
      · rw [hno] at hok; cases hok
    · cases h

/-- The disk after operations that all succeed. -/
def Disk.run (d : Disk S) (ops : List (Op S)) : Disk S :=
  ops.foldl (fun d o => match o with
    | .write a s => d.write a s
    | .flush => d.flush) d

theorem run_append (d : Disk S) (os ps : List (Op S)) : d.run (os ++ ps) = (d.run os).run ps := by
  unfold Disk.run
  rw [foldl_append]

theorem run_flush (d : Disk S) : d.run [Op.flush] = d.flush := rfl

theorem run_writes : ∀ (ws : List (Nat × S)) (d : Disk S),
    d.run (ws.map fun w => Op.write w.1 w.2) = ⟨d.durable, d.pending ++ ws⟩
  | [], d => by simp [Disk.run]
  | w :: ws, d => by
    show (d.write w.1 w.2).run _ = _
    rw [run_writes ws]
    simp [Disk.write]

/-- Operations that got through have all been carried out. -/
theorem perform_run : ∀ (ops : List (Op S)) (f : Faulty S), (perform tornOk ops f).1 = true →
    (perform tornOk ops f).2.disk = f.disk.run ops
  | [], _, _ => rfl
  | o :: ops, f, h => by
    have hop : (f.op tornOk o).1 = true → (f.op tornOk o).2.disk = f.disk.run [o] := by
      cases o <;> unfold Faulty.op <;> dsimp only <;> split <;> simp [Disk.run]
    simp only [perform] at h ⊢
    split at h
    · rename_i hok
      rw [if_pos hok, perform_run ops _ h, hop hok]
      rfl
    · cases h

/-- What reads return after operations depends on what they returned before. -/
theorem cache_run_congr : ∀ (ops : List (Op S)) {d d' : Disk S}, d.cache = d'.cache → (d.run ops).cache = (d'.run ops).cache
  | [], _, _, h => h
  | .write a s :: ops, d, d', h => by
    have hwrite : (d.write a s).cache = (d'.write a s).cache := by rw [cache_write, cache_write, h]
    exact cache_run_congr ops hwrite
  | .flush :: ops, d, d', h => by
    have hflush : d.flush.cache = d'.flush.cache := h
    exact cache_run_congr ops hflush

/-- A script that starts with successes gets that far. -/
theorem perform_ok : ∀ (ops : List (Op S)) (d : Disk S) (rest : List (Outcome S)),
    perform tornOk ops ⟨d, replicate ops.length .ok ++ rest⟩ = (true, ⟨d.run ops, rest⟩)
  | [], d, rest => rfl
  | o :: ops, d, rest => by
    have ih := perform_ok ops (d.run [o]) rest
    simp only [length_cons, replicate_succ, cons_append, perform]
    cases o <;> exact ih

/-- A run cut by a power loss after `n` operations leaves what some failing run leaves. -/
theorem perform_take : ∀ (ops : List (Op S)) (n : Nat) (d : Disk S) (script : List (Outcome S)),
    ∃ script', (perform tornOk (ops.take n) ⟨d, script⟩).2.disk = (perform tornOk ops ⟨d, script'⟩).2.disk
  | [], n, d, script => ⟨script, by rw [take_nil]⟩
  | o :: ops, 0, d, script => ⟨[.fail []], by cases o <;> simp [perform, Faulty.op]⟩
  | o :: ops, n + 1, d, script => by
    -- the outcome at the head of the script, success when there is none
    obtain ⟨x, rest, hop⟩ : ∃ x rest, ∀ rest', Faulty.op tornOk ⟨d, x :: rest'⟩ o =
        ((Faulty.op tornOk ⟨d, script⟩ o).1, ⟨(Faulty.op tornOk ⟨d, script⟩ o).2.disk, rest'⟩) ∧
        (Faulty.op tornOk ⟨d, script⟩ o).2.script = rest := by
      rcases script with _ | ⟨x, rest⟩
      · exact ⟨.ok, [], fun rest' => by cases o <;> exact ⟨rfl, rfl⟩⟩
      · exact ⟨x, rest, fun rest' => by cases x <;> cases o <;> exact ⟨rfl, rfl⟩⟩
    obtain ⟨script', hs⟩ := perform_take ops n (Faulty.op tornOk ⟨d, script⟩ o).2.disk rest
    refine ⟨x :: script', ?_⟩
    simp only [take_succ_cons, perform, (hop script').1]
    split
    · rw [← hs, ← (hop script').2]
    · rfl

end Runs

end WriteCache
