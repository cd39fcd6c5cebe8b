import SpiritFox.Kernel.State

/-!
# Pages and address spaces

`kernel/memory.c`: the page pool, the four levels of page tables that a task's pages are mapped through, and the
copies between the kernel and a task. A pointer into the pool is its physical address, since the kernel runs on an
identity map.
-/

namespace SpiritFox.Core

open ByteMem

/-- The address bits of a table entry. -/
def entryMask : Nat := 0x000ffffffffff000

def nx : Nat := 2 ^ 63

/-- `PTE_MMIO` -/
def pteMmio : Nat := 2 ^ 9

/-- Entry `i` of the table at `table`. -/
def entry (m : Mem) (table i : Nat) : Nat := load m (table + 8 * i) 8

def setEntry (m : Mem) (table i value : Nat) : Mem := store m (table + 8 * i) 8 value

section Memory

variable (L : Layout)

/-- `pool[i]` -/
def poolPage (i : PageId) : Nat := L.pool + 4096 * i

/-! ## The pool -/

/-- `page_owner` -/
def pageOwner (k : Kernel) (pid : Nat) : Option TaskId :=
  if pid = 0 ∨ 0x7fffffff < pid then none
  else (List.finRange 12).find? fun j => (k.tasks j).pid = pid ∧ (k.tasks j).state ≠ .dead

/-- `page_alloc` -/
def pageAlloc (k : Kernel) (pid : Nat) : Option PageId × Kernel :=
  match pageOwner k pid with
  | none => (none, k)
  | some j =>
    let t := k.tasks j
    if t.pageLimit ≤ t.pageCount then (none, k)
    else match (List.finRange 4096).find? fun i => k.owner i = 0 with
      | none => (none, k)
      | some i =>
        (some i, { k.setTask j { t with pageCount := t.pageCount + 1 } with
          owner := Function.update k.owner i pid
          mem := clear k.mem (poolPage L i) 4096 })

/-- The byte lies in a pool page of this owner. -/
def ownedByte (k : Kernel) (pid a : Nat) : Prop := ∃ i : PageId, k.owner i = pid ∧ poolPage L i ≤ a ∧ a < poolPage L i + 4096

instance (k : Kernel) (pid a : Nat) : Decidable (ownedByte L k pid a) := inferInstanceAs (Decidable (∃ _, _))

/-- `pages_free` -/
def pagesFree (k : Kernel) (pid : Nat) : Kernel :=
  if pid = 0 ∨ 0x7fffffff < pid then k
  else { k with
    mem := fun a => if ownedByte L k pid a then 0 else k.mem a
    owner := fun i => if k.owner i = pid then 0 else k.owner i
    tasks := fun j => if (k.tasks j).pid = pid then { k.tasks j with pageCount := 0 } else k.tasks j }

/-! ## Address spaces -/

/-- `space_new`: the address of the top table, 0 when the pool has no page. -/
def spaceNew (k : Kernel) (pid : Nat) : Nat × Kernel :=
  let (p4, k) := pageAlloc L k pid
  let (p3, k) := pageAlloc L k pid
  match p4, p3 with
  | some p4, some p3 =>
    let m := setEntry k.mem (poolPage L p4) 0 (poolPage L p3 ||| 7)
    let m := setEntry m (poolPage L p3) 0 (L.kernelPd ||| 3)
    let m := if k.mmioReady then setEntry m (poolPage L p3) 3 (L.mmioPd ||| 3) else m
    (poolPage L p4, { k with mem := m })
  | _, _ => (0, k)

/-- The table that entry `i` of `table` points to, made when it is missing and `create` is set. -/
def nextTable (k : Kernel) (pid table i : Nat) (create : Bool) : Option Nat × Kernel :=
  if entry k.mem table i &&& 1 ≠ 0 then (some (entry k.mem table i &&& entryMask), k)
  else if create = false then (none, k)
  else match pageAlloc L k pid with
    | (none, k) => (none, k)
    | (some p, k) =>
      let k := { k with mem := setEntry k.mem table i (poolPage L p ||| 7) }
      (some (entry k.mem table i &&& entryMask), k)

/-- `pte`: the address of the last-level entry for `v`. -/
def pte (k : Kernel) (j : TaskId) (v : Nat) (create : Bool) : Option Nat × Kernel :=
  if v < 0x40000000 ∨ 0x80000000 ≤ v then (none, k)
  else
    let t := k.tasks j
    let p3 := entry k.mem t.cr3 0 &&& entryMask
    match nextTable L k t.pid p3 (v / 2 ^ 30) create with
    | (none, k) => (none, k)
    | (some p2, k) => match nextTable L k t.pid p2 (v / 2 ^ 21 % 512) create with
      | (none, k) => (none, k)
      | (some p1, k) => (some (p1 + 8 * (v / 2 ^ 12 % 512)), k)

/-- The entry that `pte` finds without making tables. -/
def lookup (k : Kernel) (j : TaskId) (v : Nat) : Option Nat := (pte L k j v false).1.map fun a => load k.mem a 8

/-- `space_map` -/
def spaceMap (k : Kernel) (j : TaskId) (v physical flags : Nat) : Except SfError Unit × Kernel :=
  if v % 4096 ≠ 0 ∨ physical % 4096 ≠ 0 ∨ flags &&& 1 = 0 ∨ flags &&& 6 = 6 then (.error .denied, k)
  else match pte L k j v true with
    | (none, k) => (.error .noSpace, k)
    | (some a, k) =>
      if load k.mem a 8 &&& 1 ≠ 0 then (.error .invalid, k)
      else
        let writable := if flags &&& 2 ≠ 0 then 2 else 0
        let execute := if flags &&& 4 ≠ 0 then 0 else nx
        (.ok (), { k with mem := store k.mem a 8 (physical ||| 5 ||| writable ||| execute) })

/-- `space_map_mmio` -/
def spaceMapMmio (k : Kernel) (j : TaskId) (v physical : Nat) : Except SfError Unit × Kernel :=
  match spaceMap L k j v physical 3 with
  | (.error e, k) => (.error e, k)
  | (.ok _, k) => match (pte L k j v false).1 with
    | none => (.ok (), k)
    | some a => (.ok (), { k with mem := store k.mem a 8 (load k.mem a 8 ||| 0x18 ||| pteMmio) })

/-! ## Copies -/

/-- One page of `user_range`. -/
def userPage (k : Kernel) (j : TaskId) (v : Nat) (write : Bool) : Bool :=
  match lookup L k j v with
  | none => false
  | some p => p &&& 1 ≠ 0 ∧ p &&& 4 ≠ 0 ∧ p &&& pteMmio = 0 ∧ (write → p &&& 2 ≠ 0)

/-- `user_range` -/
def userRange (k : Kernel) (j : TaskId) (v n : Nat) (write : Bool) : Bool :=
  if v < 0x40000000 ∨ 0x80000000 ≤ v ∨ 0x80000000 - v < n then false
  else if n = 0 then true
  else (List.range ((v + n - 1) / 4096 - v / 4096 + 1)).all fun i => userPage L k j ((v / 4096 + i) * 4096) write

/-- `user_phys`, with 0 for the null pointer. -/
def userPhys (k : Kernel) (j : TaskId) (v : Nat) : Nat :=
  match lookup L k j v with
  | none => 0
  | some p => if p &&& 1 ≠ 0 then (p &&& entryMask) + v % 4096 else 0

/-- The part of a copy that lies in one page. -/
def chunk (v n : Nat) : Nat := min (4096 - v % 4096) n

/-- The loop of `copy_in`; every round copies at least one byte, so `n` rounds are enough. -/
def copyInLoop (k : Kernel) (j : TaskId) : Nat → Nat → Nat → List UInt8
  | 0, _, _ => []
  | rounds + 1, src, n =>
    if n = 0 then []
    else slice k.mem (userPhys L k j src) (chunk src n) ++ copyInLoop k j rounds (src + chunk src n) (n - chunk src n)

/-- `copy_in` -/
def copyIn (k : Kernel) (j : TaskId) (src n : Nat) : Option (List UInt8) :=
  if userRange L k j src n false then some (copyInLoop L k j n src n) else none

/-- The loop of `copy_out`. -/
def copyOutLoop (j : TaskId) : Nat → Kernel → Nat → List UInt8 → Kernel
  | 0, k, _, _ => k
  | rounds + 1, k, dst, bytes =>
    if bytes = [] then k
    else
      let c := chunk dst bytes.length
      copyOutLoop j rounds { k with mem := blit k.mem (userPhys L k j dst) (bytes.take c) } (dst + c) (bytes.drop c)

/-- `copy_out`: `none` when the range is refused. -/
def copyOut (k : Kernel) (j : TaskId) (dst : Nat) (bytes : List UInt8) : Option Kernel :=
  if userRange L k j dst bytes.length true then some (copyOutLoop L j bytes.length k dst bytes) else none

end Memory

end SpiritFox.Core
