import SpiritFox.Lib.Fold
import SpiritFox.Lib.Tally
import SpiritFox.Abi
import Mathlib.Logic.Relation
import Mathlib.Data.List.FinRange

/-!
# The module manager

`services/manager.c`: sixteen slots for modules, each with a state, a ledger of resources and a set of slots it
depends on. A dependency is a bit of a mask together with the generation that the slot had when the module was
added, so that a module added later in the same slot is another provider. A running module holds one lease on each
of its providers.

`Effect` says what each call does when it succeeds, and `call_cases` that a call that fails does nothing. `Sound` is
what every call keeps; the main result is `lease_ledger`.
-/

namespace SpiritFox.Manager

open Tally Function

inductive ModState where
  | discovered
  | verified
  | resolved
  | staged
  | initialized
  | active
  | quiescing
  | draining
  | stopped
  | unloaded
  | failed
  | quarantined
  deriving DecidableEq, Repr

abbrev Slot := Fin 16

/-- `RES_LEASE` is the first of `RES_COUNT` = 10 resources. -/
abbrev Resource := Fin 10

def resLease : Resource := 0

def uint32Max : Nat := 0xffffffff

structure SfModule where
  id : List UInt8
  generation : Nat
  state : ModState
  pinned : Nat
  dependencies : Nat
  resources : Resource → Nat
  dependencyGenerations : Slot → Nat

structure SfManager where
  modules : Slot → SfModule
  nextGeneration : Nat

/-- `SfManager m = {0}` -/
def emptyManager : SfManager := ⟨fun _ => ⟨[], 0, .discovered, 0, 0, fun _ => 0, fun _ => 0⟩, 0⟩

/-! ## Calls -/

def registered (x : SfModule) : Bool := x.generation ≠ 0 ∧ x.state ≠ .discovered ∧ x.state ≠ .unloaded

def SfManager.setModule (m : SfManager) (i : Slot) (x : SfModule) : SfManager :=
  { m with modules := Function.update m.modules i x }

def SfManager.setState (m : SfManager) (i : Slot) (state : ModState) : SfManager :=
  m.setModule i { m.modules i with state := state }

def SfModule.setResource (x : SfModule) (r : Resource) (n : Nat) : SfModule :=
  { x with resources := Function.update x.resources r n }

/-- Bit `j` of a mask of dependencies. -/
def dependsOn (deps : Nat) (j : Slot) : Bool := deps.testBit j

/-- `n + 1` and `n - 1` of a `uint32_t`. -/
def increment (n : Nat) : Nat := (n + 1) % 2 ^ 32

def decrement (n : Nat) : Nat := (n + uint32Max) % 2 ^ 32

/-- `sfmod_add`: the slot of the new module. -/
def sfmodAdd (m : SfManager) (id : List UInt8) (deps pinned : Nat) : Except SfError Nat × SfManager :=
  if id = [] ∨ 64 ≤ id.length then (.error .invalid, m)
  else if deps >>> 16 ≠ 0 then (.error .dependency, m)
  else if ∃ j, dependsOn deps j ∧ ¬ registered (m.modules j) then (.error .dependency, m)
  else if m.nextGeneration = uint32Max then (.error .noSpace, m)
  else match (List.finRange 16).find? fun i => (m.modules i).state = .discovered ∨ (m.modules i).state = .unloaded with
    | none => (.error .noSpace, m)
    | some i =>
      let generation := increment m.nextGeneration
      let m := { m.setModule i ⟨id, generation, .verified, pinned, deps, fun _ => 0, fun _ => 0⟩ with
        nextGeneration := generation }
      (.ok i, m.setModule i { m.modules i with
        dependencyGenerations := fun j => if dependsOn deps j then (m.modules j).generation else 0 })

/-- Why the module in slot `i` cannot take a lease on slot `j`. -/
def bindRefusal (m : SfManager) (i j : Slot) : Option SfError :=
  let x := m.modules i
  let p := m.modules j
  if dependsOn x.dependencies j then
    if j = i ∨ p.state ≠ .active ∨ p.generation ≠ x.dependencyGenerations j then some .dependency
    else if p.resources resLease = uint32Max then some .noSpace
    else none
  else none

/-- Why the module in slot `i` cannot give back its lease on slot `j`. -/
def unbindRefusal (m : SfManager) (i j : Slot) : Option SfError :=
  let x := m.modules i
  let p := m.modules j
  if dependsOn x.dependencies j then
    if ¬ registered p ∨ p.generation ≠ x.dependencyGenerations j then some .dependency
    else if p.resources resLease = 0 then some .invalid
    else none
  else none

/-- The loop over the providers: the count of leases of each goes through `f`. -/
def SfManager.charge (m : SfManager) (deps : Nat) (f : Nat → Nat) : SfManager :=
  { m with
    modules := (List.finRange 16).foldl (fun ms j =>
      if dependsOn deps j then Function.update ms j
        ((ms j).setResource resLease (f ((ms j).resources resLease))) else ms) m.modules }

def startSlot (m : SfManager) (i : Slot) : Except SfError Nat × SfManager :=
  let x := m.modules i
  if x.state ≠ .verified ∧ x.state ≠ .stopped then (.error .invalid, m)
  else if x.dependencies >>> 16 ≠ 0 then (.error .dependency, m)
  else match (List.finRange 16).findSome? (bindRefusal m i) with
    | some e => (.error e, m)
    | none =>
      let m := ((m.setState i .resolved).setState i .staged).setState i .initialized
      (.ok 0, (m.charge x.dependencies increment).setState i .active)

def acquireSlot (m : SfManager) (i : Slot) (r : Resource) : Except SfError Nat × SfManager :=
  let x := m.modules i
  if x.state = .quiescing ∨ x.state = .draining then (.error .draining, m)
  else if x.state ≠ .active then (.error .staleHandle, m)
  else if x.resources r = uint32Max then (.error .noSpace, m)
  else (.ok 0, m.setModule i (x.setResource r (increment (x.resources r))))

def releaseSlot (m : SfManager) (i : Slot) (r : Resource) : Except SfError Nat × SfManager :=
  let x := m.modules i
  if x.resources r = 0 then (.error .invalid, m)
  else (.ok 0, m.setModule i (x.setResource r (decrement (x.resources r))))

def prepareSlot (m : SfManager) (i : Slot) : Except SfError Nat × SfManager :=
  let x := m.modules i
  if x.pinned ≠ 0 then (.error .denied, m)
  else if x.state ≠ .active then (.error .invalid, m)
  else (.ok 0, (m.setState i .quiescing).setState i .draining)

def cancelSlot (m : SfManager) (i : Slot) : Except SfError Nat × SfManager :=
  if (m.modules i).state ≠ .draining then (.error .invalid, m) else (.ok 0, m.setState i .active)

def stopSlot (m : SfManager) (i : Slot) : Except SfError Nat × SfManager :=
  let x := m.modules i
  if x.state ≠ .draining then (.error .invalid, m)
  else match (List.finRange 10).find? fun r => x.resources r ≠ 0 with
    | some r => (.error (if r = resLease then .dependency else .busy), m)
    | none =>
      if x.dependencies >>> 16 ≠ 0 then (.error .dependency, m)
      else match (List.finRange 16).findSome? (unbindRefusal m i) with
        | some e => (.error e, m)
        | none => (.ok 0, (m.charge x.dependencies decrement).setState i .stopped)

def unloadSlot (m : SfManager) (i : Slot) : Except SfError Nat × SfManager :=
  if (m.modules i).state ≠ .stopped then (.error .invalid, m) else (.ok 0, m.setState i .unloaded)

/-- The check of the slot that every call starts with. -/
def withSlot (m : SfManager) (i : Nat) (f : Slot → Except SfError Nat × SfManager) : Except SfError Nat × SfManager :=
  if h : i < 16 then f ⟨i, h⟩ else (.error .invalid, m)

/-- The check of the resource. -/
def withResource (m : SfManager) (r : Nat) (f : Resource → Except SfError Nat × SfManager) :
    Except SfError Nat × SfManager :=
  if h : r < 10 then f ⟨r, h⟩ else (.error .invalid, m)

def sfmodStart (m : SfManager) (i : Nat) : Except SfError Nat × SfManager := withSlot m i (startSlot m)

def sfmodAcquire (m : SfManager) (i r : Nat) : Except SfError Nat × SfManager :=
  withSlot m i fun i => withResource m r (acquireSlot m i)

def sfmodRelease (m : SfManager) (i r : Nat) : Except SfError Nat × SfManager :=
  withSlot m i fun i => withResource m r (releaseSlot m i)

def sfmodPrepare (m : SfManager) (i : Nat) : Except SfError Nat × SfManager := withSlot m i (prepareSlot m)

def sfmodCancel (m : SfManager) (i : Nat) : Except SfError Nat × SfManager := withSlot m i (cancelSlot m)

def sfmodStop (m : SfManager) (i : Nat) : Except SfError Nat × SfManager := withSlot m i (stopSlot m)

def sfmodUnload (m : SfManager) (i : Nat) : Except SfError Nat × SfManager := withSlot m i (unloadSlot m)

inductive Call where
  | add (id : List UInt8) (deps pinned : Nat)
  | start (i : Nat)
  | acquire (i r : Nat)
  | release (i r : Nat)
  | prepare (i : Nat)
  | cancel (i : Nat)
  | stop (i : Nat)
  | unload (i : Nat)

def call (m : SfManager) : Call → Except SfError Nat × SfManager
  | .add id deps pinned => sfmodAdd m id deps pinned
  | .start i => sfmodStart m i
  | .acquire i r => sfmodAcquire m i r
  | .release i r => sfmodRelease m i r
  | .prepare i => sfmodPrepare m i
  | .cancel i => sfmodCancel m i
  | .stop i => sfmodStop m i
  | .unload i => sfmodUnload m i

/-! ## What a call does -/

section Effects

variable {m m' : SfManager} {i j : Slot}

/-- The slot `i` is in `state` and the leases are counted by `lease`; all else is as it was but for other resources
of `i`. -/
structure Becomes (m m' : SfManager) (i : Slot) (state : ModState) (lease : Slot → Nat) : Prop where
  state : ∀ j, (m'.modules j).state = if j = i then state else (m.modules j).state
  lease : ∀ j, (m'.modules j).resources resLease = lease j
  id : ∀ j, (m'.modules j).id = (m.modules j).id
  generation : ∀ j, (m'.modules j).generation = (m.modules j).generation
  dependencies : ∀ j, (m'.modules j).dependencies = (m.modules j).dependencies
  recorded : ∀ j, (m'.modules j).dependencyGenerations = (m.modules j).dependencyGenerations
  next : m'.nextGeneration = m.nextGeneration

/-- What a call does when it succeeds, and what it found before. -/
inductive Effect (m : SfManager) : Call → SfManager → Prop
  | add {id : List UInt8} {deps pinned : Nat} {i : Slot} {x : SfModule}
      (vacant : (m.modules i).state = .discovered ∨ (m.modules i).state = .unloaded)
      (providers : ∀ j, dependsOn deps j → registered (m.modules j))
      (room : m.nextGeneration ≠ uint32Max) (state : x.state = .verified) (lease : x.resources resLease = 0)
      (generation : x.generation = increment m.nextGeneration) (dependencies : x.dependencies = deps)
      (recorded : ∀ j, dependsOn deps j → x.dependencyGenerations j = (m.modules j).generation) :
      Effect m (.add id deps pinned) { m.setModule i x with nextGeneration := increment m.nextGeneration }
  | start {i : Slot} {m' : SfManager} (idle : (m.modules i).state = .verified ∨ (m.modules i).state = .stopped)
      (providers : ∀ j, dependsOn (m.modules i).dependencies j → j ≠ i ∧ (m.modules j).state = .active ∧
        (m.modules j).generation = (m.modules i).dependencyGenerations j ∧ (m.modules j).resources resLease ≠ uint32Max)
      (becomes : Becomes m m' i .active fun j => if dependsOn (m.modules i).dependencies j then
        increment ((m.modules j).resources resLease) else (m.modules j).resources resLease) : Effect m (.start i) m'
  | stop {i : Slot} {m' : SfManager} (draining : (m.modules i).state = .draining) (free : ∀ r, (m.modules i).resources r = 0)
      (providers : ∀ j, dependsOn (m.modules i).dependencies j → registered (m.modules j) ∧
        (m.modules j).generation = (m.modules i).dependencyGenerations j ∧ (m.modules j).resources resLease ≠ 0)
      (becomes : Becomes m m' i .stopped fun j => if dependsOn (m.modules i).dependencies j then
        decrement ((m.modules j).resources resLease) else (m.modules j).resources resLease) : Effect m (.stop i) m'
  | acquire {i : Slot} {r : Resource} {m' : SfManager} (active : (m.modules i).state = .active)
      (room : (m.modules i).resources r ≠ uint32Max)
      (becomes : Becomes m m' i (m.modules i).state fun j => if j = i ∧ r = resLease then
        increment ((m.modules i).resources resLease) else (m.modules j).resources resLease) : Effect m (.acquire i r) m'
  | release {i : Slot} {r : Resource} {m' : SfManager} (held : (m.modules i).resources r ≠ 0)
      (becomes : Becomes m m' i (m.modules i).state fun j => if j = i ∧ r = resLease then
        decrement ((m.modules i).resources resLease) else (m.modules j).resources resLease) : Effect m (.release i r) m'
  | prepare {i : Slot} {m' : SfManager} (active : (m.modules i).state = .active)
      (becomes : Becomes m m' i .draining fun j => (m.modules j).resources resLease) : Effect m (.prepare i) m'
  | cancel {i : Slot} {m' : SfManager} (draining : (m.modules i).state = .draining)
      (becomes : Becomes m m' i .active fun j => (m.modules j).resources resLease) : Effect m (.cancel i) m'
  | unload {i : Slot} {m' : SfManager} (stopped : (m.modules i).state = .stopped)
      (becomes : Becomes m m' i .unloaded fun j => (m.modules j).resources resLease) : Effect m (.unload i) m'

/-- What comes of a call: an error and the manager as it was, or the effect of the call. -/
def Outcome (m : SfManager) (c : Call) : Except SfError Nat × SfManager → Prop
  | (.error _, m') => m' = m
  | (.ok _, m') => Effect m c m'

theorem becomes_setState (m : SfManager) (i : Slot) (state : ModState) :
    Becomes m (m.setState i state) i state fun j => (m.modules j).resources resLease := by
  constructor
  case next => rfl
  all_goals
    intro j
    by_cases hj : j = i <;> simp [SfManager.setState, SfManager.setModule, hj]

theorem becomes_setResource (m : SfManager) (i : Slot) (r : Resource) (f : Nat → Nat) :
    Becomes m (m.setModule i ((m.modules i).setResource r (f ((m.modules i).resources r)))) i (m.modules i).state fun j =>
      if j = i ∧ r = resLease then f ((m.modules i).resources resLease) else (m.modules j).resources resLease := by
  constructor
  case next => rfl
  case lease =>
    intro j
    by_cases hj : j = i
    · by_cases hr : r = resLease
      · simp [SfManager.setModule, SfModule.setResource, hj, hr]
      · simp [SfManager.setModule, SfModule.setResource, hj, hr, Ne.symm hr]
    · simp [SfManager.setModule, hj]
  all_goals
    intro j
    by_cases hj : j = i <;> simp [SfManager.setModule, SfModule.setResource, hj]

theorem charge_modules (m : SfManager) (deps : Nat) (f : Nat → Nat) (j : Slot) : (m.charge deps f).modules j =
    if dependsOn deps j then (m.modules j).setResource resLease (f ((m.modules j).resources resLease)) else m.modules j := by
  have h := congrFun (Fold.foldl_update (fun j => dependsOn deps j = true)
    (fun x : SfModule => x.setResource resLease (f (x.resources resLease))) (List.nodup_finRange 16) m.modules) j
  simpa [SfManager.charge] using h

theorem becomes_charge (h : ∀ j, j ≠ i → m'.modules j = m.modules j)
    (hi : ∃ state, m'.modules i = { m.modules i with state := state })
    (hn : m'.nextGeneration = m.nextGeneration) (deps : Nat) (f : Nat → Nat) (state : ModState) :
    Becomes m ((m'.charge deps f).setState i state) i state fun j =>
      if dependsOn deps j then f ((m.modules j).resources resLease) else (m.modules j).resources resLease := by
  obtain ⟨state', hi⟩ := hi
  constructor
  case next => exact hn
  all_goals
    intro j
    by_cases hj : j = i
    · subst hj
      by_cases hd : dependsOn deps j = true <;>
        simp [SfManager.setState, SfManager.setModule, charge_modules, SfModule.setResource, hi, hd]
    · by_cases hd : dependsOn deps j = true <;>
        simp [SfManager.setState, SfManager.setModule, charge_modules, SfModule.setResource, h j hj, hj, hd]

theorem bindRefusal_none (h : bindRefusal m i j = none) (hd : dependsOn (m.modules i).dependencies j) :
    j ≠ i ∧ (m.modules j).state = .active ∧ (m.modules j).generation = (m.modules i).dependencyGenerations j ∧
      (m.modules j).resources resLease ≠ uint32Max := by
  unfold bindRefusal at h
  dsimp only at h
  rw [if_pos hd] at h
  split at h
  · cases h
  rename_i hc
  split at h
  · cases h
  rename_i hl
  simp only [not_or, ne_eq, not_not] at hc
  exact ⟨hc.1, hc.2.1, hc.2.2, hl⟩

theorem unbindRefusal_none (h : unbindRefusal m i j = none) (hd : dependsOn (m.modules i).dependencies j) :
    registered (m.modules j) ∧ (m.modules j).generation = (m.modules i).dependencyGenerations j ∧
      (m.modules j).resources resLease ≠ 0 := by
  unfold unbindRefusal at h
  dsimp only at h
  rw [if_pos hd] at h
  split at h
  · cases h
  rename_i hc
  split at h
  · cases h
  rename_i hl
  simp only [not_or, ne_eq, not_not] at hc
  exact ⟨hc.1, hc.2, hl⟩

theorem outcome_withSlot {c : Nat → Call} {i : Nat} {f : Slot → Except SfError Nat × SfManager}
    (h : ∀ i : Slot, Outcome m (c i) (f i)) : Outcome m (c i) (withSlot m i f) := by
  unfold withSlot
  split
  · exact h ⟨i, _⟩
  · rfl

theorem outcome_withResource {c : Nat → Call} {r : Nat} {f : Resource → Except SfError Nat × SfManager}
    (h : ∀ r : Resource, Outcome m (c r) (f r)) : Outcome m (c r) (withResource m r f) := by
  unfold withResource
  split
  · exact h ⟨r, _⟩
  · rfl

theorem outcome_add (m : SfManager) (id : List UInt8) (deps pinned : Nat) :
    Outcome m (.add id deps pinned) (sfmodAdd m id deps pinned) := by
  unfold sfmodAdd
  split
  · rfl
  split
  · rfl
  split
  · rfl
  split
  · rfl
  rename_i hreg hgen
  split
  · rfl
  rename_i i hfind
  have hvacant : (m.modules i).state = .discovered ∨ (m.modules i).state = .unloaded := by
    simpa using List.find?_some hfind
  have hproviders : ∀ j, dependsOn deps j → registered (m.modules j) := by
    intro j hj
    by_contra hr
    exact hreg ⟨j, hj, hr⟩
  -- the slot itself is vacant, so the generations are read from the other slots
  have hne : ∀ j, dependsOn deps j → j ≠ i := by
    rintro j hj rfl
    rcases hvacant with h | h <;> simpa [registered, h] using hproviders j hj
  simp only [SfManager.setModule, update_self, update_idem]
  refine .add hvacant hproviders hgen rfl rfl rfl rfl fun j hj => ?_
  simp [hj, hne j hj]

theorem outcome_start (m : SfManager) (i : Slot) : Outcome m (.start i) (startSlot m i) := by
  unfold startSlot
  dsimp only
  split
  · rfl
  split
  · rfl
  rename_i hstate hdeps
  split
  · rfl
  rename_i hfind
  have hnone := List.findSome?_eq_none_iff.1 hfind
  refine .start (by by_contra h; exact hstate (not_or.1 h))
    (fun j hj => bindRefusal_none (hnone j (List.mem_finRange j)) hj) ?_
  apply becomes_charge
  · intro j hj
    simp [SfManager.setState, SfManager.setModule, hj]
  · exact ⟨.initialized, by simp [SfManager.setState, SfManager.setModule]⟩
  · rfl

theorem outcome_stop (m : SfManager) (i : Slot) : Outcome m (.stop i) (stopSlot m i) := by
  unfold stopSlot
  dsimp only
  split
  · rfl
  rename_i hstate
  split
  · rfl
  rename_i hfree
  split
  · rfl
  split
  · rfl
  rename_i hfind
  have hnone := List.findSome?_eq_none_iff.1 hfind
  have hzero : ∀ r, (m.modules i).resources r = 0 := by
    intro r
    simpa using List.find?_eq_none.1 hfree r (List.mem_finRange r)
  refine .stop (not_not.1 hstate) hzero (fun j hj => unbindRefusal_none (hnone j (List.mem_finRange j)) hj) ?_
  exact becomes_charge (fun j _ => rfl) ⟨_, rfl⟩ rfl _ _ _

theorem outcome_acquire (m : SfManager) (i : Slot) (r : Resource) : Outcome m (.acquire i r) (acquireSlot m i r) := by
  unfold acquireSlot
  dsimp only
  split
  · rfl
  split
  · rfl
  split
  · rfl
  · rename_i hstate hfull
    exact .acquire (not_not.1 hstate) hfull (becomes_setResource m i r increment)

theorem outcome_release (m : SfManager) (i : Slot) (r : Resource) : Outcome m (.release i r) (releaseSlot m i r) := by
  unfold releaseSlot
  dsimp only
  split
  · rfl
  · rename_i hheld
    exact .release hheld (becomes_setResource m i r decrement)

/-- **Every call fails and does nothing, or has its effect.** -/
theorem call_outcome (m : SfManager) (c : Call) : Outcome m c (call m c) := by
  cases c with
  | add id deps pinned => exact outcome_add m id deps pinned
  | start i => exact outcome_withSlot (outcome_start m)
  | acquire i r => exact outcome_withSlot (c := fun i => .acquire i r) fun i => outcome_withResource (outcome_acquire m i)
  | release i r => exact outcome_withSlot (c := fun i => .release i r) fun i => outcome_withResource (outcome_release m i)
  | stop i => exact outcome_withSlot (outcome_stop m)
  | prepare i =>
    refine outcome_withSlot fun i => ?_
    unfold prepareSlot
    dsimp only
    split
    · rfl
    split
    · rfl
    rename_i hstate
    exact .prepare (not_not.1 hstate) (by
      simpa [SfManager.setState, SfManager.setModule] using becomes_setState m i .draining)
  | cancel i =>
    refine outcome_withSlot fun i => ?_
    unfold cancelSlot
    split
    · rfl
    · rename_i hstate
      exact .cancel (not_not.1 hstate) (becomes_setState m i .active)
  | unload i =>
    refine outcome_withSlot fun i => ?_
    unfold unloadSlot
    split
    · rfl
    · rename_i hstate
      exact .unload (not_not.1 hstate) (becomes_setState m i .unloaded)

end Effects

/-! ## Runs -/

/-- A manager, with the leases on each slot that were acquired and not yet released. -/
structure Ledger where
  manager : SfManager
  leases : Nat → Nat

/-- Only an acquired lease is released. -/
def Ledger.Matched (s : Ledger) : Call → Prop
  | .release i r => r = resLease.val → 0 < s.leases i
  | _ => True

def outstanding (leases : Nat → Nat) : Call → Except SfError Nat → Nat → Nat
  | .acquire i r, .ok _ => if r = resLease.val then Function.update leases i (leases i + 1) else leases
  | .release i r, .ok _ => if r = resLease.val then Function.update leases i (leases i - 1) else leases
  | _, _ => leases

def Ledger.after (s : Ledger) (c : Call) : Ledger :=
  ⟨(call s.manager c).2, outstanding s.leases c (call s.manager c).1⟩

inductive Reach : Ledger → Prop
  | init : Reach ⟨emptyManager, fun _ => 0⟩
  | step {s : Ledger} (h : Reach s) {c : Call} (hc : s.Matched c) : Reach (s.after c)

/-! ## The ledger -/

def Running (x : SfModule) : Prop := x.state = .active ∨ x.state = .draining

instance (x : SfModule) : Decidable (Running x) := inferInstanceAs (Decidable (_ ∨ _))

/-- Slot `i` depends on the module that is now in slot `j`. -/
def Follows (m : SfManager) (i j : Slot) : Prop :=
  dependsOn (m.modules i).dependencies j = true ∧ (m.modules i).dependencyGenerations j = (m.modules j).generation

instance (m : SfManager) (i j : Slot) : Decidable (Follows m i j) := inferInstanceAs (Decidable (_ ∧ _))

/-- Slot `i` depended on a module that is no longer in slot `j`. -/
def Stale (m : SfManager) (i j : Slot) : Prop :=
  dependsOn (m.modules i).dependencies j = true ∧ (m.modules i).dependencyGenerations j ≠ (m.modules j).generation

/-- The running modules that depend on slot `j`. -/
def dependents (m : SfManager) (j : Slot) : Nat := tally fun i => Running (m.modules i) ∧ Follows m i j

structure Sound (m : SfManager) (leases : Nat → Nat) : Prop where
  count : ∀ j, (m.modules j).resources resLease = dependents m j + leases j
  bound : ∀ i j, Running (m.modules i) → dependsOn (m.modules i).dependencies j → Follows m i j ∧ Running (m.modules j)
  idle : ∀ j, ¬ Running (m.modules j) → (m.modules j).resources resLease = 0
  small : ∀ j, (m.modules j).resources resLease ≤ uint32Max
  older : ∀ i j, dependsOn (m.modules i).dependencies j → (m.modules i).dependencyGenerations j < (m.modules i).generation
  recent : ∀ i, (m.modules i).generation ≤ m.nextGeneration
  next : m.nextGeneration ≤ uint32Max

section Steps

variable {m m' : SfManager} {leases leases' : Nat → Nat} {i j : Slot} {state : ModState} {lease : Slot → Nat}

theorem increment_eq {n : Nat} (h : n < uint32Max) : increment n = n + 1 :=
  Nat.mod_eq_of_lt (by unfold uint32Max at h; omega)

theorem decrement_eq {n : Nat} (h : n ≠ 0) (hn : n ≤ uint32Max) : decrement n = n - 1 := by
  unfold decrement uint32Max at *
  omega

theorem Becomes.follows (h : Becomes m m' i state lease) (y j : Slot) : Follows m' y j ↔ Follows m y j := by
  unfold Follows
  rw [h.dependencies, h.recorded, h.generation]

theorem Becomes.running_of_ne (h : Becomes m m' i state lease) (hj : j ≠ i) :
    Running (m'.modules j) ↔ Running (m.modules j) := by
  unfold Running
  rw [h.state, if_neg hj]

theorem Becomes.running (h : Becomes m m' i state lease) (hi : state = .active ∨ state = .draining ↔ Running (m.modules i))
    (j : Slot) : Running (m'.modules j) ↔ Running (m.modules j) := by
  by_cases hj : j = i
  · subst hj
    rw [← hi]
    unfold Running
    rw [h.state, if_pos rfl]
  · exact h.running_of_ne hj

/-- Only the module whose state changes may become or cease to be a dependent. -/
theorem Becomes.count (h : Becomes m m' i state lease) (j : Slot) :
    dependents m' j + (if Running (m.modules i) ∧ Follows m i j then 1 else 0) =
      dependents m j + if Running (m'.modules i) ∧ Follows m i j then 1 else 0 := by
  have hchange := tally_change (p := fun y => Running (m.modules y) ∧ Follows m y j)
    (q := fun y => Running (m'.modules y) ∧ Follows m' y j) i fun y hy => by rw [h.running_of_ne hy, h.follows]
  simp only [h.follows i j] at hchange
  exact hchange

section

variable (hs : Sound m leases)

include hs

/-- A change of states and leases keeps the generations in order. -/
theorem Sound.becomes (h : Becomes m m' i state lease)
    (count : ∀ j, lease j = dependents m' j + leases' j)
    (bound : ∀ i j, Running (m'.modules i) → dependsOn (m.modules i).dependencies j → Follows m i j ∧ Running (m'.modules j))
    (idle : ∀ j, ¬ Running (m'.modules j) → lease j = 0) (small : ∀ j, lease j ≤ uint32Max) : Sound m' leases' where
  count j := (h.lease j).trans (count j)
  bound i j hi hd := by
    rw [h.dependencies] at hd
    rw [h.follows]
    exact bound i j hi hd
  idle j hj := (h.lease j).trans (idle j hj)
  small j := by
    rw [h.lease]
    exact small j
  older i j hd := by
    rw [h.dependencies] at hd
    rw [h.recorded, h.generation]
    exact hs.older i j hd
  recent i := by
    rw [h.generation, h.next]
    exact hs.recent i
  next := by
    rw [h.next]
    exact hs.next

/-- A change in which no module starts or stops. -/
theorem Sound.steady (h : Becomes m m' i state lease)
    (hi : state = .active ∨ state = .draining ↔ Running (m.modules i))
    (count : ∀ j, lease j + leases j = (m.modules j).resources resLease + leases' j)
    (idle : ∀ j, ¬ Running (m.modules j) → lease j = 0) (small : ∀ j, lease j ≤ uint32Max) : Sound m' leases' := by
  have hrun := h.running hi
  have hdep : ∀ j, dependents m' j = dependents m j := fun j => tally_congr fun y => by rw [hrun, h.follows]
  apply hs.becomes h
  · intro j
    have h₁ := count j
    have h₂ := hs.count j
    rw [hdep]
    omega
  · intro y j hy hd
    rw [hrun] at hy ⊢
    exact hs.bound y j hy hd
  · intro j hj
    rw [hrun] at hj
    exact idle j hj
  · exact small

theorem Sound.start (idle : (m.modules i).state = .verified ∨ (m.modules i).state = .stopped)
    (providers : ∀ j, dependsOn (m.modules i).dependencies j → j ≠ i ∧ (m.modules j).state = .active ∧
      (m.modules j).generation = (m.modules i).dependencyGenerations j ∧ (m.modules j).resources resLease ≠ uint32Max)
    (h : Becomes m m' i .active fun j => if dependsOn (m.modules i).dependencies j then
      increment ((m.modules j).resources resLease) else (m.modules j).resources resLease) : Sound m' leases := by
  have hidle : ¬ Running (m.modules i) := by rcases idle with h | h <;> simp [Running, h]
  have hself : Running (m'.modules i) := by simp [Running, h.state]
  have hfollows : ∀ j, dependsOn (m.modules i).dependencies j → Follows m i j :=
    fun j hd => ⟨hd, (providers j hd).2.2.1.symm⟩
  have hlease : ∀ j, dependsOn (m.modules i).dependencies j →
      increment ((m.modules j).resources resLease) = (m.modules j).resources resLease + 1 := by
    intro j hd
    exact increment_eq (Nat.lt_of_le_of_ne (hs.small j) (providers j hd).2.2.2)
  have hdep : ∀ j, dependents m' j = dependents m j + if dependsOn (m.modules i).dependencies j then 1 else 0 := by
    intro j
    have hchange := h.count j
    have hp : ¬ (Running (m.modules i) ∧ Follows m i j) := fun hp => hidle hp.1
    have hq : Running (m'.modules i) ∧ Follows m i j ↔ dependsOn (m.modules i).dependencies j = true :=
      ⟨fun hq => hq.2.1, fun hd => ⟨hself, hfollows j hd⟩⟩
    simp only [hp, hq, if_false, Nat.add_zero] at hchange
    exact hchange
  apply hs.becomes h
  · intro j
    have hcount := hs.count j
    rw [hdep]
    split
    · rw [hlease j (by assumption)]
      omega
    · omega
  · intro y j hy hd
    by_cases hyi : y = i
    · subst hyi
      have hp := providers j hd
      refine ⟨hfollows j hd, (h.running_of_ne hp.1).2 (Or.inl hp.2.1)⟩
    · obtain ⟨hf, hr⟩ := hs.bound y j ((h.running_of_ne hyi).1 hy) hd
      have hj : j ≠ i := by
        rintro rfl
        exact hidle hr
      exact ⟨hf, (h.running_of_ne hj).2 hr⟩
  · intro j hj
    have hji : j ≠ i := by
      rintro rfl
      exact hj hself
    have hnot : ¬ Running (m.modules j) := fun hr => hj ((h.running_of_ne hji).2 hr)
    rw [if_neg fun hd => hnot (Or.inl (providers j hd).2.1)]
    exact hs.idle j hnot
  · intro j
    split
    · rename_i hd
      rw [hlease j hd]
      exact Nat.lt_of_le_of_ne (hs.small j) (providers j hd).2.2.2
    · exact hs.small j

theorem Sound.stop (draining : (m.modules i).state = .draining)
    (free : ∀ r, (m.modules i).resources r = 0)
    (providers : ∀ j, dependsOn (m.modules i).dependencies j → registered (m.modules j) ∧
      (m.modules j).generation = (m.modules i).dependencyGenerations j ∧ (m.modules j).resources resLease ≠ 0)
    (h : Becomes m m' i .stopped fun j => if dependsOn (m.modules i).dependencies j then
      decrement ((m.modules j).resources resLease) else (m.modules j).resources resLease) : Sound m' leases := by
  have hself : Running (m.modules i) := Or.inr draining
  have hstopped : ¬ Running (m'.modules i) := by simp [Running, h.state]
  have hlease : ∀ j, dependsOn (m.modules i).dependencies j →
      decrement ((m.modules j).resources resLease) = (m.modules j).resources resLease - 1 := by
    intro j hd
    exact decrement_eq (providers j hd).2.2 (hs.small j)
  have hdep : ∀ j, dependents m' j + (if dependsOn (m.modules i).dependencies j then 1 else 0) = dependents m j := by
    intro j
    have hchange := h.count j
    have hp : Running (m.modules i) ∧ Follows m i j ↔ dependsOn (m.modules i).dependencies j = true :=
      ⟨fun hp => hp.2.1, fun hd => ⟨hself, hd, (providers j hd).2.1.symm⟩⟩
    have hq : ¬ (Running (m'.modules i) ∧ Follows m i j) := fun hq => hstopped hq.1
    simp only [hp, hq, if_false, Nat.add_zero] at hchange
    exact hchange
  -- nothing leases the module that stops
  have hfree : ∀ y, Running (m.modules y) → dependsOn (m.modules y).dependencies i → False := by
    intro y hy hd
    have hpos : 0 < dependents m i := tally_pos (p := fun y => Running (m.modules y) ∧ Follows m y i)
      ⟨hy, (hs.bound y i hy hd).1⟩
    have hcount := hs.count i
    rw [free] at hcount
    omega
  apply hs.becomes h
  · intro j
    have hcount := hs.count j
    have hd := hdep j
    split
    · rename_i hdj
      rw [if_pos hdj] at hd
      rw [hlease j hdj]
      omega
    · rename_i hdj
      rw [if_neg hdj] at hd
      omega
  · intro y j hy hd
    have hyi : y ≠ i := by
      rintro rfl
      exact hstopped hy
    have hrun := (h.running_of_ne hyi).1 hy
    obtain ⟨hf, hr⟩ := hs.bound y j hrun hd
    have hj : j ≠ i := by
      rintro rfl
      exact hfree y hrun hd
    exact ⟨hf, (h.running_of_ne hj).2 hr⟩
  · intro j hj
    by_cases hji : j = i
    · subst hji
      rw [if_neg fun hd => hfree j hself hd]
      exact free resLease
    · have hnot : ¬ Running (m.modules j) := fun hr => hj ((h.running_of_ne hji).2 hr)
      rw [if_neg fun hd => hnot (hs.bound i j hself hd).2]
      exact hs.idle j hnot
  · intro j
    split
    · rename_i hd
      rw [hlease j hd]
      have := hs.small j
      omega
    · exact hs.small j

/-- The count of one running module and its acquired leases change together. -/
theorem Sound.lend {n k : Nat}
    (h : Becomes m m' i (m.modules i).state fun j => if j = i then n else (m.modules j).resources resLease)
    (hrun : Running (m.modules i)) (hn : n ≤ uint32Max) (hbalance : n + leases i = (m.modules i).resources resLease + k) :
    Sound m' (update leases i k) := by
  refine hs.steady h Iff.rfl ?_ ?_ ?_
  · intro j
    by_cases hj : j = i
    · subst hj
      simpa using hbalance
    · simp [hj, Fin.val_ne_of_ne hj]
  · intro j hj
    have hji : j ≠ i := by
      rintro rfl
      exact hj hrun
    rw [if_neg hji]
    exact hs.idle j hj
  · intro j
    split
    · exact hn
    · exact hs.small j

theorem Sound.add {deps : Nat} {x : SfModule}
    (vacant : (m.modules i).state = .discovered ∨ (m.modules i).state = .unloaded) (room : m.nextGeneration ≠ uint32Max)
    (state : x.state = .verified) (lease : x.resources resLease = 0) (generation : x.generation = increment m.nextGeneration)
    (dependencies : x.dependencies = deps)
    (recorded : ∀ j, dependsOn deps j → x.dependencyGenerations j = (m.modules j).generation) :
    Sound { m.setModule i x with nextGeneration := increment m.nextGeneration } leases := by
  have hidle : ¬ Running (m.modules i) := by rcases vacant with h | h <;> simp [Running, h]
  have hlt : m.nextGeneration < uint32Max := Nat.lt_of_le_of_ne hs.next room
  rw [increment_eq hlt] at generation ⊢
  have hfresh : ¬ Running x := by simp [Running, state]
  -- nobody runs on a vacant slot
  have hfree : ∀ y, Running (m.modules y) → ¬ dependsOn (m.modules y).dependencies i :=
    fun y hy hd => hidle (hs.bound y i hy hd).2
  constructor
  case count =>
    intro j
    by_cases hj : j = i
    · subst hj
      have hcount := hs.count j
      rw [hs.idle j hidle] at hcount
      have hzero : dependents { m.setModule j x with nextGeneration := m.nextGeneration + 1 } j = 0 := by
        apply tally_eq_zero.2
        rintro y ⟨hy, hd, _⟩
        by_cases hyj : y = j
        · subst hyj
          simp [SfManager.setModule, hfresh] at hy
        · simp only [SfManager.setModule, update_of_ne hyj] at hy hd
          exact hfree y hy hd
      rw [hzero]
      simp only [SfManager.setModule, update_self, lease]
      omega
    · have hsame : dependents { m.setModule i x with nextGeneration := m.nextGeneration + 1 } j = dependents m j := by
        apply tally_congr
        intro y
        by_cases hy : y = i
        · subst hy
          simp [SfManager.setModule, hfresh, hidle]
        · simp [SfManager.setModule, Follows, hy, hj]
      rw [hsame]
      simpa [SfManager.setModule, hj] using hs.count j
  case bound =>
    intro y j hy hd
    have hyi : y ≠ i := by
      rintro rfl
      simp [SfManager.setModule, hfresh] at hy
    simp only [SfManager.setModule, update_of_ne hyi] at hy hd
    have hji : j ≠ i := by
      rintro rfl
      exact hfree y hy hd
    simpa [SfManager.setModule, Follows, hyi, hji] using hs.bound y j hy hd
  case idle =>
    intro j hj
    by_cases hji : j = i
    · simp [SfManager.setModule, hji, lease]
    · simp only [SfManager.setModule, update_of_ne hji] at hj ⊢
      exact hs.idle j hj
  case small =>
    intro j
    by_cases hji : j = i
    · simp [SfManager.setModule, hji, lease]
    · simpa [SfManager.setModule, hji] using hs.small j
  case older =>
    intro y j hd
    by_cases hyi : y = i
    · subst hyi
      simp only [SfManager.setModule, update_self, dependencies] at hd ⊢
      rw [recorded j hd, generation]
      exact Nat.lt_succ_of_le (hs.recent j)
    · simp only [SfManager.setModule, update_of_ne hyi] at hd ⊢
      exact hs.older y j hd
  case recent =>
    intro y
    by_cases hyi : y = i
    · simp [SfManager.setModule, hyi, generation]
    · simpa [SfManager.setModule, hyi] using Nat.le_succ_of_le (hs.recent y)
  case next => exact hlt

end

theorem Effect.sound {c : Call} {v : Nat} {s : Ledger} (hs : Sound s.manager s.leases) (hc : s.Matched c)
    (h : Effect s.manager c m') : Sound m' (outstanding s.leases c (.ok v)) := by
  cases h with
  | add vacant providers room state lease generation dependencies recorded =>
    exact hs.add vacant room state lease generation dependencies recorded
  | start idle providers becomes => exact hs.start idle providers becomes
  | stop draining free providers becomes => exact hs.stop draining free providers becomes
  | prepare active becomes =>
    exact hs.steady becomes (by simp [Running, active]) (fun _ => rfl) hs.idle hs.small
  | cancel draining becomes =>
    exact hs.steady becomes (by simp [Running, draining]) (fun _ => rfl) hs.idle hs.small
  | unload stopped becomes =>
    exact hs.steady becomes (by simp [Running, stopped]) (fun _ => rfl) hs.idle hs.small
  | @acquire i r _ active room becomes =>
    by_cases hr : r = resLease
    · subst hr
      have hlt := Nat.lt_of_le_of_ne (hs.small i) room
      simp only [and_true, increment_eq hlt] at becomes
      simp only [outstanding, if_true]
      exact hs.lend becomes (Or.inl active) hlt (by omega)
    · simp only [hr, and_false, if_false] at becomes
      simp only [outstanding, Fin.val_ne_of_ne hr, if_false]
      exact hs.steady becomes Iff.rfl (fun _ => rfl) hs.idle hs.small
  | @release i r _ held becomes =>
    by_cases hr : r = resLease
    · subst hr
      have hrun : Running (s.manager.modules i) := by
        by_contra hidle
        exact held (hs.idle i hidle)
      have hpos : 0 < s.leases i := hc rfl
      have hsmall := hs.small i
      simp only [and_true, decrement_eq held hsmall] at becomes
      simp only [outstanding, if_true]
      exact hs.lend becomes hrun (by omega) (by omega)
    · simp only [hr, and_false, if_false] at becomes
      simp only [outstanding, Fin.val_ne_of_ne hr, if_false]
      exact hs.steady becomes Iff.rfl (fun _ => rfl) hs.idle hs.small

theorem outstanding_error (leases : Nat → Nat) (c : Call) (e : SfError) : outstanding leases c (.error e) = leases := by
  cases c <;> rfl

theorem step_sound {s : Ledger} (hs : Sound s.manager s.leases) {c : Call} (hc : s.Matched c) :
    Sound (s.after c).manager (s.after c).leases := by
  have h := call_outcome s.manager c
  unfold Ledger.after
  rcases hr : call s.manager c with ⟨e | v, m'⟩ <;> rw [hr] at h
  · obtain rfl : m' = s.manager := h
    rw [outstanding_error]
    exact hs
  · exact Effect.sound hs hc h

theorem init_sound : Sound emptyManager fun _ => 0 := by
  constructor
  case count =>
    intro j
    have hzero : dependents emptyManager j = 0 := by
      apply tally_eq_zero.2
      rintro i ⟨hi | hi, _⟩ <;> cases hi
    rw [hzero]
    rfl
  all_goals simp [emptyManager, Running, dependsOn, uint32Max]

theorem reach_sound {s : Ledger} (h : Reach s) : Sound s.manager s.leases := by
  induction h with
  | init => exact init_sound
  | step _ hc ih => exact step_sound ih hc

end Steps

/-! ## The lease ledger -/

/-- What holds of a manager and of every call on it. -/
structure Balanced (m : SfManager) (leases : Nat → Nat) : Prop where
  /-- A lease for each running dependent and each acquisition. -/
  balance : ∀ j, registered (m.modules j) = true → (m.modules j).resources resLease = dependents m j + leases j
  /-- A provider with a running dependent runs, and no call replaces it. -/
  provider : ∀ i j, Running (m.modules i) → Follows m i j → Running (m.modules j) ∧
    ∀ c, ((call m c).2.modules j).generation = (m.modules j).generation ∧ ((call m c).2.modules j).id = (m.modules j).id
  /-- A running module holds its leases on the providers it was added for. -/
  dependent : ∀ i j, Running (m.modules i) → ¬ Stale m i j
  /-- Who depended on a module that is gone neither starts nor stops, and never depends on the module in its place. -/
  stale : ∀ i j, Stale m i j → (∃ e, sfmodStart m i = (.error e, m)) ∧ (∃ e, sfmodStop m i = (.error e, m)) ∧
    ∀ c, ((call m c).2.modules i).generation = (m.modules i).generation → Stale (call m c).2 i j
  /-- A module that is new in a slot is one that nobody depends on yet. -/
  fresh : ∀ c j, ((call m c).2.modules j).generation ≠ (m.modules j).generation → ∀ i, ¬ Follows (call m c).2 i j
  acyclic : ∀ i, ¬ Relation.TransGen (Follows m) i i
  unchanged : ∀ c e m', call m c = (.error e, m') → m' = m

section Reading

variable {m m' : SfManager} {leases : Nat → Nat} {i j : Slot} {c : Call}

theorem call_error {e : SfError} (h : call m c = (.error e, m')) : m' = m := by
  have hout := call_outcome m c
  rw [h] at hout
  exact hout

/-- What is the same after each effect, and after a call that fails, is the same after every call. -/
theorem call_cases {P : SfManager → Prop} (hm : P m) (h : ∀ m', Effect m c m' → P m') : P (call m c).2 := by
  have hout := call_outcome m c
  rcases hr : call m c with ⟨e | v, m'⟩ <;> rw [hr] at hout
  · obtain rfl : m' = m := hout
    exact hm
  · exact h m' hout

/-- An effect registers a module in a vacant slot or leaves the registrations as they are. -/
theorem Effect.registration (h : Effect m c m') : (∃ i state lease, Becomes m m' i state lease) ∨
    ∃ i x, ¬ Running (m.modules i) ∧ m.nextGeneration ≠ uint32Max ∧ x.generation = increment m.nextGeneration ∧
      ¬ dependsOn x.dependencies i ∧ m' = { m.setModule i x with nextGeneration := increment m.nextGeneration } := by
  cases h with
  | @add id deps pinned i x vacant providers room state lease generation dependencies recorded =>
    have hself : ¬ dependsOn x.dependencies i := by
      intro hd
      rw [dependencies] at hd
      rcases vacant with h | h <;> simpa [registered, h] using providers i hd
    have hidle : ¬ Running (m.modules i) := by rcases vacant with h | h <;> simp [Running, h]
    exact Or.inr ⟨i, x, hidle, room, generation, hself, rfl⟩
  | start _ _ becomes => exact Or.inl ⟨_, _, _, becomes⟩
  | stop _ _ _ becomes => exact Or.inl ⟨_, _, _, becomes⟩
  | acquire _ _ becomes => exact Or.inl ⟨_, _, _, becomes⟩
  | release _ becomes => exact Or.inl ⟨_, _, _, becomes⟩
  | prepare _ becomes => exact Or.inl ⟨_, _, _, becomes⟩
  | cancel _ becomes => exact Or.inl ⟨_, _, _, becomes⟩
  | unload _ becomes => exact Or.inl ⟨_, _, _, becomes⟩

/-- No call replaces a module that runs. -/
theorem call_running (hj : Running (m.modules j)) (c : Call) :
    ((call m c).2.modules j).generation = (m.modules j).generation ∧ ((call m c).2.modules j).id = (m.modules j).id := by
  refine call_cases (P := fun m' => (m'.modules j).generation = (m.modules j).generation ∧
    (m'.modules j).id = (m.modules j).id)
    ⟨rfl, rfl⟩ fun m' h => ?_
  rcases h.registration with ⟨i, state, lease, hb⟩ | ⟨i, x, hidle, _, _, _, rfl⟩
  · exact ⟨hb.generation j, hb.id j⟩
  have hji : j ≠ i := by
    rintro rfl
    exact hidle hj
  simp [SfManager.setModule, hji]

/-- A call that can have no effect is refused. -/
theorem call_refused (h : ∀ m', ¬ Effect m c m') : ∃ e, call m c = (.error e, m) := by
  have hout := call_outcome m c
  rcases hr : call m c with ⟨e | v, m'⟩ <;> rw [hr] at hout
  · obtain rfl : m' = m := hout
    exact ⟨e, rfl⟩
  · exact absurd hout (h m')

theorem stale_start (hi : Stale m i j) : ∃ e, sfmodStart m i = (.error e, m) := by
  refine call_refused (c := .start i) fun m' heffect => ?_
  generalize hc : Call.start i = c at heffect
  cases heffect with
  | start idle providers becomes =>
    obtain rfl := Fin.ext (Call.start.inj hc)
    exact hi.2 (providers j hi.1).2.2.1.symm
  | _ => cases hc

theorem stale_stop (hi : Stale m i j) : ∃ e, sfmodStop m i = (.error e, m) := by
  refine call_refused (c := .stop i) fun m' heffect => ?_
  generalize hc : Call.stop i = c at heffect
  cases heffect with
  | stop draining free providers becomes =>
    obtain rfl := Fin.ext (Call.stop.inj hc)
    exact hi.2 (providers j hi.1).2.1.symm
  | _ => cases hc

variable (hs : Sound m leases)

include hs

/-- What a module recorded is older than every module to come. -/
theorem Sound.recorded_lt (hd : dependsOn (m.modules i).dependencies j) (hroom : m.nextGeneration ≠ uint32Max) :
    (m.modules i).dependencyGenerations j < increment m.nextGeneration := by
  rw [increment_eq (Nat.lt_of_le_of_ne hs.next hroom)]
  exact Nat.lt_succ_of_lt (Nat.lt_of_lt_of_le (hs.older i j hd) (hs.recent i))

theorem Sound.stays_stale (hi : Stale m i j) (c : Call)
    (hsame : ((call m c).2.modules i).generation = (m.modules i).generation) : Stale (call m c).2 i j := by
  revert hsame
  refine call_cases (P := fun m' => (m'.modules i).generation = (m.modules i).generation → Stale m' i j) (fun _ => hi) ?_
  intro m' h hsame
  rcases h.registration with ⟨y, state, lease, hb⟩ | ⟨y, x, _, hroom, hgen, _, rfl⟩
  · unfold Stale
    rw [hb.dependencies, hb.recorded, hb.generation]
    exact hi
  · have hiy : i ≠ y := by
      rintro rfl
      simp only [SfManager.setModule, update_self, hgen] at hsame
      rw [increment_eq (Nat.lt_of_le_of_ne hs.next hroom)] at hsame
      have := hs.recent i
      omega
    by_cases hjy : j = y
    · subst hjy
      have hlt := hs.recorded_lt hi.1 hroom
      simpa [Stale, SfManager.setModule, hiy, hgen] using ⟨hi.1, Nat.ne_of_lt hlt⟩
    · simpa [Stale, SfManager.setModule, hiy, hjy] using hi

theorem Sound.fresh (c : Call) (hnew : ((call m c).2.modules j).generation ≠ (m.modules j).generation) (i : Slot) :
    ¬ Follows (call m c).2 i j := by
  revert hnew
  refine call_cases (P := fun m' => (m'.modules j).generation ≠ (m.modules j).generation → ¬ Follows m' i j)
    (fun h => absurd rfl h) ?_
  intro m' h hnew
  rcases h.registration with ⟨y, state, lease, hb⟩ | ⟨y, x, _, hroom, hgen, hself, rfl⟩
  · exact absurd (hb.generation j) hnew
  have hjy : j = y := by
    by_contra hjy
    simp [SfManager.setModule, hjy] at hnew
  subst hjy
  rintro ⟨hd, hfollows⟩
  by_cases hij : i = j
  · subst hij
    simp only [SfManager.setModule, update_self] at hd
    exact hself hd
  · simp only [SfManager.setModule, update_self, update_of_ne hij, hgen] at hd hfollows
    exact Nat.ne_of_lt (hs.recorded_lt hd hroom) hfollows

/-- Along dependencies the generations go down. -/
theorem Sound.generation_lt (h : Relation.TransGen (Follows m) i j) :
    (m.modules j).generation < (m.modules i).generation := by
  have hstep : ∀ y z, Follows m y z → (m.modules z).generation < (m.modules y).generation := by
    intro y z hyz
    rw [← hyz.2]
    exact hs.older y z hyz.1
  induction h with
  | single h => exact hstep _ _ h
  | tail _ h ih => exact Nat.lt_trans (hstep _ _ h) ih

end Reading

/-- **The lease ledger balances** in every state that calls with matched leases lead to. -/
theorem lease_ledger {s : Ledger} (h : Reach s) : Balanced s.manager s.leases := by
  have hs := reach_sound h
  constructor
  case balance => exact fun j _ => hs.count j
  case provider =>
    intro i j hi hf
    have hj := (hs.bound i j hi hf.1).2
    exact ⟨hj, call_running hj⟩
  case dependent => exact fun i j hi hstale => hstale.2 (hs.bound i j hi hstale.1).1.2
  case stale => exact fun i j hi => ⟨stale_start hi, stale_stop hi, hs.stays_stale hi⟩
  case fresh => exact fun c j => hs.fresh c
  case acyclic => exact fun i hi => Nat.lt_irrefl _ (hs.generation_lt hi)
  case unchanged => exact fun c e m' => call_error

/-- A provider and a module that depends on it, both started. -/
def sampleLedger : Ledger :=
  ((((⟨emptyManager, fun _ => 0⟩ : Ledger).after (.add [65] 0 0)).after (.start 0)).after (.add [66] 1 0)).after (.start 1)

theorem lease_ledger_sample : Balanced sampleLedger.manager sampleLedger.leases ∧
    (sampleLedger.manager.modules 0).resources resLease = 1 :=
  ⟨lease_ledger (((((Reach.init).step (c := .add [65] 0 0) trivial).step (c := .start 0) trivial).step
    (c := .add [66] 1 0) trivial).step
    (c := .start 1) trivial), by decide⟩

end SpiritFox.Manager
