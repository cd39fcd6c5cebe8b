import SpiritFox.Abi
import SpiritFox.Lib.Proc
import Mathlib.Data.List.Basic

/-!
# The restart supervisor

`services/supervisor.c`: a service that fails is started again after `retryTicks`, at most `maxAttempts` times; a
service that has run for `stableTicks` when it fails gets its attempts back. Times are whatever the caller reports.

`charge` is what is left of the budget: every call that is not a reset keeps `charge` plus the starts it grants from
growing (`charge_after`). The main result is `restart_budget`.
-/

namespace SpiritFox.Supervisor

/-- `SF_SUP_STOPPED`, `SF_SUP_WAITING`, `SF_SUP_STARTING`, `SF_SUP_RUNNING`, `SF_SUP_BLOCKED` -/
inductive SupState where
  | stopped
  | waiting
  | starting
  | running
  | blocked
  deriving DecidableEq, Repr

structure SfSupervisor where
  retryTicks : UInt64
  stableTicks : UInt64
  nextTick : UInt64
  runningSince : UInt64
  maxAttempts : UInt32
  attempts : UInt32
  state : SupState
  deriving DecidableEq, Repr

def uint64Max : UInt64 := 0xffffffffffffffff

/-! ## Calls -/

/-- `sf_supervisor_init` -/
def sfSupervisorInit (attempts : UInt32) (retry stable : UInt64) : Except SfError SfSupervisor :=
  if attempts = 0 ∨ 16 < attempts ∨ retry = 0 ∨ stable = 0 then .error .invalid
  else .ok ⟨retry, stable, 0, 0, attempts, 0, .stopped⟩

/-- `sf_supervisor_enable` -/
def sfSupervisorEnable (now : UInt64) (running : Bool) : Proc SfSupervisor SfError Unit :=
  Proc.update fun p =>
    { p with attempts := 0, state := if running then .running else .waiting, runningSince := now, nextTick := now }

/-- `sf_supervisor_disable` -/
def sfSupervisorDisable : Proc SfSupervisor SfError Unit :=
  Proc.update fun p => { p with state := .stopped, attempts := 0, nextTick := 0, runningSince := 0 }

/-- The service has been running long enough to be called stable. -/
def stable (p : SfSupervisor) (now : UInt64) : Bool :=
  p.state = .running ∧ p.runningSince ≤ now ∧ p.stableTicks ≤ now - p.runningSince

/-- `now + retry`, or the last tick there is. -/
def deadline (retry now : UInt64) : UInt64 := if uint64Max - now < retry then uint64Max else now + retry

/-- `sf_supervisor_failure` -/
def sfSupervisorFailure (now : UInt64) : Proc SfSupervisor SfError Unit := do
  let p ← Proc.read
  if p.state ≠ .running ∧ p.state ≠ .starting then Proc.fail .invalid
  else
    if stable p now then Proc.update fun p => { p with attempts := 0 }
    let p ← Proc.read
    if p.maxAttempts ≤ p.attempts then Proc.update fun p => { p with state := .blocked, nextTick := 0 }
    else Proc.update fun p => { p with state := .waiting, nextTick := deadline p.retryTicks now }

/-- `sf_supervisor_begin` -/
def sfSupervisorBegin (now : UInt64) : Proc SfSupervisor SfError Unit := do
  let p ← Proc.read
  if p.state ≠ .waiting ∨ p.maxAttempts ≤ p.attempts then Proc.fail .invalid
  else if now < p.nextTick then Proc.fail .wouldBlock
  else
    Proc.update fun p => { p with attempts := p.attempts + 1 }
    Proc.update fun p => { p with state := .starting }

/-- `sf_supervisor_started` -/
def sfSupervisorStarted (now : UInt64) : Proc SfSupervisor SfError Unit := do
  let p ← Proc.read
  if p.state ≠ .starting then Proc.fail .invalid
  else
    Proc.update fun p => { p with state := .running }
    Proc.update fun p => { p with runningSince := now }

inductive Call where
  | enable (now : UInt64) (running : Bool)
  | disable
  | failure (now : UInt64)
  | begin (now : UInt64)
  | started (now : UInt64)
  deriving DecidableEq, Repr

variable {p : SfSupervisor} {c : Call} {now : UInt64}

def Call.run : Call → Proc SfSupervisor SfError Unit
  | .enable now running => sfSupervisorEnable now running
  | .disable => sfSupervisorDisable
  | .failure now => sfSupervisorFailure now
  | .begin now => sfSupervisorBegin now
  | .started now => sfSupervisorStarted now

/-! ## Runs -/

/-- The call returns 0. -/
def accepts (p : SfSupervisor) (c : Call) : Bool := (c.run p).1.toBool

/-- The supervisor after a list of calls. -/
def after (p : SfSupervisor) (cs : List Call) : SfSupervisor := cs.foldl (fun p c => (c.run p).2) p

/-- The call gives the attempts back: `enable`, or the failure of a service that ran long enough. -/
def resets (p : SfSupervisor) : Call → Bool
  | .enable _ _ => true
  | .failure now => stable p now
  | _ => false

/-- No call of the list is a reset at the point where it is made. -/
def NoReset (p : SfSupervisor) : List Call → Prop
  | [] => True
  | c :: cs => resets p c = false ∧ NoReset (c.run p).2 cs

/-- The call asks for a start. -/
def Call.isBegin : Call → Bool
  | .begin _ => true
  | _ => false

/-- How many starts a list of calls is granted. -/
def starts (p : SfSupervisor) : List Call → Nat
  | [] => 0
  | c :: cs => (if c.isBegin && accepts p c then 1 else 0) + starts (c.run p).2 cs

/-- No call of the list enables the service, and none reports a failure that is taken. -/
def Undisturbed (p : SfSupervisor) : List Call → Prop
  | [] => True
  | c :: cs => (∀ now running, c ≠ .enable now running) ∧ (∀ now, c = .failure now → accepts p c = false) ∧
      Undisturbed (c.run p).2 cs

/-- The attempts that a failure at `now` finds used up. -/
def used (p : SfSupervisor) (now : UInt64) : UInt32 := if stable p now then 0 else p.attempts

/-! ## What each call does -/

section Calls

variable {p : SfSupervisor}

/-- What a call that is taken makes of the supervisor. -/
inductive Effect (p : SfSupervisor) : Call → SfSupervisor → Prop
  | enable (now : UInt64) (running : Bool) : Effect p (.enable now running)
      { p with attempts := 0, state := if running then .running else .waiting, runningSince := now, nextTick := now }
  | disable : Effect p .disable { p with state := .stopped, attempts := 0, nextTick := 0, runningSince := 0 }
  | retry (now : UInt64) (hs : p.state = .running ∨ p.state = .starting) (hlt : used p now < p.maxAttempts) :
      Effect p (.failure now) { p with attempts := used p now, state := .waiting, nextTick := deadline p.retryTicks now }
  | block (now : UInt64) (hs : p.state = .running ∨ p.state = .starting) (hle : p.maxAttempts ≤ used p now) :
      Effect p (.failure now) { p with attempts := used p now, state := .blocked, nextTick := 0 }
  | begin (now : UInt64) (hs : p.state = .waiting) (hlt : p.attempts < p.maxAttempts) (hdue : p.nextTick ≤ now) :
      Effect p (.begin now) { p with attempts := p.attempts + 1, state := .starting }
  | started (now : UInt64) (hs : p.state = .starting) :
      Effect p (.started now) { p with state := .running, runningSince := now }

/-- `sf_supervisor_failure` in one step. -/
theorem run_failure (p : SfSupervisor) (now : UInt64) : (Call.failure now).run p =
    if p.state ≠ .running ∧ p.state ≠ .starting then (.error .invalid, p)
    else if p.maxAttempts ≤ used p now then (.ok (), { p with attempts := used p now, state := .blocked, nextTick := 0 })
    else (.ok (),
      { p with attempts := used p now, state := .waiting, nextTick := deadline p.retryTicks now }) := by
  simp only [Call.run, sfSupervisorFailure, used]
  rw [Proc.run_bind (p := Proc.read) rfl]
  by_cases hs : p.state ≠ .running ∧ p.state ≠ .starting
  · rw [if_pos hs, if_pos hs]
    rfl
  rw [if_neg hs, if_neg hs]
  by_cases hst : stable p now = true
  · simp only [if_pos hst]
    rw [Proc.run_bind (p := Proc.update _) rfl, Proc.run_bind (p := Proc.read) rfl]
    split_ifs <;> rfl
  · simp only [if_neg hst]
    rw [Proc.run_bind (p := Proc.read) rfl]
    split_ifs <;> rfl

/-- A call is taken with its effect, or refused and changes nothing. -/
theorem call_cases (p : SfSupervisor) (c : Call) :
    (accepts p c = true ∧ Effect p c (c.run p).2) ∨ (∃ e, c.run p = (.error e, p)) := by
  cases c with
  | enable now running => exact Or.inl ⟨rfl, .enable now running⟩
  | disable => exact Or.inl ⟨rfl, .disable⟩
  | failure now =>
    unfold accepts
    rw [run_failure]
    split_ifs with hs hfull
    · exact Or.inr ⟨_, rfl⟩
    · exact Or.inl ⟨rfl, .block now (by tauto) hfull⟩
    · exact Or.inl ⟨rfl, .retry now (by tauto) (UInt32.not_le.1 hfull)⟩
  | begin now =>
    have hrun : (Call.begin now).run p =
        if p.state ≠ .waiting ∨ p.maxAttempts ≤ p.attempts then (.error .invalid, p)
        else if now < p.nextTick then (.error .wouldBlock, p)
        else (.ok (), { p with attempts := p.attempts + 1, state := .starting }) := by
      simp only [Call.run, sfSupervisorBegin]
      rw [Proc.run_bind (p := Proc.read) rfl]
      split_ifs <;> rfl
    unfold accepts
    rw [hrun]
    split_ifs with hs hdue
    · exact Or.inr ⟨_, rfl⟩
    · exact Or.inr ⟨_, rfl⟩
    · simp only [not_or, ne_eq, Decidable.not_not, UInt32.not_le] at hs
      exact Or.inl ⟨rfl, .begin now hs.1 hs.2 (UInt64.not_lt.1 hdue)⟩
  | started now =>
    have hrun : (Call.started now).run p =
        if p.state ≠ .starting then (.error .invalid, p)
        else (.ok (), { p with state := .running, runningSince := now }) := by
      simp only [Call.run, sfSupervisorStarted]
      rw [Proc.run_bind (p := Proc.read) rfl]
      split_ifs <;> rfl
    unfold accepts
    rw [hrun]
    split_ifs with hs
    · exact Or.inr ⟨_, rfl⟩
    · exact Or.inl ⟨rfl, .started now (Decidable.not_not.1 hs)⟩

/-- A refused call is not accepted. -/
theorem accepts_of_error {c : Call} {e : SfError} (h : c.run p = (.error e, p)) : accepts p c = false := by
  unfold accepts
  rw [h]
  rfl

/-- A call keeps the configuration. -/
theorem run_config (p : SfSupervisor) (c : Call) :
    (c.run p).2.maxAttempts = p.maxAttempts ∧ (c.run p).2.retryTicks = p.retryTicks := by
  rcases call_cases p c with ⟨-, h⟩ | ⟨e, h⟩
  · generalize (c.run p).2 = p' at h
    cases h <;> exact ⟨rfl, rfl⟩
  · rw [h]
    exact ⟨rfl, rfl⟩

theorem after_config (p : SfSupervisor) (cs : List Call) :
    (after p cs).maxAttempts = p.maxAttempts ∧ (after p cs).retryTicks = p.retryTicks := by
  induction cs generalizing p with
  | nil => exact ⟨rfl, rfl⟩
  | cons c cs ih =>
    obtain ⟨hm, hr⟩ := run_config p c
    rw [← hm, ← hr]
    exact ih _

end Calls

/-! ## The budget -/

/-- The starts that are left: none for a stopped service. -/
def charge (p : SfSupervisor) : Nat := if p.state = .stopped then 0 else p.maxAttempts.toNat - p.attempts.toNat

theorem charge_le (p : SfSupervisor) : charge p ≤ p.maxAttempts.toNat := by
  unfold charge
  split <;> omega

/-- A call that is not a reset pays for the start it grants. -/
theorem charge_call (h : resets p c = false) :
    (if c.isBegin && accepts p c then 1 else 0) + charge (c.run p).2 ≤ charge p := by
  rcases call_cases p c with ⟨ha, he⟩ | ⟨e, he⟩
  · rw [ha]
    generalize (c.run p).2 = p' at he
    cases he with
    | enable now running => cases h
    | disable => simp [charge, Call.isBegin]
    | retry now hs _ | block now hs _ =>
      have hused : used p now = p.attempts := if_neg (by rw [resets] at h; simp [h])
      have hne : p.state ≠ .stopped := by rcases hs with hs | hs <;> simp [hs]
      simp [charge, Call.isBegin, hused, hne]
    | begin now hs hlt _ =>
      rw [UInt32.lt_iff_toNat_lt] at hlt
      have hmax := p.maxAttempts.toNat_lt
      simp only [charge, Call.isBegin, hs, UInt32.toNat_add, UInt32.toNat_one, reduceCtorEq, if_false, Bool.and_true,
        if_true]
      omega
    | started now hs => simp [charge, Call.isBegin, hs]
  · rw [accepts_of_error he, he]
    simp

/-- **Without a reset the starts granted fit in what was left.** -/
theorem charge_after : ∀ {cs : List Call} {p : SfSupervisor}, NoReset p cs →
    starts p cs + charge (after p cs) ≤ charge p
  | [], p, _ => by simp [starts, after]
  | c :: cs, p, h => by
    have hcall := charge_call h.1
    have hrest := charge_after h.2
    simp only [starts, after, List.foldl_cons] at hrest ⊢
    omega

/-! ## The deadline -/

/-- A service that waits does so until `t`. -/
def WaitsUntil (t : UInt64) (p : SfSupervisor) : Prop := p.state = .waiting → p.nextTick = t

theorem WaitsUntil.call {t : UInt64} (h : WaitsUntil t p)
    (hen : ∀ now running, c ≠ .enable now running) (hf : ∀ now, c = .failure now → accepts p c = false) :
    WaitsUntil t (c.run p).2 := by
  rcases call_cases p c with ⟨ha, he⟩ | ⟨e, he⟩
  · generalize (c.run p).2 = p' at he
    cases he with
    | enable now running => exact absurd rfl (hen now running)
    | retry now _ _ | block now _ _ =>
      rw [hf now rfl] at ha
      cases ha
    | disable | begin | started => rintro ⟨⟩
  · rw [he]
    exact h

/-- Between a failure and the next one the deadline stays. -/
theorem WaitsUntil.after {t : UInt64} : ∀ {cs : List Call} {p : SfSupervisor}, WaitsUntil t p → Undisturbed p cs →
    WaitsUntil t (after p cs)
  | [], _, h, _ => h
  | c :: cs, p, h, hu => by
    have hc := h.call hu.1 hu.2.1
    exact WaitsUntil.after (p := (c.run p).2) hc hu.2.2

/-- A failure that is taken sets the deadline. -/
theorem waitsUntil_failure (h : accepts p (.failure now) = true) :
    WaitsUntil (deadline p.retryTicks now) ((Call.failure now).run p).2 := by
  rcases call_cases p (.failure now) with ⟨-, he⟩ | ⟨e, he⟩
  · generalize ((Call.failure now).run p).2 = p' at he
    cases he with
    | retry => exact fun _ => rfl
    | block => rintro ⟨⟩
  · rw [accepts_of_error he] at h
    cases h

/-- A start is granted to a service that waits, when it is due. -/
theorem due_of_begin (h : accepts p (.begin now) = true) :
    p.state = .waiting ∧ p.nextTick ≤ now := by
  rcases call_cases p (.begin now) with ⟨-, he⟩ | ⟨e, he⟩
  · generalize ((Call.begin now).run p).2 = p' at he
    cases he with
    | begin _ hs _ hdue => exact ⟨hs, hdue⟩
  · rw [accepts_of_error he] at h
    cases h

/-! ## Blocking -/

/-- With nothing left, a failure that is not a reset blocks the service. -/
theorem blocked_of_failure (hc : charge p = 0)
    (h : accepts p (.failure now) = true) (hr : resets p (.failure now) = false) :
    ((Call.failure now).run p).2.state = .blocked := by
  rcases call_cases p (.failure now) with ⟨-, he⟩ | ⟨e, he⟩
  · generalize ((Call.failure now).run p).2 = p' at he
    cases he with
    | retry _ hs hlt =>
      have hused : used p now = p.attempts := if_neg (by rw [resets] at hr; simp [hr])
      have hne : p.state ≠ .stopped := by rcases hs with hs | hs <;> simp [hs]
      rw [charge, if_neg hne] at hc
      rw [hused, UInt32.lt_iff_toNat_lt] at hlt
      omega
    | block => rfl
  · rw [accepts_of_error he] at h
    cases h

/-- Only `enable` and `disable` act on a blocked service. -/
theorem run_blocked (h : p.state = .blocked) (hen : ∀ now running, c ≠ .enable now running)
    (hdis : c ≠ .disable) : (c.run p).2 = p := by
  rcases call_cases p c with ⟨-, he⟩ | ⟨e, he⟩
  · generalize (c.run p).2 = p' at he
    cases he with
    | enable now running => exact absurd rfl (hen now running)
    | disable => exact absurd rfl hdis
    | retry _ hs | block _ hs | begin _ hs | started _ hs => simp [h] at hs
  · rw [he]

/-- **The restart budget.** After any calls `cs`: calls without a reset are granted at most `attempts` starts; a start
comes no earlier than the deadline of the failure before it; when all starts have been granted, a failure that is not a
reset blocks the service, and then only `enable` and `disable` act on it; a call that is refused changes nothing. -/
theorem restart_budget {attempts : UInt32} {retry stable : UInt64} {p₀ : SfSupervisor}
    (h : sfSupervisorInit attempts retry stable = .ok p₀) (cs : List Call) :
    (∀ seg, NoReset (after p₀ cs) seg → starts (after p₀ cs) seg ≤ attempts.toNat) ∧
    (∀ t seg now, accepts (after p₀ cs) (.failure t) = true → Undisturbed (after p₀ (cs ++ [.failure t])) seg →
      accepts (after p₀ (cs ++ [.failure t] ++ seg)) (.begin now) = true → deadline retry t ≤ now) ∧
    (∀ seg t, NoReset (after p₀ cs) seg → starts (after p₀ cs) seg = attempts.toNat →
      accepts (after p₀ (cs ++ seg)) (.failure t) = true → resets (after p₀ (cs ++ seg)) (.failure t) = false →
      (after p₀ (cs ++ seg ++ [.failure t])).state = .blocked) ∧
    (∀ c, (after p₀ cs).state = .blocked → (∀ now running, c ≠ .enable now running) → c ≠ .disable →
      after p₀ (cs ++ [c]) = after p₀ cs) ∧
    ∀ c, accepts (after p₀ cs) c = false → after p₀ (cs ++ [c]) = after p₀ cs := by
  have hinit : p₀.maxAttempts = attempts ∧ p₀.retryTicks = retry := by
    unfold sfSupervisorInit at h
    split at h
    · cases h
    · cases h
      exact ⟨rfl, rfl⟩
  obtain ⟨hmax, hretry⟩ := after_config p₀ cs
  rw [hinit.1] at hmax
  rw [hinit.2] at hretry
  have hcharge := charge_le (after p₀ cs)
  rw [hmax] at hcharge
  have happ : ∀ cs cs', after p₀ (cs ++ cs') = after (after p₀ cs) cs' := fun cs cs' => List.foldl_append
  simp only [happ]
  refine ⟨fun seg hseg => ?_, fun t seg now hf hu hb => ?_, fun seg t hseg hall hf hr => ?_, fun c hb hen hdis => ?_,
    fun c hc => ?_⟩
  · have := charge_after hseg
    omega
  · obtain ⟨hs, hdue⟩ := due_of_begin hb
    have hw := waitsUntil_failure hf
    rw [hretry] at hw
    rw [← hw.after hu hs]
    exact hdue
  · have := charge_after hseg
    exact blocked_of_failure (by omega) hf hr
  · exact run_blocked hb hen hdis
  · rcases call_cases (after p₀ cs) c with ⟨ha, -⟩ | ⟨e, he⟩
    · rw [ha] at hc
      cases hc
    · exact congrArg Prod.snd he

/-- Two starts are granted with two attempts, and the next failure blocks the service. -/
theorem restart_budget_two : starts (after ⟨25, 1000, 0, 0, 2, 0, .stopped⟩ [.enable 0 true])
      [.failure 5, .begin 30, .failure 31, .begin 40, .begin 56] = 2 ∧
    (after ⟨25, 1000, 0, 0, 2, 0, .stopped⟩ ([.enable 0 true] ++
      [.failure 5, .begin 30, .failure 31, .begin 40, .begin 56] ++ [.failure 60])).state = .blocked :=
  ⟨by decide, (@restart_budget 2 25 1000 _ rfl [.enable 0 true]).2.2.1 _ 60 ⟨rfl, rfl, rfl, rfl, rfl, trivial⟩
    (by decide) (by decide) (by decide)⟩

end SpiritFox.Supervisor
