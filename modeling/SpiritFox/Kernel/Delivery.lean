import SpiritFox.Lib.Ledger
import SpiritFox.Kernel.Runs

/-!
# Delivery

What becomes of every message that was sent on an endpoint. The history is cut at each creation of the endpoint; for each
incarnation there is a ledger of the messages whose send succeeded, in order, each with one fate: still queued, handed to a
receiver, cancelled by its sender, or discarded with the endpoint. What receivers got is exactly what the ledger says was
handed out, in the same order (`fifo_delivery`).

The order rests on one fact: a task that waits on an endpoint waits on an empty queue (`Mailed.waiting`).
-/

namespace SpiritFox.Core

open ByteMem Ipc Ledger List

/-! ## Stamps -/

theorem stamp_load (x : SfMessage) (pid a n : Nat) (h : a + n ≤ 328) :
    load (x.stamp pid).mem a n = load (store x.mem 12 4 pid) a n := by
  unfold SfMessage.stamp load
  rw [slice_blockAt _ _ h, Nat.zero_add]

theorem stamp_flags (x : SfMessage) {pid : Nat} (h : pid < 2 ^ 31) : (x.stamp pid).flags = pid := by
  unfold SfMessage.flags
  rw [stamp_load x pid 12 4 (by decide)]
  exact load_store_self _ _ (by omega)

theorem stamp_requestId (x : SfMessage) (pid : Nat) : (x.stamp pid).requestId = x.requestId := by
  unfold SfMessage.requestId
  rw [stamp_load x pid 16 8 (by decide)]
  exact (eqOn_store (a := 16) (n := 8) (Or.inr (Nat.le_refl _))).load (Nat.le_refl _) (Nat.le_refl _)

theorem stamp_byte (x : SfMessage) (pid : Nat) (i : Fin 328) (h : i.val < 12 ∨ 16 ≤ i.val) : x.stamp pid i = x i := by
  unfold SfMessage.stamp blockAt store
  rw [Nat.zero_add, blit_of_lt (by simpa using h)]
  simp [Block.mem]

/-! ## Reading the history -/

/-- The messages whose send on `e` succeeded, with their senders. -/
def sends (e : EpId) (events : List Event) : List (Nat × SfMessage) :=
  events.filterMap fun
    | .sent e' pid x => if e' = e then some (pid, x) else none
    | _ => none

/-- The messages that receivers on `e` got, with what their call returned. -/
def deliveries (e : EpId) (events : List Event) : List (SfMessage × Int) :=
  events.filterMap fun
    | .delivered e' _ x value => if e' = e then some (x, value) else none
    | _ => none

/-- The event starts a new incarnation of the endpoint. -/
def Event.creates (e : EpId) : Event → Bool
  | .created e' _ => e' = e
  | _ => false

/-- The history, cut at each creation of the endpoint: the incarnations that are over, and the present one. -/
def incarnations (e : EpId) (log : List Event) : List (List Event) × List Event :=
  log.foldl (fun acc ev => if ev.creates e then (acc.1 ++ [acc.2], []) else (acc.1, acc.2 ++ [ev])) ([], [])

/-- A message as the kernel passes it on. -/
def stamped (x : Nat × SfMessage) : SfMessage := x.2.stamp x.1

/-- The ledger accounts for these events of one incarnation, with this queue at their end. -/
structure Accounted (e : EpId) (events : List Event) (queue : List SfMessage) (b : List (Entry (Nat × SfMessage))) :
    Prop where
  /-- One entry for each send that succeeded, in order. -/
  sent : items b = sends e events
  /-- What receivers got, in order: the message with its sender's pid, which is also what the call returned. -/
  delivered : deliveries e events = (select .delivered b).map fun x => (stamped x, (x.1 : Int))
  queued : queue = (select .queued b).map stamped
  /-- A cancelled message was cancelled after it was sent, by its sender and for its request. -/
  cancelled : ∀ n x, b[n]? = some x → x.fate = .cancelled → ∃ before after,
    events = before ++ .cancelled e x.item.1 x.item.2.requestId :: after ∧ n < (sends e before).length
  /-- A discarded message was discarded when the endpoint ended. -/
  discarded : ∀ n x, b[n]? = some x → x.fate = .discarded → ∃ before after,
    events = before ++ .invalidated e :: after ∧ n < (sends e before).length
  /-- The flags of the message passed on are the sender's pid; every other byte is the sender's. -/
  stamp : ∀ x ∈ items b, (stamped x).flags = x.1 ∧ ∀ i : Fin 328, i.val < 12 ∨ 16 ≤ i.val → stamped x i = x.2 i
  ordered : Ordered b

theorem sends_append (e : EpId) (l l' : List Event) : sends e (l ++ l') = sends e l ++ sends e l' := filterMap_append

theorem deliveries_append (e : EpId) (l l' : List Event) : deliveries e (l ++ l') = deliveries e l ++ deliveries e l' :=
  filterMap_append

section Delivery

variable {e : EpId} {events : List Event} {queue : List SfMessage} {b b' : List (Entry (Nat × SfMessage))}
  {ev : Event} {pid : Nat}

/-! ## One more event -/

/-- An entry that was settled stays explained. -/
theorem explained_append {settled : Event} {n : Nat}
    (h : ∃ before after, events = before ++ settled :: after ∧ n < (sends e before).length) (ev : Event) :
    ∃ before after, events ++ [ev] = before ++ settled :: after ∧ n < (sends e before).length := by
  obtain ⟨before, after, heq, hn⟩ := h
  exact ⟨before, after ++ [ev], by rw [heq]; simp, hn⟩

/-- The event has nothing to do with the messages of the endpoint. -/
def Event.Silent (e : EpId) : Event → Prop
  | .created e' _ => e' ≠ e
  | .sent e' _ _ => e' ≠ e
  | .delivered e' _ _ _ => e' ≠ e
  | .cancelled e' _ _ => e' ≠ e
  | .invalidated e' => e' ≠ e
  | _ => True

theorem Accounted.silent (h : Accounted e events queue b) (hev : ev.Silent e) : Accounted e (events ++ [ev]) queue b where
  sent := by
    have hs : sends e [ev] = [] := by cases ev <;> simp_all [sends, Event.Silent]
    rw [sends_append, hs, append_nil]
    exact h.sent
  delivered := by
    have hd : deliveries e [ev] = [] := by cases ev <;> simp_all [deliveries, Event.Silent]
    rw [deliveries_append, hd, append_nil]
    exact h.delivered
  queued := h.queued
  cancelled n x hx hf := explained_append (h.cancelled n x hx hf) ev
  discarded n x hx hf := explained_append (h.discarded n x hx hf) ev
  stamp := h.stamp
  ordered := h.ordered

/-- A new entry at the end keeps the others' explanations. -/
theorem getElem?_snoc {y x : Entry (Nat × SfMessage)} {n : Nat} (hx : (b ++ [y])[n]? = some x) (hne : x.fate ≠ y.fate) :
    b[n]? = some x := by
  rcases Nat.lt_or_ge n b.length with hn | hn
  · rwa [getElem?_append_left hn] at hx
  rw [getElem?_append_right hn] at hx
  have hy := mem_of_getElem? hx
  rw [mem_singleton.1 hy] at hne
  exact absurd rfl hne

theorem Accounted.stamp_snoc (h : Accounted e events queue b) (x : SfMessage) (hpid : pid < 2 ^ 31)
    (fate : Fate) :
    ∀ y ∈ items (b ++ [⟨(pid, x), fate⟩]),
      (stamped y).flags = y.1 ∧ ∀ i : Fin 328, i.val < 12 ∨ 16 ≤ i.val → stamped y i = y.2 i := by
  intro y hy
  rw [items_append, mem_append] at hy
  rcases hy with hy | hy
  · exact h.stamp y hy
  · rw [mem_singleton.1 hy]
    exact ⟨stamp_flags x hpid, stamp_byte x pid⟩

theorem Accounted.post (h : Accounted e events queue b) (x : SfMessage) (hpid : pid < 2 ^ 31) :
    Accounted e (events ++ [.sent e pid x]) (queue ++ [x.stamp pid]) (b ++ [⟨(pid, x), .queued⟩]) where
  sent := by
    rw [sends_append, items_append, h.sent]
    simp [sends, items]
  delivered := by
    rw [deliveries_append, select_append, h.delivered]
    simp [deliveries, select_singleton]
  queued := by
    rw [select_append, h.queued]
    simp [select_singleton, stamped]
  cancelled n y hy hf := explained_append (h.cancelled n y (getElem?_snoc hy (by simp [hf])) hf) _
  discarded n y hy hf := explained_append (h.discarded n y (getElem?_snoc hy (by simp [hf])) hf) _
  stamp := h.stamp_snoc x hpid _
  ordered := ordered_append h.ordered _ (by simp)

/-- A send that finds a receiver: the message is handed over at once. -/
theorem Accounted.pass (h : Accounted e events [] b) (x : SfMessage) (hpid : pid < 2 ^ 31) (r : Nat) :
    Accounted e (events ++ [.sent e pid x] ++ [.delivered e r (x.stamp pid) pid]) [] (b ++ [⟨(pid, x), .delivered⟩]) where
  sent := by
    rw [sends_append, sends_append, items_append, h.sent]
    simp [sends, items]
  delivered := by
    rw [deliveries_append, deliveries_append, select_append, h.delivered]
    simp [deliveries, select_singleton, stamped]
  queued := by
    rw [select_append, map_append, ← h.queued]
    simp [select_singleton]
  cancelled n y hy hf :=
    explained_append (explained_append (h.cancelled n y (getElem?_snoc hy (by simp [hf])) hf) _) _
  discarded n y hy hf :=
    explained_append (explained_append (h.discarded n y (getElem?_snoc hy (by simp [hf])) hf) _) _
  stamp := h.stamp_snoc x hpid _
  ordered := ordered_append h.ordered _ fun _ => map_eq_nil_iff.1 h.queued.symm

/-- A receipt from the queue. -/
theorem Accounted.hand {x : SfMessage} {rest : List SfMessage} (h : Accounted e events (x :: rest) b) (r : Nat) :
    Accounted e (events ++ [.delivered e r x x.flags]) rest (hand b) := by
  obtain ⟨y, ys, hy, hx, hrest⟩ := map_eq_cons_iff.1 h.queued.symm
  obtain ⟨hq, hd, ho⟩ := select_hand h.ordered hy
  have hmem : y ∈ items b := by
    have hsel : y ∈ select .queued b := by rw [hy]; exact mem_cons_self
    obtain ⟨z, hz, rfl⟩ := mem_map.1 hsel
    exact mem_map_of_mem (mem_filter.1 hz).1
  refine ⟨?_, ?_, by rw [hq, hrest], fun n z hz hf => ?_, fun n z hz hf => ?_, ?_, ho⟩
  · rw [items_hand, sends_append, h.sent]
    simp [sends]
  · rw [deliveries_append, h.delivered, hd, map_append, ← hx, (h.stamp y hmem).1]
    simp [deliveries]
  · exact explained_append (h.cancelled n z (getElem?_hand hz (by simp [hf])) hf) _
  · exact explained_append (h.discarded n z (getElem?_hand hz (by simp [hf])) hf) _
  · rw [items_hand]
    exact h.stamp

theorem length_sends (h : Accounted e events queue b) : (sends e events).length = b.length := by
  rw [← h.sent]
  exact length_map _

/-- A cancellation settles the queued messages of its caller for the request. -/
theorem Accounted.cancel (h : Accounted e events queue b) (pid requestId : Nat) :
    Accounted e (events ++ [.cancelled e pid requestId]) (queue.filter (Ipc.keeps pid requestId))
      (settle (fun x => x.1 = pid ∧ x.2.requestId = requestId) .cancelled b) where
  sent := by
    rw [items_settle, sends_append, h.sent]
    simp [sends]
  delivered := by
    rw [deliveries_append, h.delivered, select_settle_of_ne (by simp) (by simp)]
    simp [deliveries]
  queued := by
    rw [select_settle_queued (by simp), h.queued, filter_map]
    refine congrArg _ (filter_congr fun x hx => ?_)
    have hmem : x ∈ items b := by
      obtain ⟨z, hz, rfl⟩ := mem_map.1 hx
      exact mem_map_of_mem (mem_filter.1 hz).1
    have hflags : (x.2.stamp x.1).flags = x.1 := (h.stamp x hmem).1
    simp [Ipc.keeps, hflags, stamped, stamp_requestId]
  cancelled n x hx hf := by
    rcases getElem?_settle hx with hx | ⟨_, hp, hn⟩
    · exact explained_append (h.cancelled n x hx hf) _
    · simp only [decide_eq_true_eq] at hp
      exact ⟨events, [], by rw [hp.1, hp.2], by rw [length_sends h]; exact hn⟩
  discarded n x hx hf := by
    rcases getElem?_settle hx with hx | ⟨hc, _, _⟩
    · exact explained_append (h.discarded n x hx hf) _
    · rw [hc] at hf
      cases hf
  stamp := by
    rw [items_settle]
    exact h.stamp
  ordered := ordered_settle (by simp) (by simp) h.ordered

/-- The end of the endpoint settles all that is queued. -/
theorem Accounted.discard (h : Accounted e events queue b) :
    Accounted e (events ++ [.invalidated e]) [] (settle (fun _ => true) .discarded b) where
  sent := by
    rw [items_settle, sends_append, h.sent]
    simp [sends]
  delivered := by
    rw [deliveries_append, h.delivered, select_settle_of_ne (by simp) (by simp)]
    simp [deliveries]
  queued := by
    rw [select_settle_queued (by simp)]
    simp
  cancelled n x hx hf := by
    rcases getElem?_settle hx with hx | ⟨hc, _, _⟩
    · exact explained_append (h.cancelled n x hx hf) _
    · rw [hc] at hf
      cases hf
  discarded n x hx hf := by
    rcases getElem?_settle hx with hx | ⟨_, _, hn⟩
    · exact explained_append (h.discarded n x hx hf) _
    · exact ⟨events, [], rfl, by rw [length_sends h]; exact hn⟩
  stamp := by
    rw [items_settle]
    exact h.stamp
  ordered := ordered_settle (by simp) (by simp) h.ordered

/-! ## All incarnations -/

/-- Every incarnation in the history has a ledger, the present one with this queue. -/
structure Filed (e : EpId) (log : List Event) (queue : List SfMessage) : Prop where
  past : ∀ events ∈ (incarnations e log).1, ∃ b, Accounted e events [] b
  now : ∃ b, Accounted e (incarnations e log).2 queue b

variable {log : List Event} {queue' : List SfMessage}

theorem incarnations_append (hev : ev.creates e = false) :
    incarnations e (log ++ [ev]) = ((incarnations e log).1, (incarnations e log).2 ++ [ev]) := by
  unfold incarnations
  rw [foldl_append, foldl_cons, foldl_nil, if_neg (by simp [hev])]

/-- An event of the present incarnation. -/
theorem Filed.add (h : Filed e log queue) (hev : ev.creates e = false)
    (hnow : ∀ b, Accounted e (incarnations e log).2 queue b →
      ∃ b', Accounted e ((incarnations e log).2 ++ [ev]) queue' b') : Filed e (log ++ [ev]) queue' := by
  obtain ⟨b, hb⟩ := h.now
  refine ⟨?_, ?_⟩ <;> rw [incarnations_append hev]
  · exact h.past
  · exact hnow b hb

theorem Filed.silent (h : Filed e log queue) (hev : ev.Silent e) : Filed e (log ++ [ev]) queue := by
  have hc : ev.creates e = false := by cases ev <;> simp_all [Event.creates, Event.Silent]
  exact h.add hc fun b hb => ⟨b, hb.silent hev⟩

theorem Filed.post (h : Filed e log queue) (x : SfMessage) (hpid : pid < 2 ^ 31) :
    Filed e (log ++ [.sent e pid x]) (queue ++ [x.stamp pid]) := h.add rfl fun _ hb => ⟨_, hb.post x hpid⟩

theorem Filed.hand {x : SfMessage} {rest : List SfMessage} (h : Filed e log (x :: rest)) (r : Nat) :
    Filed e (log ++ [.delivered e r x x.flags]) rest := h.add rfl fun _ hb => ⟨_, hb.hand r⟩

theorem Filed.cancel (h : Filed e log queue) (pid requestId : Nat) :
    Filed e (log ++ [.cancelled e pid requestId]) (queue.filter (Ipc.keeps pid requestId)) :=
  h.add rfl fun _ hb => ⟨_, hb.cancel pid requestId⟩

theorem Filed.discard (h : Filed e log queue) : Filed e (log ++ [.invalidated e]) [] := h.add rfl fun _ hb => ⟨_, hb.discard⟩

theorem Filed.pass (h : Filed e log []) (x : SfMessage) (hpid : pid < 2 ^ 31) (r : Nat) :
    Filed e (log ++ [.sent e pid x] ++ [.delivered e r (x.stamp pid) pid]) [] := by
  obtain ⟨b, hb⟩ := h.now
  refine ⟨?_, ?_⟩ <;> rw [incarnations_append rfl, incarnations_append rfl]
  · exact h.past
  · exact ⟨_, hb.pass x hpid r⟩

theorem accounted_nil : Accounted e [] [] [] :=
  ⟨rfl, rfl, rfl, fun n x hx => by simp at hx, fun n x hx => by simp at hx, nofun, List.Pairwise.nil⟩

/-- A new incarnation: the one before it is over, with nothing queued. -/
theorem Filed.create (h : Filed e log []) (pid : Nat) : Filed e (log ++ [.created e pid]) [] := by
  have heq : incarnations e (log ++ [.created e pid]) = ((incarnations e log).1 ++ [(incarnations e log).2], []) := by
    unfold incarnations
    rw [foldl_append, foldl_cons, foldl_nil, if_pos (by simp [Event.creates])]
  refine ⟨fun events hmem => ?_, ?_⟩
  · rw [heq, mem_append] at hmem
    rcases hmem with hmem | hmem
    · exact h.past events hmem
    · rw [mem_singleton.1 hmem]
      exact h.now
  · rw [heq]
    exact ⟨[], accounted_nil⟩

end Delivery

/-! ## Moves -/

/-- Every message is accounted for; a task that waits, waits on an empty queue; and an endpoint without an owner has none. -/
structure Mailed (m : Ipc) : Prop where
  filed : ∀ e, Filed e m.log (m.channels e).queue
  waiting : ∀ j e, (m.parties j).state = .blocked → (m.parties j).wait = some e → (m.channels e).queue = []
  idle : ∀ e, (m.channels e).owner = 0 → (m.channels e).queue = []
  pid_le : m.nextPid ≤ 2 ^ 31

section Mailed

variable {m m' : Ipc} {j : TaskId} {i : CapId} {e : EpId} {actor : Option TaskId} {ev : Event}

theorem Mailed.record (h : Mailed m) (hev : ∀ e, ev.Silent e) : Mailed (m.record ev) :=
  ⟨fun e => (h.filed e).silent (hev e), h.waiting, h.idle, h.pid_le⟩

/-- A change to a task that does not start to wait. -/
theorem Mailed.setParty (h : Mailed m) {p : Party}
    (hp : p.state = .blocked → ∀ e, p.wait = some e → (m.channels e).queue = []) : Mailed (m.setParty j p) := by
  refine ⟨h.filed, fun j' e hb hw => ?_, h.idle, h.pid_le⟩
  by_cases hj : j' = j
  · subst hj
    rw [setParty_parties, Function.update_self] at hb hw
    exact hp hb e hw
  · rw [setParty_parties, Function.update_of_ne hj] at hb hw
    exact h.waiting j' e hb hw

theorem Mailed.setState (h : Mailed m) {state : TaskState} (hs : state ≠ .blocked) : Mailed (m.setState j state) :=
  h.setParty fun hb => absurd hb hs

theorem Mailed.setCap (h : Mailed m) (c : Cap) : Mailed (m.setCap j i c) := h.setParty fun hb e hw => h.waiting j e hb hw

theorem Mailed.put (h : Mailed m) (rights : Nat) : Mailed (m.put j i e rights) := by
  unfold Ipc.put
  exact (h.setCap _).record fun _ => trivial

theorem Mailed.drop (h : Mailed m) (j : TaskId) (i : CapId) : Mailed (m.drop j i) := h.setCap _

theorem invalidate_queue (e' : EpId) :
    ((m.invalidate e).channels e').queue = if e' = e then [] else (m.channels e').queue := by
  by_cases he : e' = e
  · subst he
    simp [Ipc.invalidate]
  · rw [invalidate_channel_of_ne he, if_neg he]

theorem Mailed.invalidate (h : Mailed m) (e : EpId) : Mailed (m.invalidate e) := by
  refine ⟨fun e' => ?_, fun j e' hb hw => ?_, fun e' ho => ?_, h.pid_le⟩
  · rw [invalidate_queue]
    split
    · rename_i he
      subst he
      exact (h.filed e').discard
    · rename_i he
      exact (h.filed e').silent (Ne.symm he)
  · rw [invalidate_queue]
    obtain ⟨hb', _⟩ := invalidated_blocked hb
    have hw' : (m.parties j).wait = some e' := hw
    split
    · rfl
    · exact h.waiting j e' hb' hw'
  · rw [invalidate_queue]
    split
    · rfl
    rename_i he
    rw [invalidate_channel_of_ne he] at ho
    exact h.idle e' ho

/-- A change of one queue, with the event that explains it. -/
theorem Mailed.setQueue (h : Mailed m) {queue : List SfMessage} (hself : Filed e (m.log ++ [ev]) queue)
    (hev : ∀ e', e' ≠ e → ev.Silent e')
    (hwait : ∀ j, (m.parties j).state = .blocked → (m.parties j).wait = some e → queue = [])
    (hidle : (m.channels e).owner = 0 → queue = []) : Mailed ((m.setQueue e queue).record ev) := by
  have hof : ∀ e', e' ≠ e → (m.setQueue e queue).channels e' = m.channels e' := fun e' he => Function.update_of_ne he _ _
  have hown : (m.setQueue e queue).channels e = { m.channels e with queue := queue } := Function.update_self _ _ _
  refine ⟨fun e' => ?_, fun j e' hb hw => ?_, fun e' ho => ?_, h.pid_le⟩
  · by_cases he : e' = e
    · subst he
      rw [record_channels, hown]
      exact hself
    · rw [record_channels, hof e' he]
      exact (h.filed e').silent (hev e' he)
  · by_cases he : e' = e
    · subst he
      rw [record_channels, hown]
      exact hwait j hb hw
    · rw [record_channels, hof e' he]
      exact h.waiting j e' hb hw
  · by_cases he : e' = e
    · subst he
      rw [record_channels, hown] at ho ⊢
      exact hidle ho
    · rw [record_channels, hof e' he] at ho ⊢
      exact h.idle e' ho

theorem Mailed.create (h : Mailed m) (he : (m.channels e).owner = 0) : Mailed (m.create j i e) := by
  have hof : ∀ c e', e' ≠ e → (m.setChannel e c).channels e' = m.channels e' := fun c e' he => Function.update_of_ne he _ _
  have hown : ∀ c, (m.setChannel e c).channels e = c := fun c => Function.update_self _ _ _
  unfold Ipc.create
  refine Mailed.put (m := (m.setChannel e _).record _) ⟨fun e' => ?_, fun j e' hb hw => ?_, fun e' ho => ?_, h.pid_le⟩ 7
  · by_cases hee : e' = e
    · subst hee
      rw [record_channels, hown]
      have hfiled := h.filed e'
      rw [h.idle e' he] at hfiled
      exact hfiled.create _
    · rw [record_channels, hof _ e' hee]
      exact (h.filed e').silent (Ne.symm hee)
  · by_cases hee : e' = e
    · subst hee
      rw [record_channels, hown]
    · rw [record_channels, hof _ e' hee]
      exact h.waiting j e' hb hw
  · by_cases hee : e' = e
    · subst hee
      rw [record_channels, hown]
    · rw [record_channels, hof _ e' hee] at ho ⊢
      exact h.idle e' ho

/-- **Every move keeps the accounts.** -/
theorem move_mailed (hinv : CapInv none none m) (h : Mailed m) (hm : Move actor m m') : Mailed m' := by
  have hpid : ∀ j, (m.parties j).pid < 2 ^ 31 := fun j => Nat.lt_of_lt_of_le (hinv.pid_lt j) h.pid_le
  have hlive : ∀ {j i e right}, m.Has j i e right → (m.channels e).owner ≠ 0 := fun hc => (hinv.ref _ _ _ hc.1).1
  cases hm with
  | create _ _ _ he => exact h.create he
  | derive => exact (h.put _).record fun _ => trivial
  | grant hg =>
    obtain ⟨_, _, _, _, _, _, _⟩ := hg
    exact (h.put _).record fun _ => trivial
  | close => exact close_keeps (I := Mailed) (fun _ j i h => h.drop j i) (fun _ e h => h.invalidate e) h
  | @revoke j i e =>
    have hr : Mailed (m.record (.revoked e (m.parties j).pid (m.rightsAt j i))) := h.record fun _ => trivial
    exact hr.invalidate e
  | @cancel j i e requestId _ hc =>
    refine h.setQueue ((h.filed e).cancel _ _) (fun _ he => Ne.symm he) (fun r hb hw => ?_) fun ho => absurd ho (hlive hc)
    rw [h.waiting r e hb hw]
    rfl
  | @deliver j r i e x _ hc hb hw =>
    have hempty := h.waiting r e hb hw
    have hs : Mailed (m.setState r .ready) := h.setState (by simp)
    refine ⟨fun e' => ?_, hs.waiting, hs.idle, hs.pid_le⟩
    by_cases he : e' = e
    · subst he
      have hfiled := h.filed e'
      rw [hempty] at hfiled
      have hpass := hfiled.pass x (hpid j) (m.parties r).pid
      rwa [← hempty] at hpass
    · have hsent : Filed e' (m.log ++ [.sent e (m.parties j).pid x]) (m.channels e').queue :=
        (h.filed e').silent (Ne.symm he)
      exact hsent.silent (Ne.symm he)
  | @enqueue j i e x _ hc hno =>
    exact h.setQueue ((h.filed e).post x (hpid j)) (fun _ he => Ne.symm he) (fun r hb hw => absurd hw (hno r hb))
      fun ho => absurd ho (hlive hc)
  | @dequeue j i e x rest _ hc hq =>
    have hfiled := h.filed e
    rw [hq] at hfiled
    refine h.setQueue (hfiled.hand _) (fun _ he => Ne.symm he) (fun r hb hw => ?_) fun ho => absurd ho (hlive hc)
    rw [h.waiting r e hb hw] at hq
    cases hq
  | @block j i e _ _ _ hq =>
    refine h.setParty fun _ e' he' => ?_
    cases he'
    exact hq
  | occupy _ hmax =>
    have hnext : Mailed { m with nextPid := m.nextPid + 1 } := ⟨h.filed, h.waiting, h.idle, by dsimp only; omega⟩
    exact hnext.setParty (by simp)
  | ready => exact h.setState (by simp)
  | tick ht =>
    cases ht with
    | wake => exact h.setState (by simp)
    | die =>
      exact (cleanup_keeps (I := Mailed) (fun _ j i h => h.drop j i) (fun _ e h => h.invalidate e) h).setState (by simp)

end Mailed

/-! ## Runs -/

section Runs

variable {L : Layout} {k : Kernel}

theorem reach_mailed (h : Reach L k) : Mailed k.ipc := by
  refine (reach_keeps (I := fun m => CapInv none none m ∧ Mailed m) (fun mem iommu mmioReady => ?_) ?_ h).2
  · refine ⟨reach_capInv (Reach.init (L := L) mem iommu mmioReady), fun e => ⟨nofun, [], accounted_nil⟩, nofun,
      fun e _ => rfl, ?_⟩
    exact Nat.one_le_two_pow
  · exact fun hm hstep => ⟨move_capInv hm.1 hstep, move_mailed hm.1 hm.2 hstep⟩

/-- **Delivery is in order, at most once and stamped, in every incarnation of every endpoint.** -/
theorem fifo_delivery (h : Reach L k) (e : EpId) : Filed e k.log (k.endpoints e).contents := (reach_mailed h).filed e

end Runs

/-- One message has been delivered and one waits. -/
theorem fifo_delivery_talk :
    (sampleTalk.endpoints 0).count = 1 ∧ Filed 0 sampleTalk.log (sampleTalk.endpoints 0).contents :=
  ⟨sampleTalk_spec.2.2.2.2.2.1, fifo_delivery reach_sampleTalk 0⟩

end SpiritFox.Core
