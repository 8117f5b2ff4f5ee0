import Mathlib.Data.Fintype.Card
import Mathlib.Data.List.Perm.Basic
import Clubcos.Timer.Model

/-!
# Runs of the timer

* `TimerInv`        the list of `TimeOut`s is sorted by the ticks that are left, apart from the queues;
* `timer_delivers`  **every timeout is delivered on its tick, once**, as long as no two are due at one tick,
                    no queue grows to the size of the tick, and no `TimeOut` is set while it lies in a queue;
* `shared_deadline`  two timeouts with one deadline: the second is not delivered.
-/

set_option linter.unusedVariables false
set_option linter.unusedSectionVars false

namespace Clubcos
open Word Ring

variable {T Q : Type} [DecidableEq T] [DecidableEq Q]

/-- the `TimeOut`s `ts` and then the sentinal are linked from the address `a` on -/
def Linked (h : Heap Q (TimeOutId T)) (a : Addr Q (TimeOutId T)) : List T → Prop
  | [] => a = .node .sentinal
  | t :: ts => a = .node (.caller t) ∧ Linked h (h.pNext a) ts

/-- the ticks that are left until the deadline of `t` -/
def Timeouts.left (i : Timeouts T Q) (t : T) : Nat := sub32 (i.timeOuts t).timeout i.tick

/-- the nodes of the queue `q` -/
def Timeouts.nodes (i : Timeouts T Q) (q : Q) : List (TimeOutId T) := (i.queue q).map .caller

/-- `ts` are the pending timeouts in the order of the list -/
structure TimerInv (s : TimerStruct T Q) (i : Timeouts T Q) (ts : List T) : Prop where
  tick : s.tickCountLow = i.tick ∧ i.tick < 2^32
  fields : ∀ t, s.timeOuts (.caller t) = i.timeOuts t
  sentinal : (s.timeOuts .sentinal).noticeQueue = none ∧ s.notice.pNext (.node .sentinal) = .node .sentinal
  lists : Lists s.notice (fun _ => True) i.nodes
  linked : Linked s.notice s.pTimeOutHead ts
  perm : ts.Perm i.pending
  nodup : ts.Nodup
  sorted : ts.Pairwise fun t t' => i.left t ≤ i.left t'
  ahead : ∀ t ∈ ts, (i.timeOuts t).timeout < 2^32 ∧ 0 < i.left t
  queued : ∀ t ∈ ts, (i.timeOuts t).noticeQueue ≠ none
  apart : ∀ t ∈ ts, ∀ q, t ∉ i.queue q

/-! ## the list -/

theorem Linked.frame {h h' : Heap Q (TimeOutId T)} {ts : List T} : ∀ {a : Addr Q (TimeOutId T)}, Linked h a ts →
    (∀ t ∈ ts, h'.pNext (.node (.caller t)) = h.pNext (.node (.caller t))) → Linked h' a ts := by
  induction ts with
  | nil => exact fun hl _ => hl
  | cons t ts ih =>
    rintro a ⟨rfl, hl⟩ hs
    refine ⟨rfl, ?_⟩
    rw [hs t List.mem_cons_self]
    exact ih hl fun x hx => hs x (List.mem_cons_of_mem _ hx)

/-- the lists stay well formed as long as the links of their members do -/
theorem Lists.frame {L N : Type} [DecidableEq L] [DecidableEq N] {h h' : Heap L N} {act : L → Prop} {c : L → List N}
    (hl : Lists h act c) (hs : h'.size = h.size) (hp : h'.links.prev = h.links.prev)
    (hn : ∀ l, act l → ∀ a ∈ Addr.dummy l :: (c l).map .node, h'.links.next a = h.links.next a) :
    Lists h' act c :=
  ⟨fun l ha => (hl.ring l ha).frame (hn l ha) fun a _ => by rw [hp], hl.nodup, hl.apart, fun l ha => by
    rw [hs]
    exact hl.size l ha⟩

theorem notMem_nodes {i : Timeouts T Q} {t : T} {q : Q} (h : t ∉ i.queue q) : TimeOutId.caller t ∉ i.nodes q := by
  intro hm
  obtain ⟨x, hx, e⟩ := List.mem_map.mp hm
  cases e
  exact h hx

theorem sentinal_notMem (i : Timeouts T Q) (q : Q) : TimeOutId.sentinal ∉ i.nodes q := by
  intro hm
  obtain ⟨x, _, e⟩ := List.mem_map.mp hm
  cases e

/-! ## ticks -/

theorem left_succ {a b : Nat} (ha : a < 2^32) (hb : b < 2^32) :
    (a = u32 (b + 1) ↔ sub32 a b = 1) ∧ (0 < sub32 a b → sub32 a (u32 (b + 1)) = sub32 a b - 1) := by
  unfold u32 sub32
  omega

theorem left_sentinal {b : Nat} (hb : b < 2^32) : sub32 (u32 (b + 0xffffffff)) b = 2^32 - 1 := by
  unfold u32 sub32
  omega

theorem sentinal_again {low : Nat} (h : low < 2^32) : u32 (low + 0xffffffff) ≠ low := by
  unfold u32
  omega

/-! ## the interrupt -/

section
variable {L N : Type} [DecidableEq L] [DecidableEq N] {h : Heap L N} {act : L → Prop} {c : L → List N}
  (hl : Lists h act c) {l : L} (ha : act l) {n : N} (hn : n ∉ c l)
include hl ha hn

theorem Lists.notLast : (Addr.node n : Addr L N) ≠ h.links.prev (.dummy l) := fun e =>
  hn (node_mem.mp (e ▸ ((hl.ring l ha).neighbours List.mem_cons_self).2))

theorem push_pNext_self : (ckLinkedListPushBack_lockfree h l n).pNext (.node n) = .dummy l := by
  show (ckLinkedListPushBack_lockfree h l n).links.next (.node n) = _
  rw [push_links]
  show Function.update (Function.update h.links.next (.node n) (.dummy l)) (h.links.prev (.dummy l)) (.node n)
    (.node n) = _
  rw [Function.update_of_ne (hl.notLast ha hn), Function.update_self]

theorem push_pNext_other {m : N} (hne : m ≠ n) (hm : m ∉ c l) :
    (ckLinkedListPushBack_lockfree h l n).pNext (.node m) = h.pNext (.node m) := by
  show (ckLinkedListPushBack_lockfree h l n).links.next (.node m) = _
  have hd : (Addr.node m : Addr L N) ≠ .dummy l := nofun
  rw [push_links]
  exact (push_agree hd (fun e => hne (Addr.node.inj e)) (hl.notLast ha hm)).1

end

/-- the first timeout of the list goes to its queue -/
theorem TimerInv.deliver {s : TimerStruct T Q} {i : Timeouts T Q} {t : T} {ts : List T} (hi : TimerInv s i (t :: ts))
    (q : Q) {pending : List T} (hp : ts.Perm pending) : TimerInv
      { s with
        pTimeOutHead := s.notice.pNext (.node (.caller t))
        notice := ckLinkedListPushBack_lockfree s.notice q (.caller t) }
      { i with pending := pending, queue := Function.update i.queue q (i.queue q ++ [t]) } ts := by
  obtain ⟨htick, hfields, hsen, hlists, ⟨hhead, hlinked⟩, _, hnodup, hsorted, hahead, hqueued, hapart⟩ := hi
  rw [hhead] at hlinked
  have hnot : ∀ x ∈ t :: ts, ∀ q, TimeOutId.caller x ∉ i.nodes q := fun x hx q => notMem_nodes (hapart x hx q)
  have ht : ∀ q, TimeOutId.caller t ∉ i.nodes q := hnot t List.mem_cons_self
  have hne : ∀ x ∈ ts, x ≠ t := fun x hx e => (List.nodup_cons.mp hnodup).1 (e ▸ hx)
  have hnodes : Timeouts.nodes { i with
      pending := pending, queue := Function.update i.queue q (i.queue q ++ [t]) }
      = Function.update i.nodes q (i.nodes q ++ [.caller t]) := by
    funext q'
    show (Function.update i.queue q (i.queue q ++ [t]) q').map TimeOutId.caller = _
    by_cases e : q' = q
    · rw [e, Function.update_self, Function.update_self, List.map_append]
      rfl
    · rw [Function.update_of_ne e, Function.update_of_ne e]
      rfl
  exact {
    tick := htick
    fields := hfields
    sentinal := by
      refine ⟨hsen.1, ?_⟩
      exact (push_pNext_other (m := .sentinal) hlists trivial (ht q) nofun (sentinal_notMem i q)).trans hsen.2
    lists := by
      rw [hnodes]
      exact hlists.push trivial fun q' _ => ht q'
    linked := by
      refine hlinked.frame fun x hx => push_pNext_other hlists trivial (ht q) (fun e => ?_) ?_
      · exact hne x hx (TimeOutId.caller.inj e)
      · exact hnot x (List.mem_cons_of_mem _ hx) q
    perm := hp
    nodup := (List.nodup_cons.mp hnodup).2
    sorted := (List.pairwise_cons.mp hsorted).2
    ahead := fun x hx => hahead x (List.mem_cons_of_mem _ hx)
    queued := fun x hx => hqueued x (List.mem_cons_of_mem _ hx)
    apart x hx q' := by
      have hx' := hapart x (List.mem_cons_of_mem _ hx)
      show x ∉ Function.update i.queue q (i.queue q ++ [t]) q'
      by_cases e : q' = q
      · rw [e, Function.update_self]
        intro hm
        rcases List.mem_append.mp hm with hm | hm
        · exact hx' q hm
        · exact hne x hx (List.mem_singleton.mp hm)
      · rw [Function.update_of_ne e]
        exact hx' q'
  }

/-- a tick on which nothing is due -/
theorem TimerInv.advance {s s' : TimerStruct T Q} {i : Timeouts T Q} {ts : List T} (hi : TimerInv s i ts)
    (hno : ∀ t ∈ ts, ¬ i.Due t) (htick : s'.tickCountLow = u32 (s.tickCountLow + 1))
    (hhead : s'.pTimeOutHead = s.pTimeOutHead) (hnotice : s'.notice = s.notice)
    (hcaller : ∀ t, s'.timeOuts (.caller t) = s.timeOuts (.caller t))
    (hnull : (s'.timeOuts .sentinal).noticeQueue = none) :
    TimerInv s' { i with tick := u32 (i.tick + 1) } ts := by
  obtain ⟨⟨h1, h2⟩, hfields, hsen, hlists, hlinked, hperm, hnodup, hsorted, hahead, hqueued, hapart⟩ := hi
  have hleft : ∀ t ∈ ts, 1 < i.left t ∧
      Timeouts.left { i with tick := u32 (i.tick + 1) } t = i.left t - 1 := by
    intro t ht
    obtain ⟨hlt, hpos⟩ := hahead t ht
    obtain ⟨hdue, hdec⟩ := left_succ hlt h2
    have hone : i.left t ≠ 1 := fun e => hno t ht (hdue.mpr e)
    exact ⟨by omega, hdec hpos⟩
  exact {
    tick := ⟨by rw [htick, h1], u32_lt _⟩
    fields := fun t => (hcaller t).trans (hfields t)
    sentinal := ⟨hnull, hnotice ▸ hsen.2⟩
    lists := hnotice ▸ hlists
    linked := by
      rw [hnotice, hhead]
      exact hlinked
    perm := hperm
    nodup := hnodup
    sorted := by
      refine List.Pairwise.imp_of_mem (fun {a b} ha hb hab => ?_) hsorted
      have ea := hleft a ha
      have eb := hleft b hb
      omega
    ahead t ht := by
      have e := hleft t ht
      exact ⟨(hahead t ht).1, by omega⟩
    queued := hqueued
    apart := hapart
  }

/-- the call comes back with `s'`, given enough rounds for its loops -/
def Returns (s : TimerStruct T Q) (op : TimerOp T Q) (s' : TimerStruct T Q) : Prop :=
  ∃ n, ∀ fuel, n ≤ fuel → s.exec fuel op = some s'

/-- what the interrupt is allowed to find: at most one timeout is due, and its queue does not grow to the tick -/
def Timeouts.OneDue (i : Timeouts T Q) : Prop :=
  (∀ t ∈ i.pending, ∀ t' ∈ i.pending, i.Due t → i.Due t' → t = t') ∧
    ∀ t ∈ i.pending, i.Due t → ∀ q, (i.timeOuts t).noticeQueue = some q →
      u32 ((i.queue q).length + 1) ≠ u32 (i.tick + 1)

theorem Timeouts.interrupt_none {i : Timeouts T Q} (hno : ∀ t ∈ i.pending, ¬ i.Due t) :
    i.interrupt = { i with tick := u32 (i.tick + 1) } := by
  have h1 : (i.pending.filter fun t => ¬ i.Due t) = i.pending :=
    List.filter_eq_self.mpr fun t ht => decide_eq_true (hno t ht)
  have h2 : ∀ q, (i.pending.filter fun t => i.Due t ∧ (i.timeOuts t).noticeQueue = some q) = [] := fun q =>
    List.filter_eq_nil_iff.mpr fun t ht h => hno t ht (of_decide_eq_true h).1
  unfold Timeouts.interrupt
  simp only [h1, h2, List.append_nil]

/-- the only timeout that is due is the first one -/
theorem Timeouts.interrupt_one {i : Timeouts T Q} {t : T} {ts : List T} {q : Q} (hp : (t :: ts).Perm i.pending)
    (hdue : i.Due t) (hq : (i.timeOuts t).noticeQueue = some q) (hno : ∀ x ∈ ts, ¬ i.Due x) :
    ts.Perm i.interrupt.pending ∧ i.interrupt = { i with
      tick := u32 (i.tick + 1)
      pending := i.interrupt.pending
      queue := Function.update i.queue q (i.queue q ++ [t]) } := by
  have hkeep : ((t :: ts).filter fun x => ¬ i.Due x) = ts := by
    rw [List.filter_cons_of_neg (by simpa using hdue)]
    exact List.filter_eq_self.mpr fun x hx => decide_eq_true (hno x hx)
  have hsent : ∀ q', (i.pending.filter fun x => i.Due x ∧ (i.timeOuts x).noticeQueue = some q')
      = if q' = q then [t] else [] := by
    intro q'
    have hperm := hp.filter fun x => i.Due x ∧ (i.timeOuts x).noticeQueue = some q'
    have hrest : (ts.filter fun x => i.Due x ∧ (i.timeOuts x).noticeQueue = some q') = [] :=
      List.filter_eq_nil_iff.mpr fun x hx h => hno x hx (of_decide_eq_true h).1
    by_cases e : q' = q
    · rw [List.filter_cons_of_pos (by simp [hdue, hq, e]), hrest] at hperm
      rw [if_pos e]
      exact List.perm_singleton.mp hperm.symm
    · rw [List.filter_cons_of_neg (by simp [hq, Ne.symm e]), hrest] at hperm
      rw [if_neg e]
      exact hperm.nil_eq.symm
  refine ⟨?_, ?_⟩
  · have hperm := hp.filter fun x => ¬ i.Due x
    rw [hkeep] at hperm
    exact hperm
  · show { i with tick := _, pending := _, queue := _ } = _
    refine congrArg (fun f => ({ i with
      tick := u32 (i.tick + 1), pending := i.interrupt.pending, queue := f } : Timeouts T Q)) ?_
    funext q'
    show i.queue q' ++ _ = _
    rw [hsent]
    by_cases e : q' = q
    · rw [if_pos e, e, Function.update_self]
    · rw [if_neg e, Function.update_of_ne e, List.append_nil]

/-- the loop ends at a `TimeOut` that is not due -/
theorem timeOutLoop_stop {low : Nat} {a : Addr Q (TimeOutId T)} {s : TimerStruct T Q} {n : Nat}
    (ha : s.timeoutAt a = some n) (hn : n ≠ low) (fuel : Nat) : timeOutLoop low (fuel + 1) a s = some s := by
  unfold timeOutLoop
  rw [ha]
  exact if_neg hn

/-- the state after the `TimeOut` `n` has been pushed on its queue -/
def pushed (s : TimerStruct T Q) (n : TimeOutId T) (q : Q) : TimerStruct T Q :=
  { s with
    pTimeOutHead := s.notice.pNext (.node n)
    notice := ckLinkedListPushBack_lockfree s.notice q n }

/-- the state after the sentinal has been put off -/
def putOff (s : TimerStruct T Q) (timeout : Nat) : TimerStruct T Q :=
  TimerStruct.setTimeOut { s with pTimeOutHead := s.notice.pNext (.node .sentinal) } .sentinal
    { s.timeOuts .sentinal with timeout := timeout }

theorem timeOutLoop_push {low : Nat} {n : TimeOutId T} {q : Q} {s : TimerStruct T Q}
    (hn : (s.timeOuts n).timeout = low) (hq : (s.timeOuts n).noticeQueue = some q) (fuel : Nat) :
    timeOutLoop low (fuel + 1) (.node n) s =
      timeOutLoop low fuel ((pushed s n q).notice.pNext (.node n)) (pushed s n q) := by
  rw [timeOutLoop]
  show (if (s.timeOuts n).timeout = low then _ else _) = _
  rw [if_pos hn]
  simp only [hq]
  rfl

theorem timeOutLoop_null {low : Nat} {s : TimerStruct T Q} (hn : (s.timeOuts .sentinal).timeout = low)
    (hq : (s.timeOuts .sentinal).noticeQueue = none) (fuel : Nat) :
    timeOutLoop low (fuel + 1) (.node .sentinal) s =
      timeOutLoop low fuel (s.notice.pNext (.node .sentinal)) (putOff s (u32 (low + 0xffffffff))) := by
  rw [timeOutLoop]
  show (if (s.timeOuts .sentinal).timeout = low then _ else _) = _
  rw [if_pos hn]
  simp only [hq, hn]
  simp only [putOff, TimerStruct.setTimeOut, hq]

theorem setTimeOut_self (s : TimerStruct T Q) (n : TimeOutId T) (v : TimeOut Q) :
    (s.setTimeOut n v).timeOuts n = v := Function.update_self _ _ _

theorem setTimeOut_ne (s : TimerStruct T Q) {m n : TimeOutId T} (h : m ≠ n) (v : TimeOut Q) :
    (s.setTimeOut n v).timeOuts m = s.timeOuts m := Function.update_of_ne h _ _

/-- a sentinal that is due is put off by a whole round of the tick count -/
theorem timeOutLoop_sentinal {low : Nat} {s : TimerStruct T Q} (hlow : low < 2^32)
    (hs : (s.timeOuts .sentinal).noticeQueue = none ∧ s.notice.pNext (.node .sentinal) = .node .sentinal)
    (hhead : s.pTimeOutHead = .node .sentinal) : ∃ timeout, ∀ fuel,
      timeOutLoop low (fuel + 2) (.node .sentinal) s =
        some (s.setTimeOut .sentinal { s.timeOuts .sentinal with timeout := timeout }) := by
  by_cases hn : (s.timeOuts .sentinal).timeout = low
  · have hself : ((putOff s (u32 (low + 0xffffffff))).timeOuts .sentinal).timeout ≠ low := by
      rw [putOff, setTimeOut_self]
      exact sentinal_again hlow
    refine ⟨u32 (low + 0xffffffff), fun fuel => ?_⟩
    rw [timeOutLoop_null hn hs.1, hs.2, timeOutLoop_stop rfl hself, putOff, hs.2, ← hhead]
  · refine ⟨(s.timeOuts .sentinal).timeout, fun fuel => ?_⟩
    rw [timeOutLoop_stop rfl hn, TimerStruct.setTimeOut, Function.update_eq_self]

/-- **The interrupt** delivers what is due. -/
theorem TimerInv.interrupt {s : TimerStruct T Q} {i : Timeouts T Q} {ts : List T} (hi : TimerInv s i ts)
    (hone : i.OneDue) : ∃ s' ts', Returns s .interrupt s' ∧ TimerInv s' i.interrupt ts' := by
  have hlow := hi.tick.1
  let s₁ : TimerStruct T Q := { s with
    tickCountLow := u32 (s.tickCountLow + 1)
    tickCountHigh := if u32 (s.tickCountLow + 1) = 0 then u32 (s.tickCountHigh + 1) else s.tickCountHigh }
  have hexec : ∀ fuel, s.exec fuel .interrupt = timeOutLoop (u32 (s.tickCountLow + 1)) fuel s.pTimeOutHead s₁ :=
    fun fuel => rfl
  have hmem : ∀ t, t ∈ i.pending ↔ t ∈ ts := fun t => (hi.perm.mem_iff).symm
  cases ts with
  | nil =>
    have hhead : s.pTimeOutHead = .node .sentinal := hi.linked
    have hno : ∀ t ∈ i.pending, ¬ i.Due t := fun t ht => absurd ((hmem t).mp ht) List.not_mem_nil
    rw [Timeouts.interrupt_none hno]
    obtain ⟨timeout, hloop⟩ := timeOutLoop_sentinal (s := s₁) (u32_lt (s.tickCountLow + 1)) hi.sentinal hhead
    refine ⟨s₁.setTimeOut .sentinal { s₁.timeOuts .sentinal with timeout := timeout }, [],
      ⟨2, fun fuel hf => ?_⟩, ?_⟩
    · obtain ⟨fuel, rfl⟩ := Nat.exists_eq_add_of_le' hf
      rw [hexec, hhead]
      exact hloop fuel
    · refine hi.advance (fun t ht => absurd ht List.not_mem_nil) rfl rfl rfl
        (fun t => setTimeOut_ne s₁ (show TimeOutId.caller t ≠ .sentinal from nofun) _) ?_
      rw [setTimeOut_self]
      exact hi.sentinal.1
  | cons t ts =>
    have hhead : s.pTimeOutHead = .node (.caller t) := hi.linked.1
    have ht : (s₁.timeOuts (.caller t)).timeout = (i.timeOuts t).timeout := congrArg TimeOut.timeout (hi.fields t)
    have htmem := (hmem t).mpr List.mem_cons_self
    have hleft : ∀ x ∈ t :: ts, i.Due x ↔ i.left x = 1 := fun x hx =>
      (left_succ (hi.ahead x hx).1 hi.tick.2).1
    by_cases hdue : i.Due t
    · obtain ⟨q, hq⟩ := Option.ne_none_iff_exists'.mp (hi.queued t List.mem_cons_self)
      have hno : ∀ x ∈ ts, ¬ i.Due x := by
        intro x hx hdx
        have := hone.1 t htmem x ((hmem x).mpr (List.mem_cons_of_mem _ hx)) hdue hdx
        exact (List.nodup_cons.mp hi.nodup).1 (this ▸ hx)
      obtain ⟨hperm, e⟩ := Timeouts.interrupt_one hi.perm hdue hq hno
      let h' := ckLinkedListPushBack_lockfree s.notice q (.caller t)
      let s' : TimerStruct T Q := { s₁ with
        pTimeOutHead := s.notice.pNext (.node (.caller t)), notice := h' }
      have hself : h'.pNext (.node (.caller t)) = .dummy q :=
        push_pNext_self hi.lists trivial (notMem_nodes (hi.apart t List.mem_cons_self q))
      have hsize : h'.size q ≠ u32 (s.tickCountLow + 1) := by
        rw [push_size, Function.update_self, hi.lists.size q trivial, u32_succ, hlow]
        have := hone.2 t htmem hdue q hq
        rwa [Timeouts.nodes, List.length_map]
      refine ⟨s', ts, ⟨2, fun fuel hf => ?_⟩, ?_⟩
      · obtain ⟨fuel, rfl⟩ := Nat.exists_eq_add_of_le' hf
        have hdue' : (s₁.timeOuts (.caller t)).timeout = u32 (s.tickCountLow + 1) := by
          rw [ht, hlow]
          exact hdue
        have hq' : (s₁.timeOuts (.caller t)).noticeQueue = some q :=
          (congrArg TimeOut.noticeQueue (hi.fields t)).trans hq
        rw [hexec, hhead, timeOutLoop_push hdue' hq']
        show timeOutLoop _ (fuel + 1) (h'.pNext (.node (.caller t))) s' = some s'
        rw [hself]
        exact timeOutLoop_stop rfl hsize fuel
      · rw [e]
        exact (hi.deliver q hperm).advance hno rfl rfl rfl (fun _ => rfl) hi.sentinal.1
    · -- the list is sorted, so nothing behind the first timeout is due either
      have hno : ∀ x ∈ t :: ts, ¬ i.Due x := by
        intro x hx hdx
        rcases List.mem_cons.mp hx with rfl | hx'
        · exact hdue hdx
        · have h1 := (hleft x hx).mp hdx
          have h2 := (List.pairwise_cons.mp hi.sorted).1 x hx'
          have h3 := (hi.ahead t List.mem_cons_self).2
          exact hdue ((hleft t List.mem_cons_self).mpr (by omega))
      rw [Timeouts.interrupt_none fun x hx => hno x ((hmem x).mp hx)]
      refine ⟨s₁, t :: ts, ⟨1, fun fuel hf => ?_⟩, ?_⟩
      · obtain ⟨fuel, rfl⟩ := Nat.exists_eq_add_of_le' hf
        rw [hexec, hhead]
        refine timeOutLoop_stop rfl ?_ fuel
        rw [ht, hlow]
        exact hdue
      · exact hi.advance hno rfl rfl rfl (fun _ => rfl) hi.sentinal.1

/-! ## setting a timeout -/

/-- `t` linked in behind `before` -/
def linkedIn (s : TimerStruct T Q) (before : Option (Addr Q (TimeOutId T))) (t : T) : TimerStruct T Q :=
  (s.setNextTimeOut before (.node (.caller t))).setNextTimeOut (some (.node (.caller t))) (s.pNextTimeOut before)

/-- what stays as it is when `t` is linked in among `ts`, behind `before` at the earliest -/
structure LinkedIn (s : TimerStruct T Q) (before : Option (Addr Q (TimeOutId T))) (t : T) (ts : List T)
    (s' : TimerStruct T Q) : Prop where
  tick : s'.tickCountLow = s.tickCountLow
  timeOuts : s'.timeOuts = s.timeOuts
  size : s'.notice.size = s.notice.size
  prev : s'.notice.links.prev = s.notice.links.prev
  next : ∀ a, (∀ x ∈ t :: ts, a ≠ .node (.caller x)) → before ≠ some a → s'.notice.pNext a = s.notice.pNext a
  head : before ≠ none → s'.pTimeOutHead = s.pTimeOutHead

theorem linkedIn_spec {s : TimerStruct T Q} {before : Option (Addr Q (TimeOutId T))} {t : T} {ts : List T}
    (hl : Linked s.notice (s.pNextTimeOut before) ts) (ht : t ∉ ts)
    (hb : ∀ x ∈ t :: ts, before ≠ some (.node (.caller x))) :
    Linked (linkedIn s before t).notice ((linkedIn s before t).pNextTimeOut before) (t :: ts) ∧
      LinkedIn s before t ts (linkedIn s before t) := by
  have hne : ∀ x ∈ ts, (Addr.node (.caller x) : Addr Q (TimeOutId T)) ≠ .node (.caller t) := by
    intro x hx e
    cases e
    exact ht hx
  cases before with
  | none =>
    refine ⟨⟨rfl, ?_⟩, rfl, rfl, rfl, rfl, fun a ha _ => Function.update_of_ne (ha t List.mem_cons_self) _ _,
      fun h => absurd rfl h⟩
    show Linked _ (Function.update s.notice.links.next (.node (.caller t)) s.pTimeOutHead (.node (.caller t))) ts
    rw [Function.update_self]
    exact hl.frame fun x hx => Function.update_of_ne (hne x hx) _ _
  | some b =>
    have hbt : b ≠ .node (.caller t) := fun e => hb t List.mem_cons_self (congrArg some e)
    refine ⟨⟨?_, ?_⟩, rfl, rfl, rfl, rfl, fun a ha hba => ?_, fun _ => rfl⟩
    · show Function.update (Function.update s.notice.links.next b (.node (.caller t))) (.node (.caller t)) _ b = _
      rw [Function.update_of_ne hbt, Function.update_self]
    · have hbefore : (linkedIn s (some b) t).pNextTimeOut (some b) = .node (.caller t) := by
        show Function.update (Function.update s.notice.links.next b (.node (.caller t))) (.node (.caller t)) _ b = _
        rw [Function.update_of_ne hbt, Function.update_self]
      have hnext : (linkedIn s (some b) t).notice.pNext (.node (.caller t)) = s.pNextTimeOut (some b) :=
        Function.update_self _ _ _
      rw [hbefore, hnext]
      refine hl.frame fun x hx => ?_
      have hbx : (Addr.node (.caller x) : Addr Q (TimeOutId T)) ≠ b := fun e =>
        hb x (List.mem_cons_of_mem _ hx) (congrArg some e.symm)
      exact (Function.update_of_ne (hne x hx) _ _).trans (Function.update_of_ne hbx _ _)
    · have hab : a ≠ b := fun e => hba (congrArg some e.symm)
      exact (Function.update_of_ne (ha t List.mem_cons_self) _ _).trans (Function.update_of_ne hab _ _)

/-- **The loop of `ckTimerSet`** links `t` in before the first `TimeOut` with at least as many ticks left. -/
theorem timerSetLoop_spec {s : TimerStruct T Q} {t : T} {tick : Nat}
    (hsen : sub32 (s.timeOuts (.caller t)).timeout tick ≤ sub32 (s.timeOuts .sentinal).timeout tick) {ts : List T} :
    ∀ {before : Option (Addr Q (TimeOutId T))}, Linked s.notice (s.pNextTimeOut before) ts → (t :: ts).Nodup →
      (∀ x ∈ t :: ts, before ≠ some (.node (.caller x))) → ∃ pre post s', ts = pre ++ post ∧
        (∀ x ∈ pre, sub32 (s.timeOuts (.caller x)).timeout tick < sub32 (s.timeOuts (.caller t)).timeout tick) ∧
        (∀ x ∈ post.head?, sub32 (s.timeOuts (.caller t)).timeout tick ≤
          sub32 (s.timeOuts (.caller x)).timeout tick) ∧
        (∀ fuel, ts.length < fuel → timerSetLoop t tick fuel before (s.pNextTimeOut before) s = some s') ∧
        Linked s'.notice (s'.pNextTimeOut before) (pre ++ t :: post) ∧ LinkedIn s before t ts s' := by
  induction ts with
  | nil =>
    intro before hl hnd hb
    obtain ⟨h1, h2⟩ := linkedIn_spec hl List.not_mem_nil hb
    refine ⟨[], [], _, rfl, fun x hx => absurd hx List.not_mem_nil, nofun, fun fuel hf => ?_, h1, h2⟩
    obtain ⟨fuel, rfl⟩ := Nat.exists_eq_add_of_le' hf
    have hnode : s.pNextTimeOut before = .node .sentinal := hl
    rw [linkedIn, hnode]
    exact if_pos hsen
  | cons x xs ih =>
    intro before hl hnd hb
    have hnode : s.pNextTimeOut before = .node (.caller x) := hl.1
    have htx : t ≠ x := fun e => (List.nodup_cons.mp hnd).1 (e ▸ List.mem_cons_self)
    have ht : t ∉ x :: xs := (List.nodup_cons.mp hnd).1
    have hx : x ∉ xs := (List.nodup_cons.mp (List.nodup_cons.mp hnd).2).1
    by_cases hle : sub32 (s.timeOuts (.caller t)).timeout tick ≤ sub32 (s.timeOuts (.caller x)).timeout tick
    · obtain ⟨h1, h2⟩ := linkedIn_spec hl ht hb
      refine ⟨[], x :: xs, _, rfl, fun y hy => absurd hy List.not_mem_nil, fun y hy => ?_, fun fuel hf => ?_, h1, h2⟩
      · exact Option.some.inj hy ▸ hle
      · obtain ⟨fuel, rfl⟩ := Nat.exists_eq_add_of_le' (Nat.lt_of_le_of_lt (Nat.zero_le _) hf)
        rw [linkedIn, hnode]
        exact if_pos hle
    · have hl' : Linked s.notice (s.pNextTimeOut (some (.node (.caller x)))) xs := hnode ▸ hl.2
      have hnd' : (t :: xs).Nodup := List.nodup_cons.mpr ⟨fun h => ht (List.mem_cons_of_mem _ h),
        (List.nodup_cons.mp (List.nodup_cons.mp hnd).2).2⟩
      obtain ⟨pre, post, s', e, hpre, hpost, hloop, hlinked, hin⟩ := ih hl' hnd' fun y hy e => by
        cases e
        rcases List.mem_cons.mp hy with e | hy
        · exact htx e.symm
        · exact hx hy
      have hbx : before ≠ some (.node (.caller x)) := hb x (List.mem_cons_of_mem _ List.mem_cons_self)
      -- the walk goes on behind `x`, so what `before` points to stays
      have hbefore : s'.pNextTimeOut before = .node (.caller x) := by
        rw [← hnode]
        cases before with
        | none => exact hin.head nofun
        | some b =>
          refine hin.next b (fun y hy e => ?_) fun e => hbx (congrArg some (Option.some.inj e).symm)
          refine hb y ?_ (congrArg some e)
          rcases List.mem_cons.mp hy with rfl | hy
          · exact List.mem_cons_self
          · exact List.mem_cons_of_mem _ (List.mem_cons_of_mem _ hy)
      refine ⟨x :: pre, post, s', by rw [e]; rfl, fun y hy => ?_, hpost, fun fuel hf => ?_, ⟨hbefore, ?_⟩,
        hin.tick, hin.timeOuts, hin.size, hin.prev, fun a ha hba => ?_, fun hn => hin.head nofun⟩
      · rcases List.mem_cons.mp hy with rfl | hy
        · exact Nat.lt_of_not_le hle
        · exact hpre y hy
      · obtain ⟨fuel, rfl⟩ := Nat.exists_eq_add_of_le' (Nat.lt_of_le_of_lt (Nat.zero_le _) hf)
        rw [hnode]
        refine (if_neg hle).trans (hloop fuel ?_)
        have : (x :: xs).length = xs.length + 1 := rfl
        omega
      · rw [hbefore]
        exact hlinked
      · refine hin.next a (fun y hy => ?_) fun e => ?_
        · rcases List.mem_cons.mp hy with rfl | hy
          · exact ha y List.mem_cons_self
          · exact ha y (List.mem_cons_of_mem _ (List.mem_cons_of_mem _ hy))
        · exact ha x (List.mem_cons_of_mem _ List.mem_cons_self) (Option.some.inj e).symm

def Timeouts.fill (i : Timeouts T Q) (t : T) (v : TimeOut Q) : Timeouts T Q :=
  { i with timeOuts := Function.update i.timeOuts t v }

theorem fill_self (i : Timeouts T Q) (t : T) (v : TimeOut Q) : (i.fill t v).timeOuts t = v :=
  Function.update_self _ _ _

theorem fill_ne (i : Timeouts T Q) {x t : T} (h : x ≠ t) (v : TimeOut Q) :
    (i.fill t v).timeOuts x = i.timeOuts x := Function.update_of_ne h _ _

/-- the caller fills in the fields of a `TimeOut` that is not pending -/
theorem TimerInv.fill {s : TimerStruct T Q} {i : Timeouts T Q} {ts : List T} (hi : TimerInv s i ts) {t : T}
    (ht : t ∉ ts) (v : TimeOut Q) : TimerInv (s.setTimeOut (.caller t) v) (i.fill t v) ts := by
  have hother : ∀ x ∈ ts, (i.fill t v).timeOuts x = i.timeOuts x := fun x hx => fill_ne i (fun (e : x = t) => ht (e ▸ hx)) v
  have hleft : ∀ x ∈ ts, (i.fill t v).left x = i.left x := by
    intro x hx
    rw [Timeouts.left, hother x hx]
    rfl
  exact { hi with
    fields x := by
      by_cases e : x = t
      · rw [e, setTimeOut_self, fill_self]
      · rw [setTimeOut_ne s (fun h => e (TimeOutId.caller.inj h)), fill_ne i e]
        exact hi.fields x
    sentinal := by
      refine ⟨?_, hi.sentinal.2⟩
      rw [setTimeOut_ne s (show TimeOutId.sentinal ≠ .caller t from nofun)]
      exact hi.sentinal.1
    sorted := List.Pairwise.imp_of_mem (fun ha hb hab => by rwa [hleft _ ha, hleft _ hb]) hi.sorted
    ahead x hx := by
      rw [hleft x hx, hother x hx]
      exact hi.ahead x hx
    queued x hx := by
      rw [hother x hx]
      exact hi.queued x hx
  }

/-- the sentinal with a new timeout -/
def TimerStruct.setSentinal (s : TimerStruct T Q) (n : Nat) : TimerStruct T Q :=
  s.setTimeOut .sentinal { s.timeOuts .sentinal with timeout := n }

theorem setSentinal_timeout (s : TimerStruct T Q) (n : Nat) :
    ((s.setSentinal n).timeOuts .sentinal).timeout = n := by
  rw [TimerStruct.setSentinal, setTimeOut_self]

theorem TimerInv.setSentinal {s : TimerStruct T Q} {i : Timeouts T Q} {ts : List T} (hi : TimerInv s i ts)
    (n : Nat) : TimerInv (s.setSentinal n) i ts := by
  unfold TimerStruct.setSentinal
  exact { hi with
    fields x := by
      rw [setTimeOut_ne s (show TimeOutId.caller x ≠ .sentinal from nofun)]
      exact hi.fields x
    sentinal := by
      refine ⟨?_, hi.sentinal.2⟩
      rw [setTimeOut_self]
      exact hi.sentinal.1
  }

/-- `t` joins the pending timeouts `pre ++ post` between the two parts -/
theorem TimerInv.join {s s' : TimerStruct T Q} {i : Timeouts T Q} {t : T} {pre post : List T}
    (hi : TimerInv s i (pre ++ post)) (hin : LinkedIn s none t (pre ++ post) s')
    (hlinked : Linked s'.notice s'.pTimeOutHead (pre ++ t :: post)) (hnew : t ∉ pre ++ post)
    (hpre : ∀ x ∈ pre, i.left x < i.left t) (hpost : ∀ x ∈ post.head?, i.left t ≤ i.left x)
    (ht : (i.timeOuts t).timeout < 2^32 ∧ 0 < i.left t)
    (hq : (i.timeOuts t).noticeQueue ≠ none) (hfree : ∀ q, t ∉ i.queue q) :
    TimerInv s' { i with pending := t :: i.pending } (pre ++ t :: post) := by
  obtain ⟨htick, hfields, hsen, hlists, _, hperm, hnodup, hsorted, hahead, hqueued, hapart⟩ := hi
  have hmid : (pre ++ t :: post).Perm (t :: (pre ++ post)) := List.perm_middle
  have hall : ∀ {P : T → Prop}, P t → (∀ x ∈ pre ++ post, P x) → ∀ x ∈ pre ++ t :: post, P x := by
    intro P h1 h2 x hx
    rcases List.mem_cons.mp (hmid.mem_iff.mp hx) with rfl | hx
    · exact h1
    · exact h2 x hx
  have hapart' := hall (P := fun x => ∀ q, x ∉ i.queue q) hfree hapart
  obtain ⟨hs1, hs2, hs3⟩ := List.pairwise_append.mp hsorted
  have hpost' : ∀ x ∈ post, i.left t ≤ i.left x := by
    cases post with
    | nil => exact fun x hx => absurd hx List.not_mem_nil
    | cons y ys =>
      intro x hx
      have hy : i.left t ≤ i.left y := hpost y rfl
      rcases List.mem_cons.mp hx with rfl | hx
      · exact hy
      · exact hy.trans ((List.pairwise_cons.mp hs2).1 x hx)
  exact {
    tick := ⟨hin.tick.trans htick.1, htick.2⟩
    fields := fun x => by rw [hin.timeOuts]; exact hfields x
    sentinal := by
      refine ⟨?_, ?_⟩
      · rw [hin.timeOuts]
        exact hsen.1
      · have hne : ∀ x ∈ t :: (pre ++ post), (Addr.node .sentinal : Addr Q (TimeOutId T)) ≠ .node (.caller x) :=
          fun x _ => nofun
        rw [hin.next _ hne nofun]
        exact hsen.2
    lists := by
      -- the lists of the notice queues do not go through pending timeouts
      refine hlists.frame hin.size hin.prev fun q _ a ha => hin.next a (fun x hx e => ?_) nofun
      rw [e] at ha
      exact notMem_nodes (hapart' x (hmid.mem_iff.mpr hx) q) (node_mem.mp ha)
    linked := hlinked
    perm := hmid.trans (hperm.cons t)
    nodup := hmid.nodup_iff.mpr (List.nodup_cons.mpr ⟨hnew, hnodup⟩)
    sorted := by
      refine List.pairwise_append.mpr ⟨hs1, List.pairwise_cons.mpr ⟨hpost', hs2⟩, fun a ha b hb => ?_⟩
      rcases List.mem_cons.mp hb with rfl | hb
      · exact (hpre a ha).le
      · exact hs3 a ha b hb
    ahead := hall ht hahead
    queued := hall hq hqueued
    apart := hapart'
  }

/-- **`ckTimerSet`** adds a timeout to the pending ones. -/
theorem TimerInv.set {s : TimerStruct T Q} {i : Timeouts T Q} {ts : List T} (hi : TimerInv s i ts) {t : T}
    (hnew : t ∉ i.pending) {timeout : Nat} (hlt : timeout < 2^32) {noticeQueue : Option Q}
    (hpos : noticeQueue ≠ none → 0 < sub32 timeout i.tick) (hfree : noticeQueue ≠ none → ∀ q, t ∉ i.queue q) :
    ∃ s' ts', Returns s (.set t timeout noticeQueue) s' ∧ TimerInv s' (i.set t timeout noticeQueue) ts' := by
  have ht : t ∉ ts := fun h => hnew (hi.perm.mem_iff.mp h)
  have hi₀ := hi.fill ht ⟨timeout, noticeQueue⟩
  have hself := setTimeOut_self s (.caller t) ⟨timeout, noticeQueue⟩
  have hqueue : ((s.setTimeOut (.caller t) ⟨timeout, noticeQueue⟩).timeOuts (.caller t)).noticeQueue = noticeQueue := by
    rw [hself]
  by_cases hnone : noticeQueue = none
  · refine ⟨s.setTimeOut (.caller t) ⟨timeout, noticeQueue⟩, ts, ⟨0, fun fuel _ => ?_⟩, ?_⟩
    · show (ckTimerSet fuel _ t).map Prod.snd = _
      rw [ckTimerSet, if_pos (hqueue.trans hnone)]
      rfl
    · rw [Timeouts.set, if_pos hnone]
      exact hi₀
  · have hi₁ := hi₀.setSentinal (u32 (s.tickCountLow + 0xffffffff))
    have hleft : ∀ x, (i.fill t ⟨timeout, noticeQueue⟩).left x =
        sub32 ((i.fill t ⟨timeout, noticeQueue⟩).timeOuts x).timeout s.tickCountLow := fun x => by
      rw [hi.tick.1]
      rfl
    have hit := fill_self i t ⟨timeout, noticeQueue⟩
    have hlt' : (i.fill t ⟨timeout, noticeQueue⟩).left t = sub32 timeout i.tick := by
      rw [Timeouts.left, hit]
      rfl
    let s₁ := (s.setTimeOut (.caller t) ⟨timeout, noticeQueue⟩).setSentinal (u32 (s.tickCountLow + 0xffffffff))
    have hfields : ∀ x, s₁.timeOuts (.caller x) = (i.fill t ⟨timeout, noticeQueue⟩).timeOuts x := hi₁.fields
    have hsen : sub32 (s₁.timeOuts (.caller t)).timeout s.tickCountLow ≤
        sub32 (s₁.timeOuts .sentinal).timeout s.tickCountLow := by
      rw [setSentinal_timeout, left_sentinal (hi.tick.1 ▸ hi.tick.2)]
      exact Nat.le_sub_one_of_lt (sub32_lt _ _)
    have hhead : Linked s₁.notice (s₁.pNextTimeOut none) ts := hi₁.linked
    obtain ⟨pre, post, s', rfl, hpre, hpost, hloop, hlinked, hin⟩ :=
      timerSetLoop_spec hsen hhead (List.nodup_cons.mpr ⟨ht, hi.nodup⟩) fun _ _ => nofun
    refine ⟨s', pre ++ t :: post, ⟨(pre ++ post).length + 1, fun fuel hf => ?_⟩, ?_⟩
    · show (ckTimerSet fuel _ t).map Prod.snd = _
      rw [ckTimerSet, if_neg fun h => hnone (hqueue.symm.trans h)]
      exact congrArg (fun r => (r.map fun s => (true, s)).map Prod.snd) (hloop fuel hf)
    · rw [Timeouts.set, if_neg hnone]
      simp only [hfields] at hpre hpost
      refine hi₁.join hin hlinked ht (fun x hx => ?_) (fun x hx => ?_) ?_ ?_ (hfree hnone)
      · rw [hleft, hleft]
        exact hpre x hx
      · rw [hleft, hleft]
        exact hpost x hx
      · rw [hlt', hit]
        exact ⟨hlt, hpos hnone⟩
      · rw [hit]
        exact hnone

/-! ## taking a timeout out of its queue -/

/-- the first node of a queue is taken out of it -/
theorem Timeouts.pop_nodes {i : Timeouts T Q} {q : Q} {t : T} {ts : List T} (hq : i.queue q = t :: ts) :
    (i.pop q).nodes = Function.update i.nodes q ((i.nodes q).erase (.caller t)) := by
  funext q'
  show (Function.update i.queue q (i.queue q).tail q').map TimeOutId.caller = _
  by_cases e : q' = q
  · rw [e, Function.update_self, Function.update_self, Timeouts.nodes, hq]
    exact (List.erase_cons_head _ _).symm
  · rw [Function.update_of_ne e, Function.update_of_ne e]
    rfl

theorem erase_pNext_other {L N : Type} [DecidableEq L] [DecidableEq N] {h : Heap L N} {act : L → Prop}
    {c : L → List N} (hl : Lists h act c) {l : L} (ha : act l) {n m : N} (hn : n ∈ c l) (hm : m ∉ c l) :
    (ckLinkedListErase h l n).pNext (.node m) = h.pNext (.node m) := by
  have hnb := (hl.ring l ha).neighbours (node_mem.mpr hn)
  show (ckLinkedListErase h l n).links.next (.node m) = _
  rw [erase_links]
  exact (erase_agree (fun e => hm (node_mem.mp (e ▸ hnb.2))) fun e => hm (node_mem.mp (e ▸ hnb.1))).1

theorem TimerInv.pop {s : TimerStruct T Q} {i : Timeouts T Q} {ts : List T} (hi : TimerInv s i ts) (q : Q) :
    ∃ s', Returns s (.pop q) s' ∧ TimerInv s' (i.pop q) ts := by
  have hexec : ∀ fuel, s.exec fuel (.pop q) =
      (ckLinkedListPopFront_lockfree s.notice q).map fun r => { s with notice := r.2 } := fun _ => rfl
  cases hq : i.queue q with
  | nil =>
    have hnil : i.nodes q = [] := by rw [Timeouts.nodes, hq, List.map_nil]
    refine ⟨s, ⟨0, fun fuel _ => ?_⟩, ?_⟩
    · rw [hexec, hi.lists.pop_nil trivial hnil]
      rfl
    · have hsame : i.pop q = i := by
        rw [Timeouts.pop, show (i.queue q).tail = i.queue q by rw [hq]; rfl, Function.update_eq_self]
      rw [hsame]
      exact hi
  | cons t rest =>
    have hcons : i.nodes q = .caller t :: rest.map .caller := by rw [Timeouts.nodes, hq, List.map_cons]
    have hmem : TimeOutId.caller t ∈ i.nodes q := hcons ▸ List.mem_cons_self
    refine ⟨{ s with notice := ckLinkedListErase s.notice q (.caller t) }, ⟨0, fun fuel _ => ?_⟩, ?_⟩
    · rw [hexec, hi.lists.pop_cons trivial hcons]
      rfl
    · exact { hi with
        sentinal := by
          refine ⟨hi.sentinal.1, ?_⟩
          exact (erase_pNext_other hi.lists trivial hmem (sentinal_notMem i q)).trans hi.sentinal.2
        lists := by
          rw [Timeouts.pop_nodes hq]
          exact hi.lists.erase trivial hmem
        linked := hi.linked.frame fun x hx => erase_pNext_other hi.lists trivial hmem (notMem_nodes (hi.apart x hx q))
        apart x hx q' hm := by
          have hm' : x ∈ Function.update i.queue q (i.queue q).tail q' := hm
          by_cases e : q' = q
          · rw [e, Function.update_self] at hm'
            exact hi.apart x hx q (List.mem_of_mem_tail hm')
          · rw [Function.update_of_ne e] at hm'
            exact hi.apart x hx q' hm'
      }

/-! ## runs -/

/-- the calls that are made: a `TimeOut` is set while it is not pending, up to `2^32 - 2` ticks ahead -/
def TimerOp.Allowed (i : Timeouts T Q) : TimerOp T Q → Prop
  | .set t timeout _ =>
    t ∉ i.pending ∧ timeout < 2^32 ∧ 1 ≤ sub32 timeout i.tick ∧ sub32 timeout i.tick ≤ 2^32 - 2
  | _ => True

/-- a `TimeOut` is not set while it lies in a queue, and an interrupt finds at most one that is due -/
def TimerOp.Clear (i : Timeouts T Q) : TimerOp T Q → Prop
  | .set t _ noticeQueue => noticeQueue ≠ none → ∀ q, t ∉ i.queue q
  | .interrupt => i.OneDue
  | .pop _ => True

def TimerOp.Proper (i : Timeouts T Q) (op : TimerOp T Q) : Prop := op.Allowed i ∧ op.Clear i

/-- the runs of the timer, each beside the run of what it is for -/
inductive TimerRun (ok : Timeouts T Q → TimerOp T Q → Prop) : TimerStruct T Q → Timeouts T Q → Prop
  | boot : TimerRun ok (ckTimerInitialize .zero) .start
  | call {s i op s'} : TimerRun ok s i → ok i op → Returns s op s' → TimerRun ok s' (i.step op)

/-- **The timer is where it should be**: the pending timeouts are linked from the head on, each once, and
the queues hold what was delivered to them, in order. -/
structure Delivered (s : TimerStruct T Q) (i : Timeouts T Q) : Prop where
  tick : s.tickCountLow = i.tick
  pending : ∃ ts, Linked s.notice s.pTimeOutHead ts ∧ ts.Nodup ∧ ∀ t, t ∈ ts ↔ t ∈ i.pending
  queue : ∀ q, IsRing s.notice.links (.dummy q) ((i.queue q).map fun t => .node (.caller t)) ∧
    s.notice.size q = u32 (i.queue q).length

theorem TimerInv.delivered {s : TimerStruct T Q} {i : Timeouts T Q} {ts : List T} (hi : TimerInv s i ts) :
    Delivered s i := by
  refine ⟨hi.tick.1, ⟨ts, hi.linked, hi.nodup, fun t => hi.perm.mem_iff⟩, fun q => ⟨?_, ?_⟩⟩
  · have hring := hi.lists.ring q trivial
    rwa [Timeouts.nodes, List.map_map] at hring
  · rw [hi.lists.size q trivial, Timeouts.nodes, List.length_map]

theorem TimerInv.step {s : TimerStruct T Q} {i : Timeouts T Q} {ts : List T} (hi : TimerInv s i ts)
    {op : TimerOp T Q} (ha : op.Allowed i) (hc : op.Clear i) :
    ∃ s' ts', Returns s op s' ∧ TimerInv s' (i.step op) ts' := by
  cases op with
  | set t timeout noticeQueue =>
    obtain ⟨hnew, hlt, hpos, _⟩ := ha
    exact hi.set hnew hlt (fun _ => hpos) hc
  | interrupt => exact hi.interrupt hc
  | pop q =>
    obtain ⟨s', hret, hi'⟩ := hi.pop q
    exact ⟨s', ts, hret, hi'⟩

theorem Returns.unique {s s₁ s₂ : TimerStruct T Q} {op : TimerOp T Q} (h1 : Returns s op s₁) (h2 : Returns s op s₂) :
    s₁ = s₂ := by
  obtain ⟨n, hn⟩ := h1
  obtain ⟨m, hm⟩ := h2
  exact Option.some.inj ((hn (max n m) (le_max_left _ _)).symm.trans (hm (max n m) (le_max_right _ _)))

theorem boot_timer : TimerInv (ckTimerInitialize (.zero : TimerStruct T Q)) .start [] := by
  have hlists : Lists (ckTimerInitialize (.zero : TimerStruct T Q)).notice (fun _ => True)
      (Timeouts.start : Timeouts T Q).nodes :=
    ⟨fun q _ => isRing_nil.mpr ⟨rfl, rfl⟩, fun q _ => List.nodup_nil, fun q q' n _ _ hn => absurd hn List.not_mem_nil,
      fun q _ => rfl⟩
  exact {
    tick := ⟨rfl, Nat.two_pow_pos 32⟩
    fields := fun t => rfl
    sentinal := ⟨rfl, rfl⟩
    lists := hlists
    linked := rfl
    perm := List.Perm.refl _
    nodup := List.nodup_nil
    sorted := List.Pairwise.nil
    ahead := List.forall_mem_nil _
    queued := List.forall_mem_nil _
    apart := List.forall_mem_nil _
  }

theorem TimerRun.inv {s : TimerStruct T Q} {i : Timeouts T Q} (h : TimerRun TimerOp.Proper s i) :
    ∃ ts, TimerInv s i ts := by
  induction h with
  | boot => exact ⟨[], boot_timer⟩
  | call _ ho hret ih =>
    obtain ⟨ts, hi⟩ := ih
    obtain ⟨s₁, ts₁, hret₁, hi₁⟩ := hi.step ho.1 ho.2
    exact ⟨ts₁, hret₁.unique hret ▸ hi₁⟩

/-- **Every timeout is delivered on its tick**, once, and the others stay pending, in every run whose calls
are all clear; every such call comes back. -/
theorem timer_delivers {s : TimerStruct T Q} {i : Timeouts T Q}
    (h : TimerRun TimerOp.Proper s i) :
    Delivered s i ∧ ∀ op : TimerOp T Q, op.Proper i → ∃ s', Returns s op s' := by
  obtain ⟨ts, hi⟩ := h.inv
  refine ⟨hi.delivered, fun op ho => ?_⟩
  obtain ⟨s', _, hret, _⟩ := hi.step ho.1 ho.2
  exact ⟨s', hret⟩

/-! ## runs written out -/

theorem timerSetLoop_succ {t : T} {tick : Nat} {s' : TimerStruct T Q} : ∀ (fuel : Nat)
    (before : Option (Addr Q (TimeOutId T))) (node : Addr Q (TimeOutId T)) (s : TimerStruct T Q),
    timerSetLoop t tick fuel before node s = some s' → timerSetLoop t tick (fuel + 1) before node s = some s'
  | 0, _, _, _, h => by cases h
  | fuel + 1, before, node, s, h => by
    rw [timerSetLoop] at h ⊢
    cases ha : s.timeoutAt node with
    | none =>
      rw [ha] at h
      cases h
    | some n =>
      rw [ha] at h
      simp only [] at h ⊢
      split at h
      · rename_i hle
        rw [if_pos hle]
        exact h
      · rename_i hle
        rw [if_neg hle]
        exact timerSetLoop_succ fuel _ _ _ h

theorem timeOutLoop_succ {low : Nat} {s' : TimerStruct T Q} : ∀ (fuel : Nat) (a : Addr Q (TimeOutId T))
    (s : TimerStruct T Q), timeOutLoop low fuel a s = some s' → timeOutLoop low (fuel + 1) a s = some s'
  | 0, _, _, h => by cases h
  | fuel + 1, a, s, h => by
    rw [timeOutLoop] at h ⊢
    cases ha : s.timeoutAt a with
    | none =>
      rw [ha] at h
      cases h
    | some n =>
      rw [ha] at h
      simp only [] at h ⊢
      split at h
      · rename_i hn
        rw [if_pos hn]
        cases a with
        | null => cases h
        | dummy q => cases h
        | node n => exact timeOutLoop_succ fuel _ _ h
      · rename_i hn
        rw [if_neg hn]
        exact h

theorem exec_succ {s s' : TimerStruct T Q} {op : TimerOp T Q} {fuel : Nat} (h : s.exec fuel op = some s') :
    s.exec (fuel + 1) op = some s' := by
  cases op with
  | set t timeout noticeQueue =>
    unfold TimerStruct.exec ckTimerSet at h ⊢
    simp only [] at h ⊢
    split at h
    · rename_i hq
      rw [if_pos hq]
      exact h
    · rename_i hq
      rw [if_neg hq]
      obtain ⟨r, hr, e⟩ := Option.map_eq_some_iff.mp h
      obtain ⟨s₁, h₁, e₁⟩ := Option.map_eq_some_iff.mp hr
      rw [timerSetLoop_succ _ _ _ _ h₁, ← e, ← e₁]
      rfl
  | interrupt => exact timeOutLoop_succ _ _ _ h
  | pop q => exact h

theorem returns_of_exec {s s' : TimerStruct T Q} {op : TimerOp T Q} {fuel : Nat} (h : s.exec fuel op = some s') :
    Returns s op s' := by
  refine ⟨fuel, fun n hn => ?_⟩
  induction hn with
  | refl => exact h
  | step _ ih => exact exec_succ ih

def timerAll (ok : Timeouts T Q → TimerOp T Q → Prop) [∀ i op, Decidable (ok i op)] : List (TimerOp T Q) →
    TimerStruct T Q → Timeouts T Q → Option (TimerStruct T Q × Timeouts T Q)
  | [], s, i => some (s, i)
  | op :: ops, s, i => if ok i op then (s.exec 8 op).bind fun s' => timerAll ok ops s' (i.step op) else none

theorem timerAll_run {ok : Timeouts T Q → TimerOp T Q → Prop} [∀ i op, Decidable (ok i op)] {ops : List (TimerOp T Q)} :
    ∀ {s : TimerStruct T Q} {i : Timeouts T Q} {r : TimerStruct T Q × Timeouts T Q}, TimerRun ok s i →
      timerAll ok ops s i = some r → TimerRun ok r.1 r.2 := by
  induction ops with
  | nil =>
    intro s i r h e
    exact Option.some.inj e ▸ h
  | cons op ops ih =>
    intro s i r h e
    unfold timerAll at e
    by_cases ho : ok i op
    · rw [if_pos ho] at e
      obtain ⟨s₁, e₁, e₂⟩ := Option.bind_eq_some_iff.mp e
      exact ih (h.call ho (returns_of_exec e₁)) e₂
    · rw [if_neg ho] at e
      cases e

instance TimerOp.decidableAllowed (i : Timeouts T Q) (op : TimerOp T Q) : Decidable (op.Allowed i) := by
  cases op <;> unfold TimerOp.Allowed <;> infer_instance

instance TimerOp.decidableClear [Fintype Q] (i : Timeouts T Q) (op : TimerOp T Q) : Decidable (op.Clear i) := by
  cases op <;> unfold TimerOp.Clear <;> (try unfold Timeouts.OneDue) <;> infer_instance

instance TimerOp.decidableProper [Fintype Q] (i : Timeouts T Q) (op : TimerOp T Q) : Decidable (op.Proper i) :=
  inferInstanceAs (Decidable (_ ∧ _))

/-- two timeouts with different deadlines for one queue, the later one set first -/
def twoDeadlines : List (TimerOp (Fin 2) (Fin 1)) :=
  [.interrupt, .set 0 4 (some 0), .set 1 3 (some 0), .interrupt, .interrupt, .interrupt]

theorem twoDeadlines_some : (timerAll TimerOp.Proper twoDeadlines
    (ckTimerInitialize .zero) .start).isSome := by decide +kernel

def twoDeadlinesState : TimerStruct (Fin 2) (Fin 1) × Timeouts (Fin 2) (Fin 1) :=
  (timerAll TimerOp.Proper twoDeadlines (ckTimerInitialize .zero) .start).get twoDeadlines_some

theorem timer_delivers_two : IsRing twoDeadlinesState.1.notice.links (.dummy 0)
    [.node (.caller 1), .node (.caller 0)] ∧ twoDeadlinesState.1.notice.size 0 = 2 := by
  have hrun : TimerRun TimerOp.Proper twoDeadlinesState.1 twoDeadlinesState.2 :=
    timerAll_run .boot (Option.some_get twoDeadlines_some).symm
  have h := (timer_delivers hrun).1.queue 0
  have hq : twoDeadlinesState.2.queue 0 = [1, 0] := by decide +kernel
  rw [hq] at h
  exact h

/-- two timeouts with one deadline -/
def sharedDeadline : List (TimerOp (Fin 2) (Fin 1)) :=
  [.set 0 2 (some 0), .set 1 2 (some 0), .interrupt, .interrupt]

theorem sharedDeadline_some : (timerAll TimerOp.Allowed sharedDeadline
    (ckTimerInitialize .zero) .start).isSome := by decide +kernel

def sharedDeadlineState : TimerStruct (Fin 2) (Fin 1) × Timeouts (Fin 2) (Fin 1) :=
  (timerAll TimerOp.Allowed sharedDeadline (ckTimerInitialize .zero) .start).get sharedDeadline_some

/-- **Two timeouts with one deadline**: after the first one is pushed, the handler follows its `pNext` into
the queue and stops there; the second one stays behind. -/
theorem shared_deadline : TimerRun TimerOp.Allowed sharedDeadlineState.1 sharedDeadlineState.2 ∧
    ¬ Delivered sharedDeadlineState.1 sharedDeadlineState.2 := by
  refine ⟨timerAll_run .boot (Option.some_get sharedDeadline_some).symm, fun h => ?_⟩
  have hsize : sharedDeadlineState.1.notice.size 0 ≠ u32 (sharedDeadlineState.2.queue 0).length := by
    decide +kernel
  exact hsize (h.queue 0).2

end Clubcos
