import Clubcos.Timer.Run

/-!
# The sorted list of `ckTimerSet`

The list is sorted by the ticks that are left, counted modulo `2^32` from a tick count that may be anything; nothing else of the
timer is asked for here.

* `TimerStruct.distance`   the ticks that are left, for the sentinal too;
* `Pending`                the `TimeOut`s from the head on, sorted, and then the sentinal linked to itself;
* `timerSet_inserts`       **`ckTimerSet` inserts**: the new one comes before those with as many ticks left;
* `Pending.tick`           the tick count goes on by one, and the list stays sorted.
-/

set_option linter.unusedVariables false
set_option linter.unusedSectionVars false

namespace Clubcos
open Word Ring

variable {T Q : Type} [DecidableEq T] [DecidableEq Q]

/-- `timeout - tick` in 32 bits -/
def TimerStruct.distance (s : TimerStruct T Q) (n : TimeOutId T) : Nat := sub32 (s.timeOuts n).timeout s.tickCountLow

/-- `++TickCountLow`, with the carry -/
def TimerStruct.tick (s : TimerStruct T Q) : TimerStruct T Q :=
  { s with
    tickCountLow := u32 (s.tickCountLow + 1)
    tickCountHigh := if u32 (s.tickCountLow + 1) = 0 then u32 (s.tickCountHigh + 1) else s.tickCountHigh }

/-- the handler counts the tick, and looks at the list then -/
example (fuel : Nat) (s : TimerStruct T Q) :
    ck_TimerIntHandler fuel s = timeOutLoop s.tick.tickCountLow fuel s.tick.pTimeOutHead s.tick := rfl

/-- `ts` are the pending `TimeOut`s in the order of the list -/
structure Pending (s : TimerStruct T Q) (ts : List T) : Prop where
  linked : Linked s.notice s.pTimeOutHead ts
  sentinal : s.notice.pNext (.node .sentinal) = .node .sentinal
  sorted : ts.Pairwise fun t t' => s.distance (.caller t) ≤ s.distance (.caller t')

/-! ## a list that ends has no cycle -/

theorem Linked.unique {h : Heap Q (TimeOutId T)} {ts : List T} : ∀ {us : List T} {a : Addr Q (TimeOutId T)},
    Linked h a ts → Linked h a us → ts = us := by
  induction ts with
  | nil =>
    intro us a ht hu
    cases us with
    | nil => rfl
    | cons u us => cases Eq.trans (Eq.symm ht) hu.1
  | cons t ts ih =>
    intro us a ht hu
    cases us with
    | nil => cases Eq.trans (Eq.symm hu) ht.1
    | cons u us =>
      have e : t = u := by simpa using ht.1.symm.trans hu.1
      rw [e, ih ht.2 hu.2]

theorem Linked.from {h : Heap Q (TimeOutId T)} {t : T} {vs : List T} (us : List T) : ∀ {a : Addr Q (TimeOutId T)},
    Linked h a (us ++ t :: vs) → Linked h (.node (.caller t)) (t :: vs) := by
  induction us with
  | nil =>
    intro a hl
    rw [← hl.1]
    exact hl
  | cons u us ih =>
    intro a hl
    apply ih
    exact hl.2

theorem Linked.nodup {h : Heap Q (TimeOutId T)} {ts : List T} : ∀ {a : Addr Q (TimeOutId T)}, Linked h a ts → ts.Nodup := by
  induction ts with
  | nil =>
    intro a hl
    simp
  | cons t ts ih =>
    intro a hl
    refine List.nodup_cons.mpr ⟨fun hm => ?_, ih hl.2⟩
    -- from a second `t` on the same list would go on
    obtain ⟨us, vs, rfl⟩ := List.append_of_mem hm
    have hfirst : Linked h (.node (.caller t)) (t :: (us ++ t :: vs)) := Linked.from [] hl
    have hsecond : Linked h (.node (.caller t)) (t :: vs) := Linked.from us hl.2
    have hlen := congrArg List.length (hfirst.unique hsecond)
    simp only [List.length_cons, List.length_append] at hlen
    omega

/-! ## insertion -/

theorem pairwise_insert {α : Type} {r : α → α → Prop} {pre post : List α} {t : α} (h : (pre ++ post).Pairwise r)
    (hpre : ∀ x ∈ pre, r x t) (hpost : ∀ x ∈ post, r t x) : (pre ++ t :: post).Pairwise r := by
  obtain ⟨h1, h2, h3⟩ := List.pairwise_append.mp h
  refine List.pairwise_append.mpr ⟨h1, List.pairwise_cons.mpr ⟨hpost, h2⟩, fun a ha b hb => ?_⟩
  rcases List.mem_cons.mp hb with rfl | hb
  · exact hpre a ha
  · exact h3 a ha b hb

/-- what is below the first of a sorted list is below all of it -/
theorem le_of_head {α : Type} (f : α → Nat) {n : Nat} {l : List α} (hl : l.Pairwise fun x y => f x ≤ f y)
    (h : ∀ x ∈ l.head?, n ≤ f x) : ∀ x ∈ l, n ≤ f x := by
  cases l with
  | nil => simp
  | cons y ys =>
    intro x hx
    have hy : n ≤ f y := h y rfl
    rcases List.mem_cons.mp hx with rfl | hx
    · exact hy
    · exact hy.trans ((List.pairwise_cons.mp hl).1 x hx)

/-- what `ckTimerSet` makes of a list in two parts -/
structure Inserted (s : TimerStruct T Q) (pre : List T) (t : T) (post : List T) (s' : TimerStruct T Q) : Prop where
  pending : Pending s' (pre ++ t :: post)
  before : ∀ x ∈ pre, s'.distance (.caller x) < s'.distance (.caller t)
  after : ∀ x ∈ post, s'.distance (.caller t) ≤ s'.distance (.caller x)
  last : s'.distance .sentinal = 2^32 - 1
  tick : s'.tickCountLow = s.tickCountLow
  timeOuts : ∀ x, s'.timeOuts (.caller x) = s.timeOuts (.caller x)

/-- **`ckTimerSet` inserts** the `TimeOut` into the sorted list, whatever the tick count is. -/
theorem timerSet_inserts {s : TimerStruct T Q} {ts : List T} {t : T} (htick : s.tickCountLow < 2^32)
    (hp : Pending s ts) (hnew : t ∉ ts) (hqueue : (s.timeOuts (.caller t)).noticeQueue ≠ none) :
    ∃ pre post s', ts = pre ++ post ∧ (∀ fuel, ts.length < fuel → ckTimerSet fuel s t = some (true, s')) ∧
      Inserted s pre t post s' := by
  let s₁ := s.setSentinal (u32 (s.tickCountLow + 0xffffffff))
  have hcaller : ∀ x, s₁.timeOuts (.caller x) = s.timeOuts (.caller x) := fun x =>
    setTimeOut_ne s (show TimeOutId.caller x ≠ .sentinal from fun h => by cases h) _
  have hlast : sub32 (s₁.timeOuts .sentinal).timeout s.tickCountLow = 2^32 - 1 := by
    rw [setSentinal_timeout]
    exact left_sentinal htick
  have hsen : sub32 (s₁.timeOuts (.caller t)).timeout s.tickCountLow ≤
      sub32 (s₁.timeOuts .sentinal).timeout s.tickCountLow := by
    rw [hlast]
    exact Nat.le_sub_one_of_lt (sub32_lt _ _)
  have hhead : Linked s₁.notice (s₁.pNextTimeOut none) ts := hp.linked
  obtain ⟨pre, post, s', rfl, hpre, hpost, hloop, hlinked, hin⟩ :=
    timerSetLoop_spec hsen hhead (List.nodup_cons.mpr ⟨hnew, hp.linked.nodup⟩) fun _ _ h => by cases h
  have hdist : ∀ x, s'.distance (.caller x) = s.distance (.caller x) := by
    intro x
    show sub32 (s'.timeOuts (.caller x)).timeout s'.tickCountLow = _
    rw [hin.timeOuts, hin.tick, hcaller]
    rfl
  have hdist₁ : ∀ x, sub32 (s₁.timeOuts (.caller x)).timeout s.tickCountLow = s.distance (.caller x) := by
    intro x
    rw [hcaller]
    rfl
  have hbefore : ∀ x ∈ pre, s.distance (.caller x) < s.distance (.caller t) := by
    intro x hx
    rw [← hdist₁, ← hdist₁]
    exact hpre x hx
  have hafter : ∀ x ∈ post, s.distance (.caller t) ≤ s.distance (.caller x) := by
    apply le_of_head (fun x => s.distance (.caller x)) (List.pairwise_append.mp hp.sorted).2.1
    intro x hx
    rw [← hdist₁, ← hdist₁]
    exact hpost x hx
  refine ⟨pre, post, s', rfl, fun fuel hf => ?_, ⟨hlinked, ?_, ?_⟩, ?_, ?_, ?_, hin.tick, fun x => ?_⟩
  · rw [ckTimerSet, if_neg hqueue]
    exact congrArg (Option.map fun s => (true, s)) (hloop fuel hf)
  · rw [hin.next (.node .sentinal) (fun _ _ h => by cases h) fun h => by cases h]
    exact hp.sentinal
  · simp only [hdist]
    exact pairwise_insert hp.sorted (fun x hx => (hbefore x hx).le) hafter
  · simpa only [hdist] using hbefore
  · simpa only [hdist] using hafter
  · show sub32 (s'.timeOuts .sentinal).timeout s'.tickCountLow = _
    rw [hin.timeOuts, hin.tick]
    exact hlast
  · rw [hin.timeOuts]
    exact hcaller x

/-! ## the next tick -/

theorem distance_tick (s : TimerStruct T Q) (htick : s.tickCountLow < 2^32) (n : TimeOutId T) (hn : 0 < s.distance n) :
    s.tick.distance n = s.distance n - 1 := by
  show sub32 (s.timeOuts n).timeout (u32 (s.tickCountLow + 1)) = sub32 (s.timeOuts n).timeout s.tickCountLow - 1
  change 0 < sub32 (s.timeOuts n).timeout s.tickCountLow at hn
  unfold sub32 u32 at *
  omega

/-- The list stays sorted when the tick count goes on, as long as no `TimeOut` on it is due already. -/
theorem Pending.tick {s : TimerStruct T Q} {ts : List T} (hp : Pending s ts) (htick : s.tickCountLow < 2^32)
    (hpos : ∀ x ∈ ts, 0 < s.distance (.caller x)) : Pending s.tick ts where
  linked := hp.linked
  sentinal := hp.sentinal
  sorted := by
    refine List.Pairwise.imp_of_mem (fun {x y} hx hy hxy => ?_) hp.sorted
    rw [distance_tick s htick _ (hpos x hx), distance_tick s htick _ (hpos y hy)]
    exact Nat.sub_le_sub_right hxy 1

/-- **Sorted insertion modulo `2^32`**: `ckTimerSet` comes back with the new `TimeOut` at its place, and a tick keeps the list
sorted while no distance wraps. -/
theorem timerSet_sorted {s : TimerStruct T Q} {ts : List T} (htick : s.tickCountLow < 2^32) (hp : Pending s ts) :
    (∀ t ∉ ts, (s.timeOuts (.caller t)).noticeQueue ≠ none → ∃ pre post s', ts = pre ++ post ∧
      (∀ fuel, ts.length < fuel → ckTimerSet fuel s t = some (true, s')) ∧ Inserted s pre t post s') ∧
    ((∀ x ∈ ts, 0 < s.distance (.caller x)) → Pending s.tick ts) :=
  ⟨fun _ hnew hqueue => timerSet_inserts htick hp hnew hqueue, hp.tick htick⟩

/-- one `TimeOut` is pending, and the tick count is about to wrap -/
def aboutToWrap : TimerStruct Nat Unit :=
  { (TimerStruct.zero : TimerStruct Nat Unit) with
    tickCountLow := 0xfffffff0
    pTimeOutHead := .node (.caller 0)
    timeOuts
      | .caller 0 => ⟨3, some ()⟩
      | _ => ⟨0xfffffff8, some ()⟩
    notice := (TimerStruct.zero : TimerStruct Nat Unit).notice.setNext (.node (.caller 0)) (.node .sentinal) }

theorem aboutToWrap_pending : Pending aboutToWrap [0] :=
  ⟨⟨rfl, rfl⟩, rfl, List.pairwise_singleton _ _⟩

theorem timerSet_sorted_wrap : (∃ pre post s', [0] = pre ++ post ∧
    (∀ fuel, 1 < fuel → ckTimerSet fuel aboutToWrap 1 = some (true, s')) ∧ Inserted aboutToWrap pre 1 post s') ∧
    Pending aboutToWrap.tick [0] := by
  have h := timerSet_sorted (by decide : aboutToWrap.tickCountLow < 2^32) aboutToWrap_pending
  exact ⟨h.1 1 (by decide) nofun, h.2 (by decide)⟩

end Clubcos
