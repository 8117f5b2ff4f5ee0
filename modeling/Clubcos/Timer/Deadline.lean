import Clubcos.Timer.Run

/-!
# One timeout and the others

The handler looks at the first `TimeOut` of the list only, so one that is sorted to the front and is not due keeps all the
others from their queues.

* `TimerOp.Spaced`      the calls that are made: a `TimeOut` is set to any deadline that no pending one has;
* `TimerOp.Passing`     it is not set to the current tick, and the notice queues do not get in the way;
* `Unblocked`           each pending `TimeOut` is the first one of the list when its tick comes;
* `timer_unblocked`     **no timeout blocks another** in a run whose calls are all passing;
* `set_now_blocks`      a `TimeOut` for the current tick stays in front of the others until the tick count has come round.
-/

set_option linter.unusedVariables false
set_option linter.unusedSectionVars false

namespace Clubcos
open Word Ring

variable {T Q : Type} [DecidableEq T] [DecidableEq Q]

/-- no two pending timeouts have one deadline -/
def Timeouts.Distinct (i : Timeouts T Q) : Prop :=
  ∀ t ∈ i.pending, ∀ t' ∈ i.pending, (i.timeOuts t).timeout = (i.timeOuts t').timeout → t = t'

/-- A `TimeOut` is set while it is not pending, to a deadline that may lie ahead, be the current tick or be past. -/
def TimerOp.Spaced (i : Timeouts T Q) : TimerOp T Q → Prop
  | .set t timeout _ => t ∉ i.pending ∧ timeout < 2^32 ∧ ∀ x ∈ i.pending, (i.timeOuts x).timeout ≠ timeout
  | _ => True

/-- A `TimeOut` is not set to the current tick, nor while it lies in a queue, and a queue that is pushed on does not grow to
the size of the new tick. -/
def TimerOp.Passing (i : Timeouts T Q) : TimerOp T Q → Prop
  | .set t timeout noticeQueue => noticeQueue ≠ none → timeout ≠ i.tick ∧ ∀ q, t ∉ i.queue q
  | .interrupt => ∀ t ∈ i.pending, i.Due t → ∀ q, (i.timeOuts t).noticeQueue = some q →
      u32 ((i.queue q).length + 1) ≠ u32 (i.tick + 1)
  | .pop _ => True

/-- the timer is where it should be, and a `TimeOut` that is due at the next tick is the first one -/
structure Unblocked (s : TimerStruct T Q) (i : Timeouts T Q) : Prop where
  delivered : Delivered s i
  first : ∀ t ∈ i.pending, i.Due t → s.pTimeOutHead = .node (.caller t)

/-! ## deadlines -/

theorem left_pos {a b : Nat} (ha : a < 2^32) (hb : b < 2^32) : 0 < sub32 a b ↔ a ≠ b := by
  unfold sub32
  omega

theorem Timeouts.start_distinct : (Timeouts.start : Timeouts T Q).Distinct := fun _ ht => absurd ht List.not_mem_nil

/-- deadlines stay different from each other -/
theorem Timeouts.Distinct.step {i : Timeouts T Q} (hd : i.Distinct) {op : TimerOp T Q} (ho : op.Spaced i) :
    (i.step op).Distinct := by
  cases op with
  | interrupt => exact fun t ht t' ht' => hd t (List.mem_filter.mp ht).1 t' (List.mem_filter.mp ht').1
  | pop q => exact hd
  | set t timeout noticeQueue =>
    obtain ⟨hnew, _, hother⟩ := ho
    have hset := Function.update_self t (⟨timeout, noticeQueue⟩ : TimeOut Q) i.timeOuts
    have hkeep : ∀ x ∈ i.pending, (i.step (.set t timeout noticeQueue)).timeOuts x = i.timeOuts x := fun x hx =>
      Function.update_of_ne (fun e : x = t => hnew (e ▸ hx)) _ _
    have hold : ∀ x ∈ i.pending, ∀ y ∈ i.pending, ((i.step (.set t timeout noticeQueue)).timeOuts x).timeout =
        ((i.step (.set t timeout noticeQueue)).timeOuts y).timeout → x = y := by
      intro x hx y hy e
      rw [hkeep x hx, hkeep y hy] at e
      exact hd x hx y hy e
    intro x hx y hy e
    change x ∈ (if noticeQueue = none then i.pending else t :: i.pending) at hx
    change y ∈ (if noticeQueue = none then i.pending else t :: i.pending) at hy
    by_cases hnone : noticeQueue = none
    · rw [if_pos hnone] at hx hy
      exact hold x hx y hy e
    · rw [if_neg hnone] at hx hy
      rcases List.mem_cons.mp hx with ex | hx' <;> rcases List.mem_cons.mp hy with ey | hy'
      · exact ex.trans ey.symm
      · rw [ex, hkeep y hy'] at e
        exact absurd (e.symm.trans (congrArg TimeOut.timeout hset)) (hother y hy')
      · rw [ey, hkeep x hx'] at e
        exact absurd (e.trans (congrArg TimeOut.timeout hset)) (hother x hx')
      · exact hold x hx' y hy' e

/-- with different deadlines at most one is due -/
theorem Timeouts.Distinct.oneDue {i : Timeouts T Q} (hd : i.Distinct) (hc : (TimerOp.interrupt : TimerOp T Q).Passing i) :
    i.OneDue := ⟨fun t ht t' ht' h h' => hd t ht t' ht' (h.trans h'.symm), hc⟩

section
variable {s : TimerStruct T Q} {i : Timeouts T Q} {ts : List T} (hi : TimerInv s i ts)
include hi

/-- the list is sorted, so the one that is due is the first -/
theorem TimerInv.first (hd : i.Distinct) {t : T} (ht : t ∈ i.pending) (hdue : i.Due t) :
    s.pTimeOutHead = .node (.caller t) := by
  have hmem : t ∈ ts := hi.perm.mem_iff.mpr ht
  have hleft : ∀ x ∈ ts, i.Due x ↔ i.left x = 1 := fun x hx => (left_succ (hi.ahead x hx).1 hi.tick.2).1
  cases ts with
  | nil => exact absurd hmem List.not_mem_nil
  | cons x xs =>
    have hle : i.left x ≤ i.left t := by
      rcases List.mem_cons.mp hmem with rfl | hmem
      · exact Nat.le_refl _
      · exact (List.pairwise_cons.mp hi.sorted).1 t hmem
    have hone := (hleft t hmem).mp hdue
    have hpos := (hi.ahead x List.mem_cons_self).2
    have hdue' : i.Due x := (hleft x List.mem_cons_self).mpr (by omega)
    have e : x = t := hd x (hi.perm.mem_iff.mp List.mem_cons_self) t ht (hdue'.trans hdue.symm)
    exact e ▸ hi.linked.1

theorem TimerInv.passing_step (hd : i.Distinct) {op : TimerOp T Q} (ho : op.Spaced i) (hp : op.Passing i) :
    ∃ s' ts', Returns s op s' ∧ TimerInv s' (i.step op) ts' := by
  cases op with
  | set t timeout noticeQueue =>
    exact hi.set ho.1 ho.2.1 (fun hn => (left_pos ho.2.1 hi.tick.2).mpr (hp hn).1) fun hn => (hp hn).2
  | interrupt => exact hi.interrupt (hd.oneDue hp)
  | pop q =>
    obtain ⟨s', hret, hi'⟩ := hi.pop q
    exact ⟨s', ts, hret, hi'⟩

end

def TimerOp.Orderly (i : Timeouts T Q) (op : TimerOp T Q) : Prop := op.Spaced i ∧ op.Passing i

theorem TimerRun.passing_inv {s : TimerStruct T Q} {i : Timeouts T Q} (h : TimerRun TimerOp.Orderly s i) :
    i.Distinct ∧ ∃ ts, TimerInv s i ts := by
  induction h with
  | boot => exact ⟨Timeouts.start_distinct, [], boot_timer⟩
  | call _ ho hret ih =>
    obtain ⟨hd, ts, hi⟩ := ih
    obtain ⟨s₁, ts₁, hret₁, hi₁⟩ := hi.passing_step hd ho.1 ho.2
    exact ⟨hd.step ho.1, ts₁, hret₁.unique hret ▸ hi₁⟩

/-- **No timeout blocks another**: in every run whose calls are all passing, a pending timeout is the first one when its
tick comes, and the interrupt of that tick puts it in its queue; and every such call comes back. -/
theorem timer_unblocked {s : TimerStruct T Q} {i : Timeouts T Q} (h : TimerRun TimerOp.Orderly s i) :
    Unblocked s i ∧ ∀ op : TimerOp T Q, op.Orderly i → ∃ s', Returns s op s' := by
  obtain ⟨hd, ts, hi⟩ := h.passing_inv
  refine ⟨⟨hi.delivered, fun t => hi.first hd⟩, fun op ho => ?_⟩
  obtain ⟨s', _, hret, _⟩ := hi.passing_step hd ho.1 ho.2
  exact ⟨s', hret⟩

/-! ## the current tick as a deadline -/

/-- `n` interrupts in a row -/
def Interrupts : (n : Nat) → (s s' : TimerStruct T Q) → Prop
  | 0, s, s' => s' = s
  | n+1, s, s' => ∃ s₁, Interrupts n s s₁ ∧ Returns s₁ .interrupt s'

/-- a first `TimeOut` whose tick has just been keeps its place through a whole round of the tick count -/
theorem interrupts_blocked {s : TimerStruct T Q} {t : T} (hhead : s.pTimeOutHead = .node (.caller t))
    (htick : s.tickCountLow < 2^32) (ht : (s.timeOuts (.caller t)).timeout = s.tickCountLow) (n : Nat) (hn : n < 2^32) :
    ∃ high, Interrupts n s { s with tickCountLow := u32 (s.tickCountLow + n), tickCountHigh := high } := by
  induction n with
  | zero =>
    refine ⟨s.tickCountHigh, ?_⟩
    rw [Nat.add_zero, u32_of_lt htick]
    exact rfl
  | succ n ih =>
    obtain ⟨high, h⟩ := ih (Nat.lt_of_succ_lt hn)
    have hlow : u32 (u32 (s.tickCountLow + n) + 1) = u32 (s.tickCountLow + (n + 1)) := u32_succ _
    have hne : s.tickCountLow ≠ u32 (s.tickCountLow + (n + 1)) := by
      unfold u32
      omega
    refine ⟨if u32 (u32 (s.tickCountLow + n) + 1) = 0 then u32 (high + 1) else high, _, h, 1, fun fuel hf => ?_⟩
    obtain ⟨fuel, rfl⟩ := Nat.exists_eq_add_of_le' hf
    show timeOutLoop (u32 (u32 (s.tickCountLow + n) + 1)) (fuel + 1) s.pTimeOutHead _ = _
    rw [hlow, hhead]
    refine timeOutLoop_stop ?_ hne fuel
    exact congrArg some ht

/-- **A timeout for the current tick** becomes the first one, and nothing is taken from the list or put in a queue in the
next `2^32 - 1` interrupts. -/
theorem set_now_blocks {s : TimerStruct T Q} {i : Timeouts T Q} {ts : List T} (hi : TimerInv s i ts) (t : T) (q : Q) :
    ∃ s₁, Returns s (.set t i.tick (some q)) s₁ ∧ s₁.pTimeOutHead = .node (.caller t) ∧
      ∀ n < 2^32, ∃ low high, Interrupts n s₁ { s₁ with tickCountLow := low, tickCountHigh := high } := by
  let s₀ := (s.setTimeOut (.caller t) ⟨i.tick, some q⟩).setSentinal (u32 (s.tickCountLow + 0xffffffff))
  have hself : s₀.timeOuts (.caller t) = ⟨i.tick, some q⟩ := by
    have hne := setTimeOut_ne (s.setTimeOut (.caller t) ⟨i.tick, some q⟩) (show TimeOutId.caller t ≠ .sentinal from nofun)
    exact (hne _).trans (setTimeOut_self s (.caller t) _)
  have hzero : sub32 (s₀.timeOuts (.caller t)).timeout s.tickCountLow = 0 := by
    rw [hself, hi.tick.1, sub32_of_le (Nat.le_refl _) hi.tick.2, Nat.sub_self]
  obtain ⟨timeout, hat⟩ : ∃ timeout, s₀.timeoutAt s₀.pTimeOutHead = some timeout := by
    show ∃ timeout, s₀.timeoutAt s.pTimeOutHead = some timeout
    have hlinked := hi.linked
    cases ts with
    | nil =>
      rw [show s.pTimeOutHead = .node .sentinal from hlinked]
      exact ⟨_, rfl⟩
    | cons x xs =>
      rw [hlinked.1]
      exact ⟨_, rfl⟩
  have hret : Returns s (.set t i.tick (some q)) (linkedIn s₀ none t) := by
    refine ⟨1, fun fuel hf => ?_⟩
    obtain ⟨fuel, rfl⟩ := Nat.exists_eq_add_of_le' hf
    have hloop : timerSetLoop t s.tickCountLow (fuel + 1) none s₀.pTimeOutHead s₀ = some (linkedIn s₀ none t) := by
      rw [timerSetLoop, hat]
      simp only []
      rw [if_pos (hzero ▸ Nat.zero_le _)]
      rfl
    show (ckTimerSet (fuel + 1) _ t).map Prod.snd = _
    rw [ckTimerSet, setTimeOut_self, if_neg (fun h => by cases h)]
    exact congrArg (fun r => (r.map fun s => (true, s)).map Prod.snd) hloop
  refine ⟨_, hret, rfl, fun n hn => ?_⟩
  have hlow : (linkedIn s₀ none t).tickCountLow < 2^32 := hi.tick.1 ▸ hi.tick.2
  have ht : ((linkedIn s₀ none t).timeOuts (.caller t)).timeout = (linkedIn s₀ none t).tickCountLow := by
    show (s₀.timeOuts (.caller t)).timeout = s.tickCountLow
    rw [hself, hi.tick.1]
  obtain ⟨high, h⟩ := interrupts_blocked rfl hlow ht n hn
  exact ⟨_, high, h⟩

/-! ## runs written out -/

instance TimerOp.decidableSpaced (i : Timeouts T Q) : (op : TimerOp T Q) → Decidable (op.Spaced i)
  | .set _ _ _ => inferInstanceAs (Decidable (_ ∧ _ ∧ _))
  | .interrupt => inferInstanceAs (Decidable True)
  | .pop _ => inferInstanceAs (Decidable True)

instance TimerOp.decidablePassing [Fintype Q] (i : Timeouts T Q) : (op : TimerOp T Q) → Decidable (op.Passing i)
  | .set _ _ _ => inferInstanceAs (Decidable (_ → _ ∧ _))
  | .interrupt => inferInstanceAs (Decidable (∀ t ∈ _, _ → ∀ q, _ → _))
  | .pop _ => inferInstanceAs (Decidable True)

instance TimerOp.decidableOrderly [Fintype Q] (i : Timeouts T Q) (op : TimerOp T Q) : Decidable (op.Orderly i) :=
  inferInstanceAs (Decidable (_ ∧ _))

/-- a timeout is pending, and another one is set whose deadline is past -/
def pastDeadline : List (TimerOp Nat Unit) :=
  [.interrupt, .interrupt, .set 0 5 (some ()), .set 1 1 (some ()), .interrupt, .interrupt]

theorem pastDeadline_some : (timerAll TimerOp.Orderly pastDeadline (ckTimerInitialize .zero) .start).isSome := by
  decide +kernel

def pastDeadlineState : TimerStruct Nat Unit × Timeouts Nat Unit :=
  (timerAll TimerOp.Orderly pastDeadline (ckTimerInitialize .zero) .start).get pastDeadline_some

theorem timer_unblocked_past : pastDeadlineState.1.pTimeOutHead = .node (.caller 0) := by
  have hrun : TimerRun TimerOp.Orderly pastDeadlineState.1 pastDeadlineState.2 :=
    timerAll_run .boot (Option.some_get pastDeadline_some).symm
  exact (timer_unblocked hrun).1.first 0 (by decide +kernel) (by decide +kernel)

/-- a timeout is pending, and another one is set to the current tick -/
def presentDeadline : List (TimerOp Nat Unit) :=
  [.interrupt, .interrupt, .set 0 5 (some ()), .set 1 2 (some ()), .interrupt, .interrupt]

theorem presentDeadline_some : (timerAll TimerOp.Spaced presentDeadline (ckTimerInitialize .zero) .start).isSome := by
  decide +kernel

def presentDeadlineState : TimerStruct Nat Unit × Timeouts Nat Unit :=
  (timerAll TimerOp.Spaced presentDeadline (ckTimerInitialize .zero) .start).get presentDeadline_some

/-- **A timeout for the current tick is in the way**: the one that is due at the next tick is not the first of the list,
and no queue gets it. -/
theorem present_blocks : TimerRun TimerOp.Spaced presentDeadlineState.1 presentDeadlineState.2 ∧
    0 ∈ presentDeadlineState.2.pending ∧ presentDeadlineState.2.Due 0 ∧
    ¬ Unblocked presentDeadlineState.1 presentDeadlineState.2 ∧
    ∃ s', Returns presentDeadlineState.1 .interrupt s' ∧ s'.notice.size () = 0 := by
  have hpending : 0 ∈ presentDeadlineState.2.pending ∧ presentDeadlineState.2.Due 0 := by decide +kernel
  have hnext : (presentDeadlineState.1.exec 8 .interrupt).map (fun s' => s'.notice.size ()) = some 0 := by decide +kernel
  obtain ⟨s', hs', hsize⟩ := Option.map_eq_some_iff.mp hnext
  refine ⟨timerAll_run .boot (Option.some_get presentDeadline_some).symm, hpending.1, hpending.2, fun h => ?_, s',
    returns_of_exec hs', hsize⟩
  have hne : presentDeadlineState.1.pTimeOutHead ≠ .node (.caller 0) := by decide +kernel
  exact hne (h.first 0 hpending.1 hpending.2)

end Clubcos
