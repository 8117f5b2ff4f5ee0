import Mathlib.Data.List.Induction
import Mathlib.Logic.Function.Iterate

/-!
# Queues by level with a bounded number of turns

A dispatcher keeps one queue per level, in a fixed order of the levels, and counts the turns that it
has given to each level.  It looks at the levels in order: a level whose count is below the length of
its queue gets the turn, the others have their count reset on the way down; when no level got the
turn the levels are looked at once more.  The head of the queue of the level with the turn comes off,
and the item that ran before goes to the back of the queue of its own level.

* `step_cases`      what one step does;
* `eventually_reach`  every level is looked at again and again;
* `eventually_now`  **no item starves**: every item in a queue gets its turn.
-/

set_option linter.unusedVariables false
set_option linter.unusedSectionVars false

namespace Fair

/-- the queues, the turns given and the item whose turn it is -/
structure State (P T : Type*) where
  queue : P → List T
  count : P → Nat
  now : T

section
variable {P T : Type*} [DecidableEq P]

/-- one look at the levels in order: the level that gets the turn and the counts after it -/
def scan (queue : P → List T) : List P → (P → Nat) → Option P × (P → Nat)
  | [], count => (none, count)
  | p :: ps, count =>
    if count p < (queue p).length then (some p, Function.update count p (count p + 1))
    else scan queue ps (Function.update count p 0)

def pick (levels : List P) (s : State P T) : Option P × (P → Nat) :=
  match scan s.queue levels s.count with
  | (some p, count) => (some p, count)
  | (none, count) => scan s.queue levels count

theorem pick_some {levels : List P} {s : State P T} {p : P} {count : P → Nat}
    (h : scan s.queue levels s.count = (some p, count)) : pick levels s = (some p, count) := by
  unfold pick
  rw [h]

theorem pick_none {levels : List P} {s : State P T} {count : P → Nat}
    (h : scan s.queue levels s.count = (none, count)) : pick levels s = scan s.queue levels count := by
  unfold pick
  rw [h]

/-- the queues after `t` has gone to the back of the queue of the level `p` -/
def requeue (queue : P → List T) (p : P) (t : T) : P → List T :=
  Function.update queue p (queue p ++ [t])

def step (levels : List P) (level : T → P) (s : State P T) : State P T :=
  match pick levels s with
  | (none, count) => { s with count := count }
  | (some p, count) =>
    match s.queue p with
    | [] => { s with count := count }
    | t :: ts => ⟨requeue (Function.update s.queue p ts) (level s.now) s.now, count, t⟩

/-! ## one look at the levels -/

/-- the counts after the levels `ps` have been passed over -/
def reset (ps : List P) (count : P → Nat) : P → Nat := fun p => if p ∈ ps then 0 else count p

theorem reset_update (ps : List P) (p : P) (count : P → Nat) :
    reset ps (Function.update count p 0) = reset (p :: ps) count := by
  funext r
  show (if r ∈ ps then 0 else Function.update count p 0 r) = if r ∈ p :: ps then 0 else count r
  by_cases hr : r ∈ ps
  · rw [if_pos hr, if_pos (List.mem_cons_of_mem p hr)]
  · by_cases e : r = p
    · rw [if_neg hr, e, Function.update_self, if_pos List.mem_cons_self]
    · have hr' : r ∉ p :: ps := fun h => (List.mem_cons.mp h).elim e hr
      rw [if_neg hr, Function.update_of_ne e, if_neg hr']

theorem reset_nil (count : P → Nat) : reset [] count = count :=
  funext fun _ => if_neg List.not_mem_nil

theorem reset_of_mem {ps : List P} {p : P} (count : P → Nat) (h : p ∈ ps) : reset ps count p = 0 :=
  if_pos h

theorem reset_of_notMem {ps : List P} {p : P} (count : P → Nat) (h : p ∉ ps) :
    reset ps count p = count p := if_neg h

/-- a look finds the first level with turns left, if there is one, and resets those before it -/
theorem scan_spec (queue : P → List T) (levels : List P) : ∀ count : P → Nat, levels.Nodup →
    ((∀ p ∈ levels, (queue p).length ≤ count p) ∧
        scan queue levels count = (none, reset levels count)) ∨
      ∃ pre p post, levels = pre ++ p :: post ∧ (∀ r ∈ pre, (queue r).length ≤ count r) ∧
        count p < (queue p).length ∧
        scan queue levels count = (some p, Function.update (reset pre count) p (count p + 1)) := by
  induction levels with
  | nil => exact fun count _ => Or.inl ⟨fun p hp => absurd hp List.not_mem_nil, by rw [reset_nil]; rfl⟩
  | cons q qs ih =>
    intro count hnd
    obtain ⟨hq, hqs⟩ := List.nodup_cons.mp hnd
    by_cases h : count q < (queue q).length
    · refine Or.inr ⟨[], q, qs, rfl, fun r hr => absurd hr List.not_mem_nil, h, ?_⟩
      rw [reset_nil]
      exact if_pos h
    · have e : scan queue (q :: qs) count = scan queue qs (Function.update count q 0) := if_neg h
      have hother : ∀ r ∈ qs, Function.update count q 0 r = count r := by
        intro r hr
        exact Function.update_of_ne (fun e : r = q => hq (e ▸ hr)) _ _
      rw [e]
      rcases ih (Function.update count q 0) hqs with ⟨h1, h2⟩ | ⟨pre, p, post, h0, h1, h2, h3⟩
      · refine Or.inl ⟨fun p hp => ?_, by rw [h2, reset_update]⟩
        rcases List.mem_cons.mp hp with rfl | hp
        · omega
        · rw [← hother p hp]
          exact h1 p hp
      · have hpq : p ∈ qs := h0 ▸ List.mem_append_right _ List.mem_cons_self
        refine Or.inr ⟨q :: pre, p, post, by rw [h0]; rfl, fun r hr => ?_, ?_, ?_⟩
        · rcases List.mem_cons.mp hr with rfl | hr
          · omega
          · rw [← hother r (h0 ▸ List.mem_append_left _ hr)]
            exact h1 r hr
        · rw [← hother p hpq]
          exact h2
        · rw [h3, reset_update, hother p hpq]

/-! ## one step -/

variable {levels : List P} {level : T → P}

/-- the state after the level `p` got the turn -/
def turn (level : T → P) (s : State P T) (p : P) (t : T) (ts : List T) (count : P → Nat) : State P T :=
  ⟨requeue (Function.update s.queue p ts) (level s.now) s.now, count, t⟩

theorem step_some {s : State P T} {p : P} {t : T} {ts : List T} {count : P → Nat}
    (h : pick levels s = (some p, count)) (hq : s.queue p = t :: ts) :
    step levels level s = turn level s p t ts count := by
  unfold step
  rw [h]
  simp only [hq]
  rfl

theorem step_none {s : State P T} {count : P → Nat} (h : pick levels s = (none, count)) :
    step levels level s = { s with count := count } := by
  unfold step
  rw [h]

variable (level) in
/-- **What one step does**: a level with turns left gets the turn, or all counts are reset and the first
nonempty level gets it, or all queues are empty. -/
theorem step_cases (hnd : levels.Nodup) (s : State P T) :
    (∃ pre p post t ts, levels = pre ++ p :: post ∧ (∀ r ∈ pre, (s.queue r).length ≤ s.count r) ∧
        s.count p < (s.queue p).length ∧ s.queue p = t :: ts ∧ step levels level s
          = turn level s p t ts (Function.update (reset pre s.count) p (s.count p + 1))) ∨
    ((∀ r ∈ levels, (s.queue r).length ≤ s.count r) ∧ ∃ p t ts, p ∈ levels ∧ s.queue p = t :: ts ∧
        step levels level s = turn level s p t ts (Function.update (reset levels s.count) p 1)) ∨
    ((∀ r ∈ levels, s.queue r = []) ∧
        step levels level s = { s with count := reset levels s.count }) := by
  have hhead : ∀ {p c}, c < (s.queue p).length → ∃ t ts, s.queue p = t :: ts := by
    intro p c h
    cases hq : s.queue p with
    | nil =>
      rw [hq] at h
      exact absurd h (Nat.not_lt_zero c)
    | cons t ts => exact ⟨t, ts, rfl⟩
  rcases scan_spec s.queue levels s.count hnd with ⟨h1, h2⟩ | ⟨pre, p, post, h0, h1, h2, h3⟩
  · have hpick : pick levels s = scan s.queue levels (reset levels s.count) := pick_none h2
    have hzero : ∀ r ∈ levels, reset levels s.count r = 0 := fun r hr => reset_of_mem _ hr
    rcases scan_spec s.queue levels (reset levels s.count) hnd with ⟨h4, h5⟩ | ⟨pre, p, post, h0, _, h5, h6⟩
    · right; right
      have hempty : ∀ r ∈ levels, s.queue r = [] := by
        intro r hr
        have h6 := h4 r hr
        rw [hzero r hr] at h6
        exact List.length_eq_zero_iff.mp (by omega)
      refine ⟨hempty, ?_⟩
      have hrr : reset levels (reset levels s.count) = reset levels s.count := by
        funext r
        by_cases hr : r ∈ levels
        · rw [reset_of_mem _ hr, reset_of_mem _ hr]
        · rw [reset_of_notMem _ hr]
      rw [step_none (hpick.trans h5), hrr]
    · right; left
      have hp : p ∈ levels := h0 ▸ List.mem_append_right _ List.mem_cons_self
      obtain ⟨t, ts, hq⟩ := hhead h5
      refine ⟨h1, p, t, ts, hp, hq, ?_⟩
      have hrr : reset pre (reset levels s.count) = reset levels s.count := by
        funext r
        by_cases hr : r ∈ pre
        · rw [reset_of_mem _ hr, hzero r (h0 ▸ List.mem_append_left _ hr)]
        · rw [reset_of_notMem _ hr]
      rw [hrr, hzero p hp] at h6
      exact step_some (hpick.trans h6) hq
  · left
    have hpick : pick levels s = (some p, Function.update (reset pre s.count) p (s.count p + 1)) :=
      pick_some h3
    obtain ⟨t, ts, hq⟩ := hhead h2
    exact ⟨pre, p, post, t, ts, h0, h1, h2, hq, step_some hpick hq⟩

/-- no level gets the turn only if all queues are empty -/
theorem pick_none_empty (hnd : levels.Nodup) {s : State P T} {count : P → Nat}
    (h : pick levels s = (none, count)) : ∀ r ∈ levels, s.queue r = [] := by
  rcases scan_spec s.queue levels s.count hnd with ⟨_, h2⟩ | ⟨_, p, _, _, _, _, h3⟩
  · rw [pick_none h2] at h
    rcases scan_spec s.queue levels (reset levels s.count) hnd with ⟨h4, _⟩ | ⟨_, p, _, _, _, _, h6⟩
    · intro r hr
      have h5 := h4 r hr
      rw [reset_of_mem _ hr] at h5
      exact List.length_eq_zero_iff.mp (by omega)
    · rw [h6] at h
      cases h
  · rw [pick_some h3] at h
    cases h

/-! ## what a step keeps -/

/-- every item waits at its own level -/
def Consistent (level : T → P) (s : State P T) : Prop := ∀ p, ∀ t ∈ s.queue p, level t = p

/-- the number of items of the level `p`, waiting or with the turn -/
def total (level : T → P) (s : State P T) (p : P) : Nat :=
  (s.queue p).length + if level s.now = p then 1 else 0

theorem turn_queue (s : State P T) (p : P) (t : T) (ts : List T) (count : P → Nat) (l : P) :
    (turn level s p t ts count).queue l
      = (if l = p then ts else s.queue l) ++ if level s.now = l then [s.now] else [] := by
  show Function.update (Function.update s.queue p ts) (level s.now) _ l = _
  have h : Function.update s.queue p ts l = if l = p then ts else s.queue l := by
    by_cases e : l = p
    · rw [if_pos e, e, Function.update_self]
    · rw [if_neg e, Function.update_of_ne e]
  by_cases e : l = level s.now
  · rw [← e, Function.update_self, if_pos rfl, h]
  · have e' : ¬ level s.now = l := fun h => e h.symm
    rw [Function.update_of_ne e, h, if_neg e', List.append_nil]

theorem turn_keeps {s : State P T} {p : P} {t : T} {ts : List T} {count : P → Nat}
    (hc : Consistent level s) (hq : s.queue p = t :: ts) :
    Consistent level (turn level s p t ts count) ∧
      ∀ l, total level (turn level s p t ts count) l = total level s l := by
  have ht : level t = p := hc p t (hq ▸ List.mem_cons_self)
  constructor
  · intro l r hr
    rw [turn_queue] at hr
    rcases List.mem_append.mp hr with hr | hr
    · by_cases e : l = p
      · rw [if_pos e] at hr
        rw [e]
        exact hc p r (hq ▸ List.mem_cons_of_mem _ hr)
      · rw [if_neg e] at hr
        exact hc l r hr
    · by_cases e : level s.now = l
      · rw [if_pos e] at hr
        rw [List.mem_singleton.mp hr]
        exact e
      · rw [if_neg e] at hr
        exact absurd hr List.not_mem_nil
  · intro l
    have hlen : (if level s.now = l then [s.now] else []).length = if level s.now = l then 1 else 0 := by
      by_cases e : level s.now = l
      · rw [if_pos e, if_pos e]
        rfl
      · rw [if_neg e, if_neg e]
        rfl
    show ((turn level s p t ts count).queue l).length + (if level t = l then 1 else 0) = total level s l
    rw [turn_queue, List.length_append, hlen, ht, total]
    by_cases e : l = p
    · rw [if_pos e, if_pos e.symm, e, hq, List.length_cons]
      omega
    · have e' : ¬ p = l := fun h => e h.symm
      rw [if_neg e, if_neg e']
      omega

theorem step_keeps (hnd : levels.Nodup) {s : State P T} (hc : Consistent level s) :
    Consistent level (step levels level s) ∧ ∀ l, total level (step levels level s) l = total level s l := by
  rcases step_cases level hnd s with ⟨pre, p, post, t, ts, _, _, _, hq, e⟩ | ⟨_, p, t, ts, _, hq, e⟩ | ⟨_, e⟩
  · rw [e]
    exact turn_keeps hc hq
  · rw [e]
    exact turn_keeps hc hq
  · rw [e]
    exact ⟨hc, fun l => rfl⟩

/-! ## reaching a level -/

/-- the levels `pre` are passed over by the next look -/
def Reach (pre : List P) (s : State P T) : Prop := ∀ r ∈ pre, (s.queue r).length ≤ s.count r

/-- the head of the queue of the level `l` gets the next turn -/
def Turn (levels : List P) (level : T → P) (l : P) (s : State P T) : Prop :=
  ∃ t ts, s.queue l = t :: ts ∧ (step levels level s).now = t ∧
    (∃ suf, (step levels level s).queue l = ts ++ suf) ∧
    (s.count l < (s.queue l).length → (step levels level s).count l = s.count l + 1)

theorem turn_turn {s : State P T} {p : P} {t : T} {ts : List T} {count : P → Nat}
    (hq : s.queue p = t :: ts) (e : step levels level s = turn level s p t ts count)
    (hcount : s.count p < (s.queue p).length → count p = s.count p + 1) : Turn levels level p s := by
  refine ⟨t, ts, hq, by rw [e]; rfl, ?_, fun h => by rw [e]; exact hcount h⟩
  rw [e, turn_queue, if_pos rfl]
  exact ⟨_, rfl⟩

variable (level) in
/-- a level that does not get the turn keeps its queue, at the front -/
theorem turn_or_keep (hnd : levels.Nodup) (s : State P T) (l : P) :
    Turn levels level l s ∨ ∃ suf, (step levels level s).queue l = s.queue l ++ suf := by
  rcases step_cases level hnd s with ⟨pre, p, post, t, ts, _, _, _, hq, e⟩ | ⟨hall, p, t, ts, hp, hq, e⟩ | ⟨_, e⟩
  · by_cases hl : l = p
    · subst hl
      exact Or.inl (turn_turn hq e fun _ => Function.update_self _ _ _)
    · right
      rw [e, turn_queue, if_neg hl]
      exact ⟨_, rfl⟩
  · by_cases hl : l = p
    · subst hl
      refine Or.inl (turn_turn hq e fun h => ?_)
      have := hall l hp
      omega
    · right
      rw [e, turn_queue, if_neg hl]
      exact ⟨_, rfl⟩
  · right
    rw [e]
    exact ⟨[], (List.append_nil _).symm⟩

section
variable {pre post : List P} {l : P} (hlev : levels = pre ++ l :: post) (hnd : levels.Nodup)
include hlev hnd

theorem notMem_pre : l ∉ pre := by
  rw [hlev] at hnd
  exact fun h => (List.nodup_append.mp hnd).2.2 l h l List.mem_cons_self rfl

/-- a step that does not get down to a level leaves its count alone -/
theorem count_of_not_reach {s : State P T} (h : ¬ Reach pre s) :
    (step levels level s).count l = s.count l := by
  rcases step_cases level hnd s with ⟨pre', p, post', t, ts, h0, h1, _, _, e⟩ | ⟨hall, _⟩ | ⟨hall, _⟩
  · rcases List.append_eq_append_iff.mp (h0.symm.trans hlev) with ⟨a, ha, hb⟩ | ⟨c, hc, _⟩
    · cases a with
      | nil =>
        rw [List.append_nil] at ha
        exact absurd (ha ▸ h1) h
      | cons x a =>
        obtain rfl : p = x := (List.cons.inj hb).1
        have hlp : l ∉ pre' ++ p :: a := ha ▸ notMem_pre hlev hnd
        have h2 : l ≠ p := fun e => hlp (e ▸ List.mem_append_right _ List.mem_cons_self)
        have h3 : l ∉ pre' := fun hm => hlp (List.mem_append_left _ hm)
        rw [e]
        show Function.update (reset pre' s.count) p (s.count p + 1) l = _
        rw [Function.update_of_ne h2, reset_of_notMem _ h3]
    · exact absurd (fun r hr => h1 r (hc ▸ List.mem_append_left _ hr)) h
  · exact absurd (fun r hr => hall r (hlev ▸ List.mem_append_left _ hr)) h
  · refine absurd (fun r hr => ?_) h
    rw [hall r (hlev ▸ List.mem_append_left _ hr)]
    exact Nat.zero_le _

/-- a step that gets down to a level with a nonempty queue gives it the turn or resets its count -/
theorem turn_of_reach {s : State P T} (h : Reach pre s) (hne : s.queue l ≠ []) :
    Turn levels level l s ∨ ((s.queue l).length ≤ s.count l ∧ (step levels level s).count l = 0) := by
  have hl : l ∈ levels := hlev ▸ List.mem_append_right _ List.mem_cons_self
  rcases step_cases level hnd s with ⟨pre', p, post', t, ts, h0, h1, h2, hq, e⟩ | ⟨hall, p, t, ts, hp, hq, e⟩ | ⟨hall, _⟩
  · have hturn : l = p → Turn levels level l s := by
      rintro rfl
      exact turn_turn hq e fun _ => Function.update_self _ _ _
    rcases List.append_eq_append_iff.mp (h0.symm.trans hlev) with ⟨a, ha, hb⟩ | ⟨c, hc, hd⟩
    · cases a with
      | nil => exact Or.inl (hturn (List.cons.inj hb).1.symm)
      | cons x a =>
        obtain rfl : p = x := (List.cons.inj hb).1
        have h3 := h p (ha ▸ List.mem_append_right _ List.mem_cons_self)
        omega
    · cases c with
      | nil => exact Or.inl (hturn (List.cons.inj hd).1)
      | cons x c =>
        obtain rfl : l = x := (List.cons.inj hd).1
        have hm : l ∈ pre' := hc ▸ List.mem_append_right _ List.mem_cons_self
        have hlp : l ≠ p := by
          rintro rfl
          exact notMem_pre h0 hnd hm
        refine Or.inr ⟨h1 l hm, ?_⟩
        rw [e]
        show Function.update (reset pre' s.count) p (s.count p + 1) l = 0
        rw [Function.update_of_ne hlp, reset_of_mem _ hm]
  · by_cases hlp : l = p
    · subst hlp
      refine Or.inl (turn_turn hq e fun h3 => ?_)
      have := hall l hl
      omega
    · refine Or.inr ⟨hall l hl, ?_⟩
      rw [e]
      show Function.update (reset levels s.count) p 1 l = 0
      rw [Function.update_of_ne hlp, reset_of_mem _ hl]
  · exact absurd (hall l hl) hne

end

/-! ## sooner or later -/

/-- `Q` holds now or after some number of steps -/
inductive Ev (levels : List P) (level : T → P) (Q : State P T → Prop) : State P T → Prop
  | now {s} : Q s → Ev levels level Q s
  | later {s} : Ev levels level Q (step levels level s) → Ev levels level Q s

theorem Ev.iterate {Q : State P T → Prop} {s : State P T} (h : Ev levels level Q s) :
    ∃ k, Q ((step levels level)^[k] s) := by
  induction h with
  | now h => exact ⟨0, h⟩
  | later _ ih =>
    obtain ⟨k, hk⟩ := ih
    exact ⟨k + 1, hk⟩

/-- one level further down: each time the level is reached it is passed over or its count goes up, and
its count cannot exceed the number of its items -/
theorem ev_reach_snoc {pre post : List P} {m : P} (hlev : levels = pre ++ m :: post)
    (hnd : levels.Nodup)
    (hpre : ∀ s : State P T, Consistent level s → Ev levels level (Reach pre) s) (d : Nat) :
    ∀ s : State P T, Consistent level s → total level s m - s.count m ≤ d →
      Ev levels level (Reach (pre ++ [m])) s := by
  have hpass : ∀ s : State P T, Reach pre s → (s.queue m).length ≤ s.count m →
      Ev levels level (Reach (pre ++ [m])) s := by
    intro s h1 h2
    refine Ev.now fun r hr => ?_
    rcases List.mem_append.mp hr with hr | hr
    · exact h1 r hr
    · rw [List.mem_singleton.mp hr]
      exact h2
  have hle : ∀ s : State P T, (s.queue m).length ≤ total level s m := fun s => Nat.le_add_right _ _
  induction d with
  | zero =>
    intro s hc hd
    induction hpre s hc with
    | @now s h =>
      have := hle s
      exact hpass s h (by omega)
    | @later s _ ih =>
      by_cases h : Reach pre s
      · have := hle s
        exact hpass s h (by omega)
      · obtain ⟨hc', ht⟩ := step_keeps hnd hc
        refine Ev.later (ih hc' ?_)
        rw [ht, count_of_not_reach hlev hnd h]
        exact hd
  | succ d ihd =>
    intro s hc hd
    -- at a state that gets down to the level
    have hnow : ∀ s : State P T, Reach pre s → Consistent level s → total level s m - s.count m ≤ d + 1 →
        Ev levels level (Reach (pre ++ [m])) s := by
      intro s h hc hd
      by_cases hp : (s.queue m).length ≤ s.count m
      · exact hpass s h hp
      · have hne : s.queue m ≠ [] := by
          intro e
          rw [e] at hp
          exact hp (Nat.zero_le _)
        obtain ⟨hc', ht⟩ := step_keeps hnd hc
        rcases turn_of_reach hlev hnd h hne with ⟨_, _, _, _, _, hcount⟩ | ⟨h1, _⟩
        · refine Ev.later (ihd _ hc' ?_)
          rw [ht, hcount (by omega)]
          omega
        · exact absurd h1 hp
    induction hpre s hc with
    | @now s h => exact hnow s h hc hd
    | @later s _ ih =>
      by_cases h : Reach pre s
      · exact hnow s h hc hd
      · obtain ⟨hc', ht⟩ := step_keeps hnd hc
        refine Ev.later (ih hc' ?_)
        rw [ht, count_of_not_reach hlev hnd h]
        exact hd

/-- **Every level is reached** sooner or later, from every state. -/
theorem eventually_reach (hnd : levels.Nodup) (pre : List P) : ∀ post, levels = pre ++ post →
    ∀ s : State P T, Consistent level s → Ev levels level (Reach pre) s := by
  induction pre using List.reverseRecOn with
  | nil => exact fun post _ s _ => Ev.now fun r hr => absurd hr List.not_mem_nil
  | append_singleton pre m ih =>
    intro post hlev s hc
    have hlev' : levels = pre ++ m :: post := by rw [hlev, List.append_assoc]; rfl
    exact ev_reach_snoc hlev' hnd (ih _ hlev') _ s hc (Nat.le_refl _)

section
variable {pre post : List P} {l : P} (hlev : levels = pre ++ l :: post) (hnd : levels.Nodup) {t : T}
  {xs : List T}
include hlev hnd

/-- when the queue of `l` gets the turn, an item in it moves up -/
theorem ev_of_turn {s : State P T} {ys : List T} (hturn : Turn levels level l s)
    (hq : s.queue l = xs ++ t :: ys) (hc : Consistent level s)
    (ih : ∀ x xs', xs = x :: xs' → ∀ s : State P T, Consistent level s →
      (∃ ys, s.queue l = xs' ++ t :: ys) → Ev levels level (fun s => s.now = t) s) :
    Ev levels level (fun s => s.now = t) s := by
  obtain ⟨t', ts, hq', hnow, ⟨suf, hsuf⟩, _⟩ := hturn
  rw [hq] at hq'
  cases xs with
  | nil =>
    obtain rfl : t = t' := (List.cons.inj hq').1
    exact Ev.later (Ev.now hnow)
  | cons x xs =>
    refine Ev.later (ih x xs rfl _ (step_keeps hnd hc).1 ⟨ys ++ suf, ?_⟩)
    have hts : xs ++ t :: ys = ts := (List.cons.inj hq').2
    rw [hsuf, ← hts, List.append_assoc]
    rfl

/-- an item with `xs` before it in its queue gets its turn, if those behind the first of `xs` do -/
theorem ev_now (ih : ∀ x xs', xs = x :: xs' → ∀ s : State P T, Consistent level s →
      (∃ ys, s.queue l = xs' ++ t :: ys) → Ev levels level (fun s => s.now = t) s)
    {s : State P T} (hc : Consistent level s) (hq : ∃ ys, s.queue l = xs ++ t :: ys) :
    Ev levels level (fun s => s.now = t) s := by
  have hne : ∀ {s : State P T}, (∃ ys, s.queue l = xs ++ t :: ys) → s.queue l ≠ [] := by
    rintro s ⟨ys, h⟩ e
    rw [h] at e
    exact absurd e (List.append_ne_nil_of_right_ne_nil _ (List.cons_ne_nil _ _))
  have hkeep : ∀ {s : State P T}, (∃ ys, s.queue l = xs ++ t :: ys) →
      (∃ suf, (step levels level s).queue l = s.queue l ++ suf) →
      ∃ ys, (step levels level s).queue l = xs ++ t :: ys := by
    rintro s ⟨ys, h⟩ ⟨suf, h'⟩
    refine ⟨ys ++ suf, ?_⟩
    rw [h', h, List.append_assoc]
    rfl
  -- with the count at zero the next time the level is reached is its turn
  have hzero : ∀ s : State P T, Ev levels level (Reach pre) s → Consistent level s → s.count l = 0 →
      (∃ ys, s.queue l = xs ++ t :: ys) → Ev levels level (fun s => s.now = t) s := by
    have hreach : ∀ s : State P T, Reach pre s → Consistent level s → s.count l = 0 →
        (∃ ys, s.queue l = xs ++ t :: ys) → Ev levels level (fun s => s.now = t) s := by
      intro s h hc h0 hq
      rcases turn_of_reach hlev hnd h (hne hq) with hturn | ⟨h1, _⟩
      · exact ev_of_turn hlev hnd hturn hq.choose_spec hc ih
      · rw [h0] at h1
        exact absurd (List.length_eq_zero_iff.mp (by omega)) (hne hq)
    intro s hev
    induction hev with
    | @now s h => exact hreach s h
    | @later s _ ihs =>
      intro hc h0 hq
      by_cases h : Reach pre s
      · exact hreach s h hc h0 hq
      · rcases turn_or_keep level hnd s l with hturn | hk
        · exact ev_of_turn hlev hnd hturn hq.choose_spec hc ih
        · refine Ev.later (ihs (step_keeps hnd hc).1 ?_ (hkeep hq hk))
          rw [count_of_not_reach hlev hnd h]
          exact h0
  -- the first time it may also be passed over, which resets the count
  have hfirst : ∀ s : State P T, Reach pre s → Consistent level s →
      (∃ ys, s.queue l = xs ++ t :: ys) → Ev levels level (fun s => s.now = t) s := by
    intro s h hc hq
    rcases turn_or_keep level hnd s l with hturn | hk
    · exact ev_of_turn hlev hnd hturn hq.choose_spec hc ih
    · have hc' := (step_keeps hnd hc).1
      rcases turn_of_reach hlev hnd h (hne hq) with hturn | ⟨_, h0⟩
      · exact ev_of_turn hlev hnd hturn hq.choose_spec hc ih
      · exact Ev.later (hzero _ (eventually_reach hnd pre _ hlev _ hc') hc' h0 (hkeep hq hk))
  have hev := eventually_reach hnd pre _ hlev s hc
  induction hev with
  | @now s h => exact hfirst s h hc hq
  | @later s _ ihs =>
    rcases turn_or_keep level hnd s l with hturn | hk
    · exact ev_of_turn hlev hnd hturn hq.choose_spec hc ih
    · exact Ev.later (ihs (step_keeps hnd hc).1 (hkeep hq hk))

end

/-- **No item starves**: from every state in which the items wait at their own levels, every item in a
queue gets its turn after some number of steps. -/
theorem eventually_now (hnd : levels.Nodup) {l : P} (hl : l ∈ levels) {t : T} {s : State P T}
    (hc : Consistent level s) (ht : t ∈ s.queue l) : ∃ k, ((step levels level)^[k] s).now = t := by
  obtain ⟨pre, post, hlev⟩ := List.append_of_mem hl
  obtain ⟨xs, ys, hq⟩ := List.append_of_mem ht
  have hall : ∀ xs : List T, ∀ s : State P T, Consistent level s → (∃ ys, s.queue l = xs ++ t :: ys) →
      Ev levels level (fun s => s.now = t) s := by
    intro xs
    induction xs with
    | nil => exact fun s hc hq => ev_now hlev hnd (fun x xs' e => by cases e) hc hq
    | cons x xs ih =>
      intro s hc hq
      refine ev_now hlev hnd (fun x' xs' e => ?_) hc hq
      obtain ⟨_, rfl⟩ := List.cons.inj e
      exact ih
  exact (hall xs s hc ⟨ys, hq⟩).iterate

end

end Fair
