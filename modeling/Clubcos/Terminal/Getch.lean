import Clubcos.Lib.Circular
import Clubcos.Lib.Threads
import Clubcos.Terminal.Screen

/-!
# Keys typed and keys read

Any number of tasks call `ckTerminalGetch` while the kernel task puts the keys into `s_HitKeyQueue`.  To pass
`s_HitEvent` is one step, and the critical section of the call is another one.

* `HitInv`             every call past `s_HitEvent` has a key in the queue;
* `getch_delivers`     **each key is returned once, in order**, as long as the critical sections do not post
                       `s_HitEvent` for a key that another call has been let through for;
* `getch_reads_empty`  two calls and two keys after which a third call reads an empty queue.
-/

set_option linter.unusedVariables false

namespace Clubcos
open Word Threads

/-- outside of `ckTerminalGetch` or in front of `s_HitEvent`; or between `s_HitEvent` and the critical section -/
inductive GetchPc where
  | out
  | inside
deriving DecidableEq

inductive GetchEvent where
  | key (cascii : Byte)
  | enter
  /-- the critical section, with the key returned, and whether there was one in the queue -/
  | read (ret : Byte) (success : Bool)
deriving DecidableEq

section
variable {T : Type}

/-- A step of the kernel task, `none`, or of another task; a read with its outcome. -/
def getchStep : Option T → Terminal → GetchPc → GetchEvent → Option (Terminal × GetchPc)
  | none, s, .out, .key cascii => (ckTerminalOnInput s cascii).map fun s => (s, .out)
  | some _, s, .out, .enter => (ckBiSemEnter s.hitEvent).map fun flag => ({ s with hitEvent := flag }, .inside)
  | some _, s, .inside, .read ret success =>
    if (getch s).1 = ret ∧ (getch s).2.1 = success then some ((getch s).2.2, .out) else none
  | _, _, _, _ => none

def GetchStep (t : Option T) (s : Terminal) (pc : GetchPc) (e : GetchEvent) (s' : Terminal) (pc' : GetchPc) : Prop :=
  getchStep t s pc e = some (s', pc')

def pressed (tr : List (Option T × GetchEvent)) : List Byte :=
  tr.filterMap fun e => match e.2 with
    | .key cascii => some cascii
    | _ => none

/-- what the calls return, in the order of their critical sections -/
def returned (tr : List (Option T × GetchEvent)) : List Byte :=
  tr.filterMap fun e => match e.2 with
    | .read ret _ => some ret
    | _ => none

/-- the number of calls past `s_HitEvent` -/
def callsInside (tr : List (Option T × GetchEvent)) : Nat :=
  tr.foldl (fun n e => match e.2 with
    | .key _ => n
    | .enter => n + 1
    | .read _ _ => n - 1) 0

def CircularQueue8.count (q : CircularQueue8) : Nat := Circular.count q.size q.first q.last q.bEmpty

/-- `s_HitKeyQueue` is never full when a key comes. -/
def GetchRoom (tr : List (Option T × GetchEvent)) (c : Config (Option T) Terminal GetchPc) (t : Option T)
    (e : GetchEvent) : Prop :=
  match e with
  | .key _ => c.shared.hitKeyQueue.count < hitKeyBufferSize
  | _ => True

/-- And no critical section opens `s_HitEvent` when other calls are past it for all the keys that it leaves. -/
def GetchClear (tr : List (Option T × GetchEvent)) (c : Config (Option T) Terminal GetchPc) (t : Option T)
    (e : GetchEvent) : Prop :=
  match e with
  | .read _ _ =>
    c.shared.hitKeyQueue.count ≤ 1 ∨ c.shared.hitEvent = 0 ∨ callsInside tr < c.shared.hitKeyQueue.count
  | _ => GetchRoom tr c t e

instance (tr : List (Option T × GetchEvent)) (c : Config (Option T) Terminal GetchPc) (t : Option T) (e : GetchEvent) :
    Decidable (GetchRoom tr c t e) := by
  unfold GetchRoom
  split <;> infer_instance

instance (tr : List (Option T × GetchEvent)) (c : Config (Option T) Terminal GetchPc) (t : Option T) (e : GetchEvent) :
    Decidable (GetchClear tr c t e) := by
  unfold GetchClear
  split <;> infer_instance

/-- the terminal set up, and no call made -/
def getchStart (screen : Nat → Cell) : Config (Option T) Terminal GetchPc :=
  ⟨ckTerminalInitialize (.zero screen), fun _ => .out⟩

/-! ## the steps -/

theorem pressed_snoc (tr : List (Option T × GetchEvent)) (t : Option T) (e : GetchEvent) :
    pressed (tr ++ [(t, e)]) = pressed tr ++ pressed [(t, e)] := List.filterMap_append

theorem returned_snoc (tr : List (Option T × GetchEvent)) (t : Option T) (e : GetchEvent) :
    returned (tr ++ [(t, e)]) = returned tr ++ returned [(t, e)] := List.filterMap_append

theorem callsInside_snoc (tr : List (Option T × GetchEvent)) (t : Option T) (e : GetchEvent) :
    callsInside (tr ++ [(t, e)]) = match e with
      | .key _ => callsInside tr
      | .enter => callsInside tr + 1
      | .read _ _ => callsInside tr - 1 := List.foldl_concat _ _ _ _

/-- one key taken; `s_HitEvent` is posted unless it was the last one -/
theorem getch_spec {s : Terminal} {b : Byte} {bs : List Byte} (h : s.hitKeyQueue.Contains (b :: bs))
    (hflag : s.hitEvent ≤ 1) : ∃ queue, getch s = (b, true, { s with
        hitKeyQueue := queue, hitEvent := if bs = [] then s.hitEvent else 0 }) ∧
      queue.Contains bs ∧ queue.size = s.hitKeyQueue.size := by
  obtain ⟨queue, hget, hq, hsize⟩ := ckCircularQueue8Get_contains h
  refine ⟨queue, ?_, hq, hsize⟩
  unfold getch
  rw [hget]
  show (b, true, if ¬ queue.bEmpty = true then _ else _) = _
  by_cases e : bs = []
  · rw [if_neg (not_not_intro (hq.empty.mpr e)), if_pos e]
  · rw [if_pos fun e' => e (hq.empty.mp e'), if_neg e]
    show (b, true, { s with hitKeyQueue := queue, hitEvent := ckBiSemPost s.hitEvent }) = _
    rw [ckBiSemPost_le hflag]

/-! ## the invariant -/

/-- the keys in the queue, and the tasks that are past `s_HitEvent` -/
structure HitGhost (T : Type) where
  queued : List Byte
  inside : List T

/-- **Every call past `s_HitEvent` has a key in the queue**, and when it is open, there is one more key. -/
structure HitInv (g : HitGhost T) (tr : List (Option T × GetchEvent)) (s : Terminal) : Prop where
  stat : s.termStat = .waiting
  size : s.hitKeyQueue.size = hitKeyBufferSize
  queue : s.hitKeyQueue.Contains g.queued
  delivered : pressed tr = returned tr ++ g.queued
  success : ∀ t ret success, (t, .read ret success) ∈ tr → success = true
  flag : s.hitEvent ≤ 1
  calls : callsInside tr = g.inside.length
  nodup : g.inside.Nodup
  inside : g.inside.length ≤ g.queued.length
  posted : s.hitEvent = 0 → g.inside.length < g.queued.length
  woken : g.queued ≠ [] → s.hitEvent = 1 → g.inside ≠ []

def HitPlace (g : HitGhost T) (tr : List (Option T × GetchEvent)) (t : Option T) (s : Terminal) (pc : GetchPc) : Prop :=
  pc = .inside ↔ ∃ u ∈ g.inside, t = some u

section
variable {g : HitGhost T} {tr : List (Option T × GetchEvent)} {s : Terminal} (h : HitInv g tr s)
include h

theorem HitInv.success_snoc {t : Option T} {e : GetchEvent} (he : ∀ ret success, e = .read ret success → success = true) :
    ∀ u ret success, (u, .read ret success) ∈ tr ++ [(t, e)] → success = true := by
  intro u ret success hm
  rcases List.mem_append.mp hm with hm | hm
  · exact h.success u ret success hm
  · exact he ret success (Prod.mk.inj (List.mem_singleton.mp hm)).2.symm

theorem HitInv.key (hroom : s.hitKeyQueue.count < hitKeyBufferSize) {t : Option T} {cascii : Byte} {s' : Terminal}
    (hn : ckTerminalOnInput s cascii = some s') :
    HitInv { g with queued := g.queued ++ [cascii] } (tr ++ [(t, .key cascii)]) s' := by
  have hcount : s.hitKeyQueue.count = g.queued.length := Circular.Contains.count_eq h.queue
  obtain ⟨queue, hput, hq, hsize⟩ := ckCircularQueue8Put_contains h.queue (by rw [h.size]; omega) cascii
  rw [onInput_waiting h.stat, hput, ckBiSemPost_le h.flag] at hn
  obtain rfl := Option.some.inj hn
  have hlen : (g.queued ++ [cascii]).length = g.queued.length + 1 := List.length_append
  have hinside := h.inside
  exact { h with
    size := hsize.trans h.size
    queue := hq
    delivered := by
      rw [pressed_snoc, returned_snoc, h.delivered, List.append_assoc]
      show _ = returned tr ++ [] ++ _
      rw [List.append_nil]
      rfl
    success := h.success_snoc nofun
    flag := Nat.zero_le 1
    calls := by
      rw [callsInside_snoc]
      exact h.calls
    inside := hlen ▸ Nat.le_succ_of_le hinside
    posted := fun _ => hlen ▸ Nat.lt_succ_of_le hinside
    woken := fun _ e => absurd e Nat.zero_ne_one
  }

theorem HitInv.enter {t : T} {flag : Nat} (ht : t ∉ g.inside) (hn : ckBiSemEnter s.hitEvent = some flag) :
    HitInv { g with inside := t :: g.inside } (tr ++ [(some t, .enter)]) { s with hitEvent := flag } := by
  unfold ckBiSemEnter at hn
  by_cases e : s.hitEvent = 0
  · rw [if_pos e] at hn
    obtain rfl := Option.some.inj hn
    exact { h with
      delivered := by
        rw [pressed_snoc, returned_snoc, h.delivered]
        show returned tr ++ g.queued ++ [] = returned tr ++ [] ++ g.queued
        rw [List.append_nil, List.append_nil]
      success := h.success_snoc nofun
      flag := Nat.le_refl 1
      calls := by
        rw [callsInside_snoc, h.calls]
        rfl
      nodup := List.nodup_cons.mpr ⟨ht, h.nodup⟩
      inside := h.posted e
      posted := fun e => absurd e.symm Nat.zero_ne_one
      woken := fun _ _ => List.cons_ne_nil _ _
    }
  · rw [if_neg e] at hn
    cases hn

variable [DecidableEq T]

/-- the step that has to be clear -/
theorem HitInv.read {t : T} (ht : t ∈ g.inside)
    (hclear : s.hitKeyQueue.count ≤ 1 ∨ s.hitEvent = 0 ∨ callsInside tr < s.hitKeyQueue.count)
    {ret : Byte} {success : Bool} {s' : Terminal} (hn : getch s = (ret, success, s')) :
    HitInv ⟨g.queued.tail, g.inside.erase t⟩ (tr ++ [(some t, .read ret success)]) s' := by
  have hpos := List.length_pos_of_mem ht
  have hinside := h.inside
  have hcount : s.hitKeyQueue.count = g.queued.length := Circular.Contains.count_eq h.queue
  have hdelivered := h.delivered
  have hposted := h.posted
  have hqueue := h.queue
  obtain ⟨b, bs, hbs⟩ := List.exists_cons_of_length_pos (Nat.lt_of_lt_of_le hpos hinside)
  rw [hcount, h.calls] at hclear
  rw [hbs] at hinside hclear hdelivered hposted hqueue
  rw [List.length_cons] at hinside hclear hposted
  obtain ⟨queue, hget, hq, hsize⟩ := getch_spec hqueue h.flag
  obtain ⟨rfl, hn⟩ := Prod.mk.inj (hn.symm.trans hget)
  obtain ⟨rfl, rfl⟩ := Prod.mk.inj hn
  have hlen : (g.inside.erase t).length = g.inside.length - 1 := List.length_erase_of_mem ht
  have htail : g.queued.tail = bs := by
    rw [hbs]
    rfl
  rw [htail]
  have hsnoc := h.success_snoc (t := some t) (e := .read ret true) fun ret success e => (GetchEvent.read.inj e).2.symm
  exact {
    stat := h.stat
    size := hsize.trans h.size
    queue := hq
    delivered := by
      rw [pressed_snoc, returned_snoc, hdelivered]
      show returned tr ++ ret :: bs ++ [] = returned tr ++ [ret] ++ bs
      rw [List.append_nil, List.append_assoc]
      rfl
    success := hsnoc
    flag := by
      show (if bs = [] then s.hitEvent else 0) ≤ 1
      split
      · exact h.flag
      · exact Nat.zero_le 1
    calls := by
      rw [callsInside_snoc, h.calls]
      exact hlen.symm
    nodup := h.nodup.erase t
    inside := by
      show (g.inside.erase t).length ≤ bs.length
      omega
    posted e := by
      show (g.inside.erase t).length < bs.length
      change (if bs = [] then s.hitEvent else 0) = 0 at e
      by_cases hnil : bs = []
      · rw [if_pos hnil] at e
        have := hposted e
        omega
      · have := List.length_pos_iff.mpr hnil
        have := h.flag
        omega
    woken hne e := by
      change (if bs = [] then s.hitEvent else 0) = 1 at e
      rw [if_neg hne] at e
      exact absurd e Nat.zero_ne_one
  }

end

theorem start_hitInv (screen : Nat → Cell) :
    HitInv (T := T) ⟨[], []⟩ [] (getchStart screen : Config (Option T) Terminal GetchPc).shared where
  stat := rfl
  size := rfl
  queue := ckCircularQueue8Init_contains _ (by decide)
  delivered := rfl
  success := nofun
  flag := Nat.le_refl 1
  calls := rfl
  nodup := List.nodup_nil
  inside := Nat.le_refl 0
  posted := fun e => absurd e.symm Nat.zero_ne_one
  woken := fun hne _ => absurd rfl hne

variable [DecidableEq T]

theorem GetchStep.spec {g : HitGhost T} {tr : List (Option T × GetchEvent)} {c : Config (Option T) Terminal GetchPc}
    {t : Option T} {e : GetchEvent} {s : Terminal} {pc : GetchPc} (hg : HitInv g tr c.shared)
    (hp : ∀ u, HitPlace g tr u c.shared (c.locals u)) (ho : GetchClear tr c t e)
    (hn : GetchStep t c.shared (c.locals t) e s pc) :
    ∃ g', HitInv g' (tr ++ [(t, e)]) s ∧ HitPlace g' (tr ++ [(t, e)]) t s pc ∧
      ∀ u, u ≠ t → HitPlace g' (tr ++ [(t, e)]) u s (c.locals u) := by
  have ht := hp t
  unfold GetchStep getchStep at hn
  generalize c.locals t = pc₀ at hn ht
  split at hn
  · obtain ⟨s', hkey, hs⟩ := Option.map_eq_some_iff.mp hn
    obtain ⟨rfl, rfl⟩ := Prod.mk.inj hs
    exact ⟨_, hg.key ho hkey, ht, fun u _ => hp u⟩
  · rename_i t
    obtain ⟨flag, henter, hs⟩ := Option.map_eq_some_iff.mp hn
    obtain ⟨rfl, rfl⟩ := Prod.mk.inj hs
    have hnot : t ∉ g.inside := fun hm => GetchPc.noConfusion (ht.mpr ⟨t, hm, rfl⟩)
    refine ⟨_, hg.enter hnot henter, iff_of_true rfl ⟨t, List.mem_cons_self, rfl⟩, fun u hu => (hp u).trans ?_⟩
    show _ ↔ ∃ v ∈ t :: g.inside, u = some v
    exact ⟨fun ⟨v, hv, e⟩ => ⟨v, List.mem_cons_of_mem _ hv, e⟩, fun ⟨v, hv, e⟩ =>
      ⟨v, (List.mem_cons.mp hv).resolve_left fun e' => hu (e' ▸ e), e⟩⟩
  · rename_i t ret success
    split at hn
    · obtain ⟨hret, hsuccess⟩ := ‹_ ∧ _›
      obtain ⟨rfl, rfl⟩ := Prod.mk.inj (Option.some.inj hn)
      obtain ⟨v, hv, e⟩ := ht.mp rfl
      obtain rfl := Option.some.inj e
      refine ⟨_, hg.read hv ho (Prod.ext hret (Prod.ext hsuccess rfl)), iff_of_false GetchPc.noConfusion ?_,
        fun u hu => (hp u).trans ?_⟩
      · intro ⟨v, hm, e⟩
        obtain rfl := Option.some.inj e
        exact (hg.nodup.mem_erase_iff.mp hm).1 rfl
      · show _ ↔ ∃ v ∈ g.inside.erase t, u = some v
        exact ⟨fun ⟨v, hm, e⟩ => ⟨v, hg.nodup.mem_erase_iff.mpr ⟨fun e' => hu (e' ▸ e), hm⟩, e⟩,
          fun ⟨v, hm, e⟩ => ⟨v, List.mem_of_mem_erase hm, e⟩⟩
    · cases hn
  · cases hn

/-- **Every key is returned once, in order**, by any number of tasks at every interleaving, as long as the
critical sections are clear. -/
theorem getch_delivers {screen : Nat → Cell} {tr : List (Option T × GetchEvent)}
    {c : Config (Option T) Terminal GetchPc} (hr : Threads.Run GetchStep GetchClear (getchStart screen) tr c) :
    (∃ queued, pressed tr = returned tr ++ queued ∧ c.shared.hitKeyQueue.Contains queued) ∧
      (∀ t ret success, (t, .read ret success) ∈ tr → success = true) ∧
      ((∀ t, c.locals t = .out) → (c.shared.hitEvent = 0 ↔ c.shared.hitKeyQueue.bEmpty = false)) := by
  obtain ⟨g, hg, hp⟩ := hr.invariant (G := HitInv) (P := HitPlace) (a := ⟨[], []⟩)
    (start_hitInv screen)
    (fun t => iff_of_false GetchPc.noConfusion fun ⟨_, hm, _⟩ => absurd hm List.not_mem_nil) GetchStep.spec
  refine ⟨⟨g.queued, hg.delivered, hg.queue⟩, hg.success, fun hout => ?_⟩
  have hinside : g.inside = [] := List.eq_nil_iff_forall_not_mem.mpr fun t hm =>
    GetchPc.noConfusion ((hout (some t)).symm.trans ((hp (some t)).mpr ⟨t, hm, rfl⟩))
  have hempty := hg.queue.empty
  have hflag := hg.flag
  rw [← Bool.not_eq_true, hempty]
  refine ⟨fun e hnil => ?_, fun hne => ?_⟩
  · have := hg.posted e
    rw [hnil] at this
    exact absurd this (Nat.not_lt_zero _)
  · by_contra h0
    exact hg.woken hne (by omega) hinside

/-- the steps of two tasks, and of the kernel task -/
def getchAll (ok : List (Option Bool × GetchEvent) → Config (Option Bool) Terminal GetchPc → Option Bool →
    GetchEvent → Prop) [∀ tr c t e, Decidable (ok tr c t e)] (tr : List (Option Bool × GetchEvent)) :
    Option (Config (Option Bool) Terminal GetchPc) :=
  Threads.execAll getchStep (fun tr c t e => decide (ok tr c t e)) [] (getchStart fun _ => 0) tr

theorem getchAll_run {ok : List (Option Bool × GetchEvent) → Config (Option Bool) Terminal GetchPc → Option Bool →
    GetchEvent → Prop} [∀ tr c t e, Decidable (ok tr c t e)] {tr : List (Option Bool × GetchEvent)}
    (h : (getchAll ok tr).isSome) : Threads.Run GetchStep ok (getchStart fun _ => 0) tr ((getchAll ok tr).get h) :=
  Threads.Run.init.execAll (fun h => h) of_decide_eq_true (Option.some_get h).symm

/-- the second key comes while a call is past `s_HitEvent` for the first one, which then leaves it open -/
def twoKeys : List (Option Bool × GetchEvent) :=
  [(none, .key 0x61), (some true, .enter), (none, .key 0x62), (some true, .read 0x61 true), (some false, .enter),
    (some false, .read 0x62 true)]

theorem twoKeys_some : (getchAll GetchClear twoKeys).isSome := by decide +kernel

theorem getch_delivers_twoKeys :
    (∃ queued, pressed twoKeys = returned twoKeys ++ queued ∧
      ((getchAll GetchClear twoKeys).get twoKeys_some).shared.hitKeyQueue.Contains queued) ∧
    ∀ t ret success, (t, .read ret success) ∈ twoKeys → success = true :=
  have h := getch_delivers (getchAll_run twoKeys_some)
  ⟨h.1, h.2.1⟩

/-- both calls are past `s_HitEvent` when the first one takes its key and opens it once more -/
def threeCalls : List (Option Bool × GetchEvent) :=
  [(none, .key 0x61), (some true, .enter), (none, .key 0x62), (some false, .enter), (some true, .read 0x61 true),
    (some false, .read 0x62 true), (some true, .enter), (some true, .read 0 false)]

theorem threeCalls_some : (getchAll GetchRoom threeCalls).isSome := by decide +kernel

/-- **Two keys and three calls**: the third one reads an empty queue. -/
theorem getch_reads_empty :
    Threads.Run GetchStep GetchRoom (getchStart fun _ => 0) threeCalls
      ((getchAll GetchRoom threeCalls).get threeCalls_some) ∧
    pressed threeCalls = [0x61, 0x62] ∧ returned threeCalls = [0x61, 0x62, 0] ∧
    (some true, .read 0 false) ∈ threeCalls :=
  ⟨getchAll_run threeCalls_some, rfl, rfl, by decide⟩

end

end Clubcos
