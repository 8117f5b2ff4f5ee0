import Clubcos.Lib.Machine
import Clubcos.Terminal.Array

/-!
# Array8 as a bounded list

The operations of array.h and array.c, one after the other, beside those on a list of at most `cap` bytes.  Insertion
into a full array is refused, as array.h says; what is appended is cut off.

* `ckArray8PushBack`, `ckArray8PopBack`;
* `ArrayOp.exec`, `ArrayOp.spec`     a call on the array, and on the list;
* `ArrayOp.exec_spec`                        a call other than `ckArray8PopBack` does what the list does;
* `ArrayOp.exec_same`                        bytes outside the buffer play no part in it;
* `popBack_none`                     `ckArray8PopBack` fails the assertion of `ckArray8Erase`, on every array.
-/

set_option linter.unusedVariables false

namespace Clubcos
open Word Machine

/-! ## array.h -/

def ckArray8PushBack (ar : Array8) (data : Byte) : Option (Bool × Array8) := ckArray8Insert ar ar.now data

def ckArray8PopBack (ar : Array8) : Option (Byte × Array8) :=
  if 0 < ar.now then
    let ar := { ar with now := ar.now - 1 }
    let ret := ar.mem ar.now
    (ckArray8Erase ar ar.now).map fun ar => (ret, ar)
  else none

inductive ArrayOp where
  | insert (ptr : Nat) (data : Byte)
  | erase (ptr : Nat)
  | append (src : Array8)
  | pushBack (data : Byte)
  | popBack
  | popFront

inductive Returned where
  | void
  | bool (b : Bool)
  | byte (b : Byte)
deriving DecidableEq

def ArrayOp.exec (ar : Array8) : ArrayOp → Option (Returned × Array8)
  | .insert ptr data => (ckArray8Insert ar ptr data).map fun r => (.bool r.1, r.2)
  | .erase ptr => (ckArray8Erase ar ptr).map fun ar => (.void, ar)
  | .append src => some (.void, ckArray8Append ar src)
  | .pushBack data => (ckArray8PushBack ar data).map fun r => (.bool r.1, r.2)
  | .popBack => (ckArray8PopBack ar).map fun r => (.byte r.1, r.2)
  | .popFront => (ckArray8PopFront ar).map fun r => (.byte r.1, r.2)

/-! ## a list of at most `cap` bytes -/

/-- the bytes `buf..now-1` -/
def Array8.bytes (ar : Array8) : List Byte := (List.range ar.now).map ar.mem

def ArrayOp.spec (cap : Nat) (bs : List Byte) : ArrayOp → Returned × List Byte
  | .insert k b => if bs.length = cap then (.bool false, bs) else (.bool true, bs.insertIdx k b)
  | .erase k => (.void, bs.eraseIdx k)
  | .append src => (.void, (bs ++ src.bytes).take cap)
  | .pushBack b => if bs.length = cap then (.bool false, bs) else (.bool true, bs ++ [b])
  | .popBack => (.byte (bs.getLastD 0), bs.dropLast)
  | .popFront => (.byte (bs.headD 0), bs.tail)

/-- what is a buffer: the difference of two pointers into it is a `ptrdiff_t` -/
structure Array8.IsBuffer (ar : Array8) : Prop where
  now : ar.now ≤ ar.ends
  ends : ar.ends < 2^31

def ArrayOp.Allowed (bs : List Byte) : ArrayOp → Prop
  | .insert k _ => k ≤ bs.length
  | .erase k => k < bs.length
  | .append src => src.IsBuffer
  | .pushBack _ => True
  | .popBack => bs ≠ []
  | .popFront => bs ≠ []

def ArrayOp.Accepted (cap : Nat) (ts : List ArrayOp) : Prop := Permitted (ArrayOp.spec cap) ArrayOp.Allowed [] ts

theorem Array8.bytes_holds (ar : Array8) : Holds ar.mem ar.bytes := by
  intro i hi
  simp only [bytes, List.getElem_map, List.getElem_range]

theorem Array8.bytes_length (ar : Array8) : ar.bytes.length = ar.now := by
  simp only [bytes, List.length_map, List.length_range]

/-! ## one call -/

theorem popBack_none (ar : Array8) : ckArray8PopBack ar = none := by
  unfold ckArray8PopBack ckArray8Erase
  simp

/-- the array holds the list, and the memory behind the buffer is as it was -/
structure Represents (cap : Nat) (mem : Nat → Byte) (ar : Array8) (bs : List Byte) : Prop where
  contains : ar.Contains bs cap
  room : bs.length ≤ cap
  outside : ∀ i, cap ≤ i → ar.mem i = mem i

section
variable {cap : Nat} {mem : Nat → Byte} {ar : Array8} {bs : List Byte} (h : Represents cap mem ar bs)
include h

theorem Represents.insert {k : Nat} (hk : k ≤ bs.length) (b : Byte) :
    ∃ ar', ckArray8Insert ar k b = some (decide (bs.length ≠ cap), ar') ∧
      Represents cap mem ar' (if bs.length = cap then bs else bs.insertIdx k b) := by
  have hle : k ≤ ar.now := h.contains.now ▸ hk
  by_cases hfull : bs.length = cap
  · have hnow : ar.now = ar.ends := h.contains.now.trans (hfull.trans h.contains.ends.symm)
    refine ⟨ar, ?_, ?_⟩
    · rw [ckArray8Insert, if_pos hle, if_pos hnow, decide_eq_false (not_not_intro hfull)]
    · rwa [if_pos hfull]
  · obtain ⟨ar', hins, hc⟩ := ckArray8Insert_contains h.contains hk hfull b
    have hroom := h.room
    refine ⟨ar', ?_, ?_⟩
    · rw [hins, decide_eq_true hfull]
    · rw [if_neg hfull]
      refine ⟨hc, ?_, fun i hi => ?_⟩
      · rw [List.length_insertIdx_of_le_length hk]
        omega
      · have hnow := h.contains.now
        have hne : ar.now ≠ ar.ends := fun e => hfull (h.contains.now.symm.trans (e.trans h.contains.ends))
        rw [ckArray8Insert, if_pos hle, if_neg hne] at hins
        cases hins
        show Function.update (memmove ar.mem (k + 1) k (ar.now - k)) k b i = mem i
        rw [Function.update_of_ne (by omega), memmove, if_neg (by omega), h.outside i hi]

theorem Represents.erase {k : Nat} (hk : k < bs.length) :
    ∃ ar', ckArray8Erase ar k = some ar' ∧ Represents cap mem ar' (bs.eraseIdx k) := by
  obtain ⟨ar', hers, hc⟩ := ckArray8Erase_contains h.contains hk
  have hnow := h.contains.now
  have hroom := h.room
  refine ⟨ar', hers, hc, ?_, fun i hi => ?_⟩
  · rw [List.length_eraseIdx_of_lt hk]
    omega
  · have hlt : k < ar.now := hnow ▸ hk
    rw [ckArray8Erase, if_pos hlt] at hers
    cases hers
    show memmove ar.mem k (k + 1) (ar.now - k - 1) i = mem i
    rw [memmove, if_neg (by omega), h.outside i hi]

theorem Represents.append (hcap : cap < 2^31) (src : Array8) :
    Represents cap mem (ckArray8Append ar src) ((bs ++ src.bytes).take cap) := by
  have hnow := h.contains.now
  have hends := h.contains.ends
  have hroom := h.room
  have hlen : (src.bytes.take (cap - bs.length)).length = min src.now (ar.ends - ar.now) := by
    rw [List.length_take, src.bytes_length, hends, hnow, Nat.min_comm]
  have htake : (bs ++ src.bytes).take cap = bs ++ src.bytes.take (cap - bs.length) := by
    rw [List.take_append, List.take_of_length_le hroom]
  have hcopied : Holds src.mem (src.bytes.take (cap - bs.length)) := by
    apply Holds.append_left
    rw [List.take_append_drop (cap - bs.length)]
    exact src.bytes_holds
  rw [ckArray8Append_eq (by omega) (by omega), htake, ← hlen, hnow]
  refine ⟨⟨?_, hends, h.contains.holds.memcpy hcopied⟩, ?_, fun i hi => ?_⟩
  · rw [List.length_append]
  · rw [List.length_append, hlen]
    omega
  · show memcpy ar.mem bs.length src.mem 0 _ i = mem i
    rw [memcpy, if_neg (by omega), h.outside i hi]

end

theorem ArrayOp.exec_spec {cap : Nat} (hcap : cap < 2^31) {mem : Nat → Byte} (ar : Array8) (bs : List Byte) (t : ArrayOp)
    (h : Represents cap mem ar bs) (ht : t.Allowed bs ∧ t ≠ .popBack) :
    ∃ ar', t.exec ar = some (id (t.spec cap bs).1, ar') ∧ Represents cap mem ar' (t.spec cap bs).2 := by
  obtain ⟨ha, hne⟩ := ht
  cases t with
  | insert k b =>
    obtain ⟨ar', hins, hr⟩ := h.insert ha b
    refine ⟨ar', ?_, ?_⟩
    · by_cases hfull : bs.length = cap <;> simp [ArrayOp.exec, ArrayOp.spec, hins, hfull]
    · by_cases hfull : bs.length = cap <;> simpa [ArrayOp.spec, hfull] using hr
  | erase k =>
    obtain ⟨ar', hers, hr⟩ := h.erase ha
    exact ⟨ar', congrArg (Option.map _) hers, hr⟩
  | append src => exact ⟨_, rfl, h.append hcap src⟩
  | pushBack b =>
    obtain ⟨ar', hins, hr⟩ := h.insert (Nat.le_refl _) b
    refine ⟨ar', ?_, ?_⟩
    · rw [ArrayOp.exec, ckArray8PushBack, h.contains.now, hins]
      by_cases hfull : bs.length = cap <;> simp [ArrayOp.spec, hfull]
    · by_cases hfull : bs.length = cap <;> simpa [ArrayOp.spec, hfull, List.insertIdx_length_self] using hr
  | popBack => exact absurd rfl hne
  | popFront =>
    have hpos := List.length_pos_iff.mpr ha
    obtain ⟨ar', hers, hr⟩ := h.erase hpos
    have hhead : ar.mem 0 = bs.headD 0 := by
      rw [h.contains.holds 0 hpos]
      cases bs with
      | nil => exact absurd rfl ha
      | cons b bs => rfl
    refine ⟨ar', ?_, ?_⟩
    · simp only [ArrayOp.exec, ckArray8PopFront, hers, Option.map_some, hhead]
      rfl
    · rwa [List.eraseIdx_zero] at hr

/-! ## the bytes outside -/

/-- the same array, but for the bytes outside its buffer -/
structure Array8.SameInside (ar ar' : Array8) : Prop where
  now : ar'.now = ar.now
  ends : ar'.ends = ar.ends
  mem : ∀ i < ar.ends, ar'.mem i = ar.mem i

def ArrayOp.SameInside : ArrayOp → ArrayOp → Prop
  | .append src, t => ∃ src', t = .append src' ∧ src.IsBuffer ∧ src.SameInside src'
  | t, t' => t' = t

theorem ckArray8Insert_same {ar ar' ar₁ : Array8} {k : Nat} {c : Byte} {b : Bool} (h : ar.SameInside ar')
    (hb : ar.IsBuffer) (he : ckArray8Insert ar k c = some (b, ar₁)) :
    ∃ ar₁', ckArray8Insert ar' k c = some (b, ar₁') ∧ ar₁.SameInside ar₁' ∧ ar₁.IsBuffer := by
  unfold ckArray8Insert at he ⊢
  rw [h.now, h.ends]
  by_cases hle : k ≤ ar.now
  · rw [if_pos hle] at he ⊢
    by_cases hfull : ar.now = ar.ends
    · rw [if_pos hfull] at he ⊢
      cases he
      exact ⟨ar', rfl, h, hb⟩
    · rw [if_neg hfull] at he ⊢
      cases he
      have hnow := hb.now
      refine ⟨_, rfl, ⟨rfl, rfl, fun i hi => ?_⟩, ⟨Nat.lt_of_le_of_ne hnow hfull, hb.ends⟩⟩
      show Function.update (memmove ar'.mem (k + 1) k (ar.now - k)) k c i =
        Function.update (memmove ar.mem (k + 1) k (ar.now - k)) k c i
      by_cases e : i = k
      · rw [e, Function.update_self, Function.update_self]
      · have hi' : i < ar.ends := hi
        rw [Function.update_of_ne e, Function.update_of_ne e, memmove, memmove, h.mem i hi',
          h.mem (k + (i - (k + 1))) (by omega)]
  · rw [if_neg hle] at he
    cases he

theorem ckArray8Erase_same {ar ar' ar₁ : Array8} {k : Nat} (h : ar.SameInside ar') (hb : ar.IsBuffer)
    (he : ckArray8Erase ar k = some ar₁) :
    ∃ ar₁', ckArray8Erase ar' k = some ar₁' ∧ ar₁.SameInside ar₁' ∧ ar₁.IsBuffer := by
  unfold ckArray8Erase at he ⊢
  rw [h.now]
  by_cases hlt : k < ar.now
  · rw [if_pos hlt] at he ⊢
    cases he
    have hnow := hb.now
    refine ⟨_, rfl, ⟨rfl, h.ends, fun i hi => ?_⟩, ⟨by show ar.now - 1 ≤ ar.ends; omega, hb.ends⟩⟩
    show memmove ar'.mem k (k + 1) (ar.now - k - 1) i = memmove ar.mem k (k + 1) (ar.now - k - 1) i
    have hi' : i < ar.ends := hi
    rw [memmove, memmove, h.mem i hi']
    by_cases e : k ≤ i ∧ i < k + (ar.now - k - 1)
    · rw [if_pos e, if_pos e, h.mem _ (by omega)]
    · rw [if_neg e, if_neg e]
  · rw [if_neg hlt] at he
    cases he

theorem ckArray8Append_same {ar ar' src src' : Array8} (h : ar.SameInside ar') (hb : ar.IsBuffer)
    (hs : src.SameInside src') (hsb : src.IsBuffer) :
    (ckArray8Append ar src).SameInside (ckArray8Append ar' src') ∧ (ckArray8Append ar src).IsBuffer := by
  have hnow := hb.now
  have hends := hb.ends
  have hsnow := hsb.now
  rw [ckArray8Append_eq hnow (by omega), ckArray8Append_eq (by rw [h.now, h.ends]; exact hnow) (by rw [h.ends]; omega),
    h.now, h.ends, hs.now]
  refine ⟨⟨rfl, rfl, fun i hi => ?_⟩, ⟨by show ar.now + _ ≤ ar.ends; omega, hends⟩⟩
  have hi' : i < ar.ends := hi
  show memcpy ar'.mem ar.now src'.mem 0 _ i = memcpy ar.mem ar.now src.mem 0 _ i
  rw [memcpy, memcpy, h.mem i hi']
  by_cases e : ar.now ≤ i ∧ i < ar.now + min src.now (ar.ends - ar.now)
  · rw [if_pos e, if_pos e, hs.mem _ (by omega)]
  · rw [if_neg e, if_neg e]

theorem ArrayOp.exec_same (ar ar' : Array8) (t t' : ArrayOp) (o : Returned) (ar₁ : Array8)
    (h : ar.SameInside ar' ∧ ar.IsBuffer) (ht : t.SameInside t') (he : t.exec ar = some (o, ar₁)) :
    ∃ ar₁', t'.exec ar' = some (o, ar₁') ∧ ar₁.SameInside ar₁' ∧ ar₁.IsBuffer := by
  obtain ⟨hsame, hb⟩ := h
  cases t with
  | insert k c =>
    cases ht
    obtain ⟨⟨b, ar₂⟩, hins, e⟩ := Option.map_eq_some_iff.mp he
    cases e
    obtain ⟨ar₁', hins', hr⟩ := ckArray8Insert_same hsame hb hins
    exact ⟨ar₁', congrArg (Option.map _) hins', hr⟩
  | erase k =>
    cases ht
    obtain ⟨ar₂, hers, e⟩ := Option.map_eq_some_iff.mp he
    cases e
    obtain ⟨ar₁', hers', hr⟩ := ckArray8Erase_same hsame hb hers
    exact ⟨ar₁', congrArg (Option.map _) hers', hr⟩
  | append src =>
    obtain ⟨src', rfl, hsb, hs⟩ := ht
    cases he
    exact ⟨_, rfl, ckArray8Append_same hsame hb hs hsb⟩
  | pushBack c =>
    cases ht
    obtain ⟨⟨b, ar₂⟩, hins, e⟩ := Option.map_eq_some_iff.mp he
    cases e
    obtain ⟨ar₁', hins', hr⟩ := ckArray8Insert_same hsame hb hins
    refine ⟨ar₁', ?_, hr⟩
    rw [ArrayOp.exec, ckArray8PushBack, hsame.now, hins']
    rfl
  | popBack =>
    rw [ArrayOp.exec, popBack_none] at he
    cases he
  | popFront =>
    cases ht
    obtain ⟨⟨c, ar₂⟩, hpop, e⟩ := Option.map_eq_some_iff.mp he
    cases e
    obtain ⟨ar₃, hers, e⟩ := Option.map_eq_some_iff.mp hpop
    cases e
    have hpos : 0 < ar.now := by
      by_contra hpos
      rw [ckArray8Erase, if_neg hpos] at hers
      cases hers
    obtain ⟨ar₁', hers', hr⟩ := ckArray8Erase_same hsame hb hers
    refine ⟨ar₁', ?_, hr⟩
    have hhead := hsame.mem 0 (Nat.lt_of_lt_of_le hpos hb.now)
    rw [ArrayOp.exec, ckArray8PopFront, hers', hhead]
    rfl

/-! ## runs -/

theorem init_represents (ar : Array8) (cap : Nat) : Represents cap ar.mem (ckArray8Init ar cap) [] :=
  ⟨⟨rfl, rfl, holds_nil _⟩, Nat.zero_le _, fun _ _ => rfl⟩

/-- **Runs without `ckArray8PopBack`, and only they, do what the list does.**  No assertion fails, the array holds the
list, the bytes behind the buffer are kept, and neither what is returned nor what is in the buffer depends on them or on
the bytes outside the buffers of the arrays appended. -/
theorem array_refines {cap : Nat} (hcap : cap < 2^31) (ar : Array8) {ts : List ArrayOp} (ha : ArrayOp.Accepted cap ts) :
    (∃ ar', run ArrayOp.exec (ckArray8Init ar cap) ts = some (answers (ArrayOp.spec cap) [] ts, ar') ∧
      ar'.Contains (final (ArrayOp.spec cap) [] ts) cap ∧ (∀ i, cap ≤ i → ar'.mem i = ar.mem i) ∧
      ∀ ar₂ ts₂, (∀ i < cap, ar₂.mem i = ar.mem i) → List.Forall₂ ArrayOp.SameInside ts ts₂ →
        ∃ ar₂', run ArrayOp.exec (ckArray8Init ar₂ cap) ts₂ = some (answers (ArrayOp.spec cap) [] ts, ar₂') ∧
          ∀ i < cap, ar₂'.mem i = ar'.mem i) ↔
    ArrayOp.popBack ∉ ts := by
  constructor
  · rintro ⟨ar', hrun, _⟩ hmem
    obtain ⟨ar₁, r, hexec⟩ := run_some hrun hmem
    rw [ArrayOp.exec, popBack_none] at hexec
    cases hexec
  · intro hmem
    have hne : ∀ t ∈ ts, t ≠ ArrayOp.popBack := fun t ht e => hmem (e ▸ ht)
    obtain ⟨ar', hrun, hr⟩ := run_refines (ArrayOp.exec_spec hcap) (init_represents ar cap) (ha.and hne)
    rw [List.map_id] at hrun
    refine ⟨ar', hrun, hr.contains, hr.outside, fun ar₂ ts₂ hmem₂ hts => ?_⟩
    have hinit : (ckArray8Init ar cap).SameInside (ckArray8Init ar₂ cap) := ⟨rfl, rfl, hmem₂⟩
    obtain ⟨ar₂', hrun₂, hsame, _⟩ := run_related ArrayOp.exec_same ⟨hinit, ⟨Nat.zero_le _, hcap⟩⟩ hts hrun
    exact ⟨ar₂', hrun₂, fun i hi => hsame.mem i (hr.contains.ends.symm ▸ hi)⟩

/-- an array of three bytes: a refused insertion, an append that is cut off, and a byte taken out -/
def shortRun : List ArrayOp :=
  [.pushBack 7, .insert 0 5, .append ⟨fun i => BitVec.ofNat 8 i, 4, 9⟩, .insert 1 6, .popFront, .erase 1]

theorem array_refines_shortRun : ArrayOp.Accepted 3 shortRun ∧
    ∃ ar', run ArrayOp.exec (ckArray8Init ⟨fun _ => 0, 0, 0⟩ 3) shortRun =
      some ([.bool true, .bool true, .void, .bool false, .byte 5, .void], ar') ∧ ar'.Contains [7] 3 := by
  have ha : ArrayOp.Accepted 3 shortRun := by
    simp [ArrayOp.Accepted, shortRun, Permitted, ArrayOp.Allowed, ArrayOp.spec, Array8.bytes]
    exact ⟨by decide, by decide⟩
  obtain ⟨ar', hrun, hc, _⟩ := (array_refines (by decide) ⟨fun _ => 0, 0, 0⟩ ha).mpr (by simp [shortRun])
  exact ⟨ha, ar', hrun, hc⟩

/-- the byte that was pushed is to be popped again, and the assertion in `ckArray8Erase` fails -/
theorem popped_after_push : ArrayOp.Accepted 4 [.pushBack 7, .popBack] ∧
    answers (ArrayOp.spec 4) [] [.pushBack 7, .popBack] = [.bool true, .byte 7] ∧
    run ArrayOp.exec (ckArray8Init ⟨fun _ => 0, 0, 0⟩ 4) [.pushBack 7, .popBack] = none :=
  ⟨⟨trivial, List.cons_ne_nil _ _, trivial⟩, rfl, rfl⟩

end Clubcos
