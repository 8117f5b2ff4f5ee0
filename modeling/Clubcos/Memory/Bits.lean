import Mathlib.Data.Finset.Card
import Clubcos.Lib.Dyadic
import Clubcos.Memory.Model

/-!
# The bitmaps as a table of marked blocks

`g.bit i b` is the bit `b` of the bitmap of level `i`.  `Tab g N T` says that the bitmaps of a heap
of `N` unit blocks hold exactly the table `T` (the padding bits at the end of a bitmap are zero),
that the bitmaps lie apart in memory and that every count is the number of bits of its level.

* `Tab.mark`, `Tab.unmark`   setting a bit and counting it, clearing a bit and discounting it;
* `Tab.search`               the byte scan and the bit scan of the allocator find a marked block.
-/

set_option linter.unusedVariables false

namespace Clubcos
open Word Dyadic

/-- number of bytes of the bitmap of level `i` -/
def rowLen (N i : Nat) : Nat := (N / 2^i - 1) / 8 + 1

def DynMemStruct.bit (g : DynMemStruct) (i b : Nat) : Bool := (g.mem (g.bitAddr i b)).getLsbD (b % 8)

/-- the bitmaps lie apart, in the order of their levels -/
def Rows (g : DynMemStruct) (N : Nat) : Prop :=
  ∀ i j, i < j → j < g.bitmapLevel → (g.arBitmap i).bits + rowLen N i ≤ (g.arBitmap j).bits

/-- the fields that the work on the bitmaps leaves alone -/
structure Frame (g g' : DynMemStruct) : Prop where
  dynMemSize : g'.dynMemSize = g.dynMemSize
  beginAddr : g'.beginAddr = g.beginAddr
  usedSize : g'.usedSize = g.usedSize
  countOfUnitBlock : g'.countOfUnitBlock = g.countOfUnitBlock
  bitmapLevel : g'.bitmapLevel = g.bitmapLevel
  bits : ∀ i, (g'.arBitmap i).bits = (g.arBitmap i).bits

theorem Frame.refl (g : DynMemStruct) : Frame g g := ⟨rfl, rfl, rfl, rfl, rfl, fun _ => rfl⟩

theorem Frame.trans {g g' g'' : DynMemStruct} (h : Frame g g') (h' : Frame g' g'') : Frame g g'' :=
  ⟨h'.1.trans h.1, h'.2.trans h.2, h'.3.trans h.3, h'.4.trans h.4, h'.5.trans h.5,
    fun i => (h'.6 i).trans (h.6 i)⟩

theorem frame_setMem (g : DynMemStruct) (a : Nat) (v : BitVec 8) : Frame g (g.setMem a v) :=
  ⟨rfl, rfl, rfl, rfl, rfl, fun _ => rfl⟩

theorem frame_touch (g : DynMemStruct) (i idx : Nat) : Frame g (g.touch i idx) :=
  ⟨rfl, rfl, rfl, rfl, rfl, fun _ => rfl⟩

theorem frame_set1 (g : DynMemStruct) (i b : Nat) : Frame g (bitmapBitSet1 g i b) :=
  (frame_setMem g _ _).trans (frame_touch _ i b)

theorem frame_set0 (g : DynMemStruct) (i b : Nat) : Frame g (bitmapBitSet0 g i b) :=
  (frame_setMem g _ _).trans (frame_touch _ i b)

theorem frame_setCount (g : DynMemStruct) (i n : Nat) : Frame g (g.setCount i n) := by
  refine ⟨rfl, rfl, rfl, rfl, rfl, fun j => ?_⟩
  show (Function.update g.arBitmap i _ j).bits = _
  by_cases h : j = i
  · rw [h, Function.update_self]
  · rw [Function.update_of_ne h]

theorem Rows.frame {g g' : DynMemStruct} {N : Nat} (h : Rows g N) (hf : Frame g g') : Rows g' N := by
  intro i j hij hj
  rw [hf.bits, hf.bits]
  exact h i j hij (hf.bitmapLevel ▸ hj)

/-! ## single bits -/

theorem one_shl_bit (k m : Nat) (hm : m < 8) : (1#8 <<< k).getLsbD m = decide (m = k) := by
  rw [BitVec.getLsbD_shiftLeft, BitVec.getLsbD_one]
  by_cases h : m < k
  · simp [hm, h]; omega
  · simp [hm, h]; omega

theorem bitmapGetBit_eq (g : DynMemStruct) (i idx : Nat) : bitmapGetBit g i idx = g.bit i idx := by
  have hk : idx % 8 < 8 := Nat.mod_lt _ (by omega)
  show (g.mem (g.bitAddr i idx) &&& 1#8 <<< (idx % 8) != 0#8)
    = (g.mem (g.bitAddr i idx)).getLsbD (idx % 8)
  cases h : (g.mem (g.bitAddr i idx)).getLsbD (idx % 8) with
  | true =>
    rw [bne_iff_ne]
    intro e
    have h1 := congrArg (fun x => x.getLsbD (idx % 8)) e
    simp [BitVec.getLsbD_and, h, one_shl_bit _ _ hk] at h1
  | false =>
    have e : g.mem (g.bitAddr i idx) &&& 1#8 <<< (idx % 8) = 0#8 := by
      apply BitVec.eq_of_getLsbD_eq
      intro m hm
      rw [BitVec.getLsbD_and, one_shl_bit _ _ hm, BitVec.getLsbD_zero]
      by_cases e : m = idx % 8
      · rw [e, h]; rfl
      · simp [e]
    rw [e]; rfl

/-- two bits of the bitmaps lie in one byte only if they are bits of one level -/
theorem Rows.bitAddr_inj {g : DynMemStruct} {N i j a b : Nat} (h : Rows g N)
    (hi : i < g.bitmapLevel) (ha : a < 8 * rowLen N i) (hj : j < g.bitmapLevel)
    (hb : b < 8 * rowLen N j) (e : g.bitAddr j b = g.bitAddr i a) : j = i ∧ b / 8 = a / 8 := by
  have e' : (g.arBitmap j).bits + b / 8 = (g.arBitmap i).bits + a / 8 := e
  rcases Nat.lt_trichotomy i j with hij | rfl | hij
  · have := h i j hij hj
    omega
  · omega
  · have := h j i hij hi
    omega

/-- the bits after one byte is written -/
theorem Rows.bit_setMem {g : DynMemStruct} {N i j a b : Nat} (h : Rows g N)
    (hi : i < g.bitmapLevel) (ha : a < 8 * rowLen N i) (hj : j < g.bitmapLevel)
    (hb : b < 8 * rowLen N j) (v : BitVec 8) :
    (g.setMem (g.bitAddr i a) v).bit j b
      = if j = i ∧ b / 8 = a / 8 then v.getLsbD (b % 8) else g.bit j b := by
  show (Function.update g.mem (g.bitAddr i a) v (g.bitAddr j b)).getLsbD (b % 8) = _
  by_cases e : j = i ∧ b / 8 = a / 8
  · have e' : g.bitAddr j b = g.bitAddr i a := by
      show (g.arBitmap j).bits + b / 8 = (g.arBitmap i).bits + a / 8
      rw [e.1, e.2]
    rw [if_pos e, e', Function.update_self]
  · have hne : g.bitAddr j b ≠ g.bitAddr i a := fun e' => e (h.bitAddr_inj hi ha hj hb e')
    rw [if_neg e, Function.update_of_ne hne]
    rfl

/-- a write that makes one bit of its byte `x` and keeps the other seven -/
theorem Rows.bit_setBit {g : DynMemStruct} {N i j a b : Nat} (h : Rows g N)
    (hi : i < g.bitmapLevel) (ha : a < 8 * rowLen N i) (hj : j < g.bitmapLevel)
    (hb : b < 8 * rowLen N j) {v : BitVec 8} (x : Bool)
    (hv : ∀ m, m < 8 → v.getLsbD m
      = if m = a % 8 then x else (g.mem (g.bitAddr i a)).getLsbD m) :
    (g.setMem (g.bitAddr i a) v).bit j b = if j = i ∧ b = a then x else g.bit j b := by
  have hm : b % 8 < 8 := Nat.mod_lt _ (by omega)
  rw [h.bit_setMem hi ha hj hb]
  by_cases e : j = i ∧ b / 8 = a / 8
  · obtain ⟨rfl, e8⟩ := e
    have e' : g.bitAddr j a = g.bitAddr j b := by
      show (g.arBitmap j).bits + a / 8 = (g.arBitmap j).bits + b / 8
      rw [e8]
    rw [if_pos ⟨rfl, e8⟩, hv _ hm, e']
    by_cases hab : b = a
    · rw [if_pos (by rw [hab]), if_pos ⟨rfl, hab⟩]
    · have hne : b % 8 ≠ a % 8 := by omega
      rw [if_neg hne, if_neg fun h' => hab h'.2]
      rfl
  · have hne : ¬ (j = i ∧ b = a) := fun h' => e ⟨h'.1, by rw [h'.2]⟩
    rw [if_neg e, if_neg hne]

theorem Rows.bit_set1 {g : DynMemStruct} {N i j a b : Nat} (h : Rows g N)
    (hi : i < g.bitmapLevel) (ha : a < 8 * rowLen N i) (hj : j < g.bitmapLevel)
    (hb : b < 8 * rowLen N j) :
    (bitmapBitSet1 g i a).bit j b = (g.bit j b || decide (j = i ∧ b = a)) := by
  show (g.setMem (g.bitAddr i a) _).bit j b = _
  rw [h.bit_setBit hi ha hj hb true]
  · by_cases e : j = i ∧ b = a
    · simp [e]
    · simp [e]
  · intro m hm
    rw [BitVec.getLsbD_or, one_shl_bit _ _ hm]
    by_cases e : m = a % 8
    · simp [e]
    · simp [e]

theorem Rows.bit_set0 {g : DynMemStruct} {N i j a b : Nat} (h : Rows g N)
    (hi : i < g.bitmapLevel) (ha : a < 8 * rowLen N i) (hj : j < g.bitmapLevel)
    (hb : b < 8 * rowLen N j) :
    (bitmapBitSet0 g i a).bit j b = (g.bit j b && !decide (j = i ∧ b = a)) := by
  show (g.setMem (g.bitAddr i a) _).bit j b = _
  rw [h.bit_setBit hi ha hj hb false]
  · by_cases e : j = i ∧ b = a
    · simp [e]
    · simp [e]
  · intro m hm
    rw [BitVec.getLsbD_and, BitVec.getLsbD_not, one_shl_bit _ _ hm]
    by_cases e : m = a % 8
    · simp [e]
    · simp [e, hm]

/-! ## the table -/

/-- the bits of level `i` that are set -/
def DynMemStruct.row (g : DynMemStruct) (N i : Nat) : Finset Nat :=
  (Finset.range (N / 2^i)).filter fun b => g.bit i b

/-- The bitmaps of a heap of `N` unit blocks hold the table `T`. -/
structure Tab (g : DynMemStruct) (N : Nat) (T : Nat → Nat → Prop) : Prop where
  lt : N < 2^32
  level : g.bitmapLevel = Nat.log2 N + 1
  rows : Rows g N
  inside : ∀ i b, T i b → b < N / 2^i
  bit_iff : ∀ i < g.bitmapLevel, ∀ b < 8 * rowLen N i, (g.bit i b = true ↔ T i b)
  count : ∀ i < g.bitmapLevel, (g.arBitmap i).count = (g.row N i).card

theorem lt_rowLen {N i b : Nat} (h : b < N / 2^i) : b < 8 * rowLen N i := by
  show b < 8 * ((N / 2^i - 1) / 8 + 1)
  omega

/-- the buddy of a block is a bit of the same byte -/
theorem buddy_lt_rowLen {N i b : Nat} (h : b < N / 2^i) : b ^^^ 1 < 8 * rowLen N i := by
  have hb := buddy_half b
  show b ^^^ 1 < 8 * ((N / 2^i - 1) / 8 + 1)
  omega

theorem Tab.congr {g : DynMemStruct} {N : Nat} {T T' : Nat → Nat → Prop} (h : Tab g N T)
    (e : ∀ i b, T' i b ↔ T i b) : Tab g N T' := by
  have e' : T' = T := funext fun i => funext fun b => propext (e i b)
  rw [e']
  exact h

theorem Tab.mem_row {g : DynMemStruct} {N : Nat} {T : Nat → Nat → Prop} (h : Tab g N T) {i b : Nat}
    (hi : i < g.bitmapLevel) : b ∈ g.row N i ↔ T i b := by
  rw [DynMemStruct.row, Finset.mem_filter, Finset.mem_range]
  constructor
  · rintro ⟨h1, h2⟩
    exact (h.bit_iff i hi b (lt_rowLen h1)).mp h2
  · intro hT
    have h1 := h.inside i b hT
    exact ⟨h1, (h.bit_iff i hi b (lt_rowLen h1)).mpr hT⟩

theorem Tab.count_lt {g : DynMemStruct} {N : Nat} {T : Nat → Nat → Prop} (h : Tab g N T) {i : Nat}
    (hi : i < g.bitmapLevel) : (g.arBitmap i).count < 2^32 := by
  have h1 : (g.row N i).card ≤ N / 2^i := by
    have := Finset.card_filter_le (Finset.range (N / 2^i)) (fun b => g.bit i b = true)
    rwa [Finset.card_range] at this
  have h2 := Nat.div_le_self N (2^i)
  have h3 := h.lt
  rw [h.count i hi]
  omega

theorem Tab.count_eq_zero_iff {g : DynMemStruct} {N : Nat} {T : Nat → Nat → Prop} (h : Tab g N T)
    {i : Nat} (hi : i < g.bitmapLevel) : (g.arBitmap i).count = 0 ↔ ∀ b, ¬ T i b := by
  rw [h.count i hi, Finset.card_eq_zero, Finset.eq_empty_iff_forall_notMem]
  exact forall_congr' fun b => not_congr (h.mem_row hi)

/-! ## marking and unmarking -/

/-- set the bit and count it -/
def DynMemStruct.mark (g : DynMemStruct) (i b : Nat) : DynMemStruct :=
  (bitmapBitSet1 g i b).setCount i (u32 ((g.arBitmap i).count + 1))

/-- clear the bit and discount it -/
def DynMemStruct.unmark (g : DynMemStruct) (i b : Nat) : DynMemStruct :=
  (bitmapBitSet0 g i b).setCount i (sub32 (g.arBitmap i).count 1)

theorem frame_mark (g : DynMemStruct) (i b : Nat) : Frame g (g.mark i b) :=
  (frame_set1 g i b).trans (frame_setCount _ i _)

theorem frame_unmark (g : DynMemStruct) (i b : Nat) : Frame g (g.unmark i b) :=
  (frame_set0 g i b).trans (frame_setCount _ i _)

@[simp] theorem arBitmap_set1 (g : DynMemStruct) (i b : Nat) : (bitmapBitSet1 g i b).arBitmap = g.arBitmap := rfl

@[simp] theorem arBitmap_set0 (g : DynMemStruct) (i b : Nat) : (bitmapBitSet0 g i b).arBitmap = g.arBitmap := rfl

/-- clear the bits of a block and its buddy, and discount them -/
def DynMemStruct.join (g : DynMemStruct) (i b : Nat) : DynMemStruct :=
  (bitmapBitSet0 (bitmapBitSet0 g i (b ^^^ 1)) i b).setCount i (sub32 (g.arBitmap i).count 2)

theorem frame_join (g : DynMemStruct) (i b : Nat) : Frame g (g.join i b) :=
  ((frame_set0 g i (b ^^^ 1)).trans (frame_set0 _ i b)).trans (frame_setCount _ i _)

/-- one round of the splitting loop -/
theorem splitLoop_succ (start n block : Nat) (g : DynMemStruct) : splitLoop start (n+1) block g =
    splitLoop start n (block * 2) (g.mark (start + n) (block * 2 + 1)) := by
  simp only [splitLoop, DynMemStruct.mark, arBitmap_set1]

/-- one round of the joining loop -/
theorem mergeLoop_succ (n now block : Nat) (g : DynMemStruct) : mergeLoop (n+1) now block g =
    if bitmapGetBit g now (block ^^^ 1) = true then
      if g.bitmapLevel ≤ now + 1 then g
      else mergeLoop n (now+1) (block/2) ((g.join now block).mark (now+1) (block/2))
    else g := by
  simp only [mergeLoop, DynMemStruct.join, DynMemStruct.mark, arBitmap_set0, arBitmap_set1]

theorem bit_setCount (g : DynMemStruct) (i n j b : Nat) : (g.setCount i n).bit j b = g.bit j b := by
  show (g.mem (((g.setCount i n).arBitmap j).bits + b / 8)).getLsbD (b % 8) = _
  rw [(frame_setCount g i n).bits j]
  rfl

theorem count_setCount (g : DynMemStruct) (i n j : Nat) :
    ((g.setCount i n).arBitmap j).count = if j = i then n else (g.arBitmap j).count := by
  show (Function.update g.arBitmap i _ j).count = _
  by_cases h : j = i
  · rw [if_pos h, h, Function.update_self]
  · rw [if_neg h, Function.update_of_ne h]

section
variable {g : DynMemStruct} {N : Nat} {T : Nat → Nat → Prop} (h : Tab g N T) {i a : Nat}
  (hi : i < g.bitmapLevel)
include h hi

theorem Tab.mark (ha : a < N / 2^i) (hT : ¬ T i a) :
    Tab (g.mark i a) N (fun j b => T j b ∨ (j = i ∧ b = a)) := by
  have hbit : ∀ j < g.bitmapLevel, ∀ b < 8 * rowLen N j,
      (g.mark i a).bit j b = (g.bit j b || decide (j = i ∧ b = a)) := by
    intro j hj b hb
    show ((bitmapBitSet1 g i a).setCount i _).bit j b = _
    rw [bit_setCount, h.rows.bit_set1 hi (lt_rowLen ha) hj hb]
  refine ⟨h.lt, h.level, h.rows.frame (frame_mark g i a), ?_, ?_, ?_⟩
  · rintro j b (hb | ⟨rfl, rfl⟩)
    · exact h.inside j b hb
    · exact ha
  · intro j hj b hb
    rw [hbit j hj b hb, Bool.or_eq_true, h.bit_iff j hj b hb, decide_eq_true_eq]
  · intro j hj
    show (((bitmapBitSet1 g i a).setCount i _).arBitmap j).count = _
    rw [count_setCount]
    by_cases e : j = i
    · subst e
      have hrow : (g.mark j a).row N j = insert a (g.row N j) := by
        ext b
        simp only [DynMemStruct.row, Finset.mem_filter, Finset.mem_range, Finset.mem_insert]
        constructor
        · rintro ⟨h1, h2⟩
          rw [hbit j hj b (lt_rowLen h1)] at h2
          simp only [true_and, Bool.or_eq_true, decide_eq_true_eq] at h2
          exact h2.symm.imp_right fun h3 => ⟨h1, h3⟩
        · rintro (rfl | ⟨h1, h2⟩)
          · exact ⟨ha, by rw [hbit j hj b (lt_rowLen ha)]; simp⟩
          · exact ⟨h1, by rw [hbit j hj b (lt_rowLen h1), h2]; rfl⟩
      have hnot : a ∉ g.row N j := fun hm => hT ((h.mem_row hj).mp hm)
      have hle : (insert a (g.row N j)).card ≤ N / 2^j := by
        have hsub : insert a (g.row N j) ⊆ Finset.range (N / 2^j) := by
          rw [← hrow]
          exact Finset.filter_subset _ _
        have := Finset.card_le_card hsub
        rwa [Finset.card_range] at this
      rw [if_pos rfl, hrow, h.count j hj]
      rw [Finset.card_insert_of_notMem hnot] at hle ⊢
      have h2 := Nat.div_le_self N (2^j)
      have h3 := h.lt
      exact u32_of_lt (by omega)
    · have hrow : (g.mark i a).row N j = g.row N j := by
        refine Finset.filter_congr fun b hb => ?_
        rw [hbit j hj b (lt_rowLen (Finset.mem_range.mp hb))]
        simp [e]
      rw [if_neg e, hrow]
      exact h.count j hj

theorem Tab.unmark (hT : T i a) :
    Tab (g.unmark i a) N (fun j b => T j b ∧ ¬ (j = i ∧ b = a)) := by
  have ha : a < N / 2^i := h.inside i a hT
  have hbit : ∀ j < g.bitmapLevel, ∀ b < 8 * rowLen N j,
      (g.unmark i a).bit j b = (g.bit j b && !decide (j = i ∧ b = a)) := by
    intro j hj b hb
    show ((bitmapBitSet0 g i a).setCount i _).bit j b = _
    rw [bit_setCount, h.rows.bit_set0 hi (lt_rowLen ha) hj hb]
  refine ⟨h.lt, h.level, h.rows.frame (frame_unmark g i a), ?_, ?_, ?_⟩
  · rintro j b ⟨hb, _⟩
    exact h.inside j b hb
  · intro j hj b hb
    rw [hbit j hj b hb, Bool.and_eq_true, h.bit_iff j hj b hb, Bool.not_eq_true',
      decide_eq_false_iff_not]
  · intro j hj
    show (((bitmapBitSet0 g i a).setCount i _).arBitmap j).count = _
    rw [count_setCount]
    by_cases e : j = i
    · subst e
      have hrow : (g.unmark j a).row N j = (g.row N j).erase a := by
        ext b
        simp only [DynMemStruct.row, Finset.mem_filter, Finset.mem_range, Finset.mem_erase]
        constructor
        · rintro ⟨h1, h2⟩
          rw [hbit j hj b (lt_rowLen h1)] at h2
          simp only [true_and, Bool.and_eq_true, Bool.not_eq_true', decide_eq_false_iff_not] at h2
          exact ⟨h2.2, h1, h2.1⟩
        · rintro ⟨hne, h1, h2⟩
          exact ⟨h1, by rw [hbit j hj b (lt_rowLen h1), h2]; simp [hne]⟩
      have hmem : a ∈ g.row N j := (h.mem_row hj).mpr hT
      have hpos : 1 ≤ (g.row N j).card := Finset.card_pos.mpr ⟨a, hmem⟩
      have hlt := h.count_lt hj
      rw [if_pos rfl, hrow, Finset.card_erase_of_mem hmem]
      rw [h.count j hj] at hlt ⊢
      exact sub32_of_le hpos hlt
    · have hrow : (g.unmark i a).row N j = g.row N j := by
        refine Finset.filter_congr fun b hb => ?_
        rw [hbit j hj b (lt_rowLen (Finset.mem_range.mp hb))]
        simp [e]
      rw [if_neg e, hrow]
      exact h.count j hj

end

/-! ## the search of the allocator -/

/-- the scan stops at a nonzero byte no later than any given one -/
theorem memchr_spec (mem : Nat → BitVec 8) (ecx edi n : Nat) (hn : n < ecx)
    (h : mem (edi + n) ≠ 0#8) :
    ∃ m ≤ n, memchrNotWithoutSize mem ecx edi = edi + m ∧ mem (edi + m) ≠ 0#8 := by
  induction ecx generalizing edi n with
  | zero => omega
  | succ ecx ih =>
    by_cases h0 : mem edi = 0#8
    · cases n with
      | zero => exact absurd h0 h
      | succ n =>
        have e : edi + (n + 1) = (edi + 1) + n := by omega
        obtain ⟨m, hm, e1, h1⟩ := ih (edi + 1) n (by omega) (e ▸ h)
        refine ⟨m + 1, by omega, ?_, ?_⟩
        · show (if mem edi = 0#8 then memchrNotWithoutSize mem ecx (edi + 1) else edi) = _
          rw [if_pos h0, e1]
          omega
        · have e2 : edi + (m + 1) = (edi + 1) + m := by omega
          rwa [e2]
    · refine ⟨0, by omega, ?_, by rwa [Nat.add_zero]⟩
      show (if mem edi = 0#8 then memchrNotWithoutSize mem ecx (edi + 1) else edi) = _
      rw [if_neg h0, Nat.add_zero]

theorem lowestBit_spec {b : BitVec 8} (h : b ≠ 0#8) :
    ∃ num, lowestBit b = some num ∧ num < 8 ∧ b.getLsbD num = true := by
  cases e : lowestBit b with
  | none =>
    have hnone := List.find?_eq_none.mp e
    refine absurd ?_ h
    apply BitVec.eq_of_getLsbD_eq
    intro m hm
    rw [BitVec.getLsbD_zero]
    exact Bool.eq_false_iff.mpr (hnone m (List.mem_range.mpr hm))
  | some num =>
    refine ⟨num, rfl, ?_, List.find?_some e⟩
    exact List.mem_range.mp (List.mem_of_find?_eq_some e)

/-- the byte scan and the bit scan find a bit of a bitmap that has one -/
theorem DynMemStruct.search {g : DynMemStruct} {N i b : Nat} (hN : N < 2^32) (hb : b < 8 * rowLen N i)
    (hbit : g.bit i b = true) : ∃ c, c < 8 * rowLen N i ∧ g.bit i c = true ∧
      memchrNotWithoutSize g.mem 0xffffffff (g.arBitmap i).bits = g.bitAddr i c ∧
      lowestBit (g.mem (g.bitAddr i c)) = some (c % 8) := by
  have hle := Nat.div_le_self N (2^i)
  have hlen : rowLen N i = (N / 2^i - 1) / 8 + 1 := rfl
  have hbyte : g.mem ((g.arBitmap i).bits + b / 8) ≠ 0#8 := by
    intro e
    have h1 : (g.mem ((g.arBitmap i).bits + b / 8)).getLsbD (b % 8) = true := hbit
    rw [e, BitVec.getLsbD_zero] at h1
    exact absurd h1 Bool.false_ne_true
  obtain ⟨m, hm, e1, h1⟩ := memchr_spec g.mem 0xffffffff _ _ (by omega) hbyte
  obtain ⟨num, e2, hnum, h2⟩ := lowestBit_spec h1
  have e3 : (m * 8 + num) / 8 = m := by omega
  have e4 : (m * 8 + num) % 8 = num := by omega
  have e5 : g.bitAddr i (m * 8 + num) = (g.arBitmap i).bits + m := by
    show (g.arBitmap i).bits + (m * 8 + num) / 8 = _
    rw [e3]
  refine ⟨m * 8 + num, by omega, ?_, by rw [e1, e5], by rw [e5, e2, e4]⟩
  show (g.mem (g.bitAddr i (m * 8 + num))).getLsbD ((m * 8 + num) % 8) = true
  rw [e4, e5, h2]

/-- **The scans of the allocator find a marked block**: at a level with a count, the byte found and
the bit found in it are the address and the number of a block of the table. -/
theorem Tab.search {g : DynMemStruct} {N : Nat} {T : Nat → Nat → Prop} (h : Tab g N T) {i : Nat}
    (hi : i < g.bitmapLevel) (hc : (g.arBitmap i).count ≠ 0) :
    ∃ b num, T i b ∧ num = b % 8 ∧
      memchrNotWithoutSize g.mem 0xffffffff (g.arBitmap i).bits = g.bitAddr i b ∧
      lowestBit (g.mem (g.bitAddr i b)) = some num := by
  have hex : ∃ b, T i b := by
    by_contra hno
    exact hc ((h.count_eq_zero_iff hi).mpr fun b hb => hno ⟨b, hb⟩)
  obtain ⟨b, hb⟩ := hex
  have hrow := lt_rowLen (h.inside i b hb)
  obtain ⟨c, hc, hbit, hpb, hlow⟩ := g.search h.lt hrow ((h.bit_iff i hi b hrow).mpr hb)
  exact ⟨c, c % 8, (h.bit_iff i hi c hc).mp hbit, rfl, hpb, hlow⟩

end Clubcos
