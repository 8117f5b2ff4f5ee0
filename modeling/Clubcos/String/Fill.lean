import Clubcos.Lib.X86

/-!
# string.asm: fills and searches

* `memset`, `memset_2`   a dword that should hold the value in every part is stored first, the remainder behind it;
* `memchr`, `memchr_4`   the zero flag says if there was a hit, also where nothing was looked at;
* `fills_and_searches_iff`   **when they do what they should**: `memset` does not clear the upper half of the value, `memset_2`
  does not either, and a search of no elements answers with the zero flag of before.
-/

set_option linter.unusedVariables false

namespace Clubcos.Flat
open X86

/-- `mov ah, al` -/
def movAhAl (eax : BitVec 32) : BitVec 32 := eax.extractLsb' 16 16 ++ byteAt eax 0 ++ byteAt eax 0

def memset (m : Mem) (dest ch count : BitVec 32) : Mem × BitVec 32 :=
  let ebx := dest
  let eax := movAhAl ch
  let edx := eax
  let eax := eax <<< 16
  let eax := eax ||| edx
  let edx := count
  let ecx := count >>> 2
  let (edi, m) := repStos 4 eax ecx.toNat dest m
  let ecx := edx &&& 3
  let (edi, m) := repStos 1 eax ecx.toNat edi m
  (m, ebx)

def memset_2 (m : Mem) (dest ch count : BitVec 32) : Mem × BitVec 32 :=
  let ebx := dest
  let edx := ch
  let eax := ch <<< 16
  let eax := eax ||| edx
  let edx := count
  let ecx := count >>> 1
  let (edi, m) := repStos 4 eax ecx.toNat dest m
  let ecx := edx &&& 1
  let (edi, m) := repStos 2 eax ecx.toNat edi m
  (m, ebx)

/-- `zf` is the zero flag at the call -/
def memchr (m : Mem) (ptr ch count : BitVec 32) (zf : Bool) : BitVec 32 :=
  let (edi, zf) := repneScas 1 (fun a => m a == ch.setWidth 8) count.toNat ptr zf
  if zf then edi - 1 else 0

def memchr_4 (m : Mem) (ptr ch count : BitVec 32) (zf : Bool) : BitVec 32 :=
  let (edi, zf) := repneScas 4 (fun a => load32 m a == ch) count.toNat ptr zf
  if zf then edi - 4 else 0

/-! ## fills -/

/-- `count` cells of `k` bytes from `dest` on hold `v`, and nothing else is changed -/
structure Filled {w : Nat} (k : Nat) (m : Mem) (dest : BitVec 32) (v : BitVec w) (count : BitVec 32) (r : Mem × BitVec 32) :
    Prop where
  cells : ∀ x, r.1 x = if (x - dest).toNat < count.toNat * k then byteAt v ((x - dest).toNat % k) else m x
  ret : r.2 = dest

/-- the upper half of the value has no bits that bytes 0 and `i` lack -/
def Narrow (i : Nat) (ch : BitVec 32) : Prop :=
  byteAt ch 2 ||| byteAt ch 0 = byteAt ch 0 ∧ byteAt ch 3 ||| byteAt ch i = byteAt ch i

theorem byteAt_getLsbD (v : BitVec 32) (i j : Nat) : (byteAt v i).getLsbD j = (decide (j < 8) && v.getLsbD (8 * i + j)) :=
  BitVec.getLsbD_extractLsb' ..

theorem byteAt_setWidth {w : Nat} (v : BitVec 32) {i : Nat} (h : 8 * i + 8 ≤ w) : byteAt (v.setWidth w) i = byteAt v i := by
  apply BitVec.eq_of_getLsbD_eq
  intro j hj
  simp only [byteAt, BitVec.getLsbD_extractLsb', BitVec.getLsbD_setWidth, show 8 * i + j < w by omega, decide_true, Bool.true_and]

theorem byteAt_widened_low (v : BitVec 32) {i : Nat} (hi : i < 2) : byteAt (v <<< 16 ||| v) i = byteAt v i := by
  apply BitVec.eq_of_getLsbD_eq
  intro j hj
  simp only [byteAt_getLsbD, BitVec.getLsbD_or, BitVec.getLsbD_shiftLeft, show 8 * i + j < 16 by omega, decide_true,
    Bool.not_true, Bool.and_false, Bool.false_and, Bool.false_or]

theorem byteAt_widened_high (v : BitVec 32) {i : Nat} (hi : i < 2) :
    byteAt (v <<< 16 ||| v) (i + 2) = byteAt v (i + 2) ||| byteAt v i := by
  apply BitVec.eq_of_getLsbD_eq
  intro j hj
  have e : 8 * (i + 2) + j - 16 = 8 * i + j := by omega
  simp only [byteAt_getLsbD, BitVec.getLsbD_or, BitVec.getLsbD_shiftLeft, show ¬ 8 * (i + 2) + j < 16 by omega,
    show 8 * (i + 2) + j < 32 by omega, hj, e, decide_true, decide_false, Bool.not_false, Bool.true_and]
  exact Bool.or_comm _ _

theorem byteAt_movAhAl_low (v : BitVec 32) {i : Nat} (hi : i < 2) : byteAt (movAhAl v) i = byteAt v 0 := by
  apply BitVec.eq_of_getLsbD_eq
  intro j hj
  have hcases : i = 0 ∨ i = 1 := by omega
  unfold movAhAl
  rcases hcases with rfl | rfl
  · rw [byteAt_getLsbD, Nat.mul_zero, Nat.zero_add, BitVec.getLsbD_append, if_pos hj]
    simp [hj]
  · rw [byteAt_getLsbD, BitVec.getLsbD_append, if_neg (by omega), BitVec.getLsbD_append, if_pos (by omega)]
    simp [hj]

theorem byteAt_movAhAl_high (v : BitVec 32) {i : Nat} (hi : 2 ≤ i) (hlt : i < 4) : byteAt (movAhAl v) i = byteAt v i := by
  apply BitVec.eq_of_getLsbD_eq
  intro j hj
  have e : 16 + (8 * i + j - 8 - 8) = 8 * i + j := by omega
  unfold movAhAl
  rw [byteAt_getLsbD, byteAt_getLsbD, BitVec.getLsbD_append, if_neg (by omega), BitVec.getLsbD_append, if_neg (by omega),
    BitVec.getLsbD_extractLsb', e]
  simp only [show 8 * i + j - 8 - 8 < 16 by omega, decide_true, Bool.true_and]

/-- a dword `n` times and then `r` smaller elements: right if the dword holds `v` in every part -/
theorem filled_iff {w k n r : Nat} {m : Mem} {dest eax count : BitVec 32} {v : BitVec w} (hk : k = 1 ∨ k = 2)
    (hv : ∀ i < k, byteAt v i = byteAt eax i) (hcount : n * 4 + r * k = count.toNat * k)
    (hr : r * k ≤ k ∨ n * 4 < 2^32) (hrest : r * k < 4) :
    Filled k m dest v count ((repStos k eax r (repStos 4 eax n dest m).1 (repStos 4 eax n dest m).2).2, dest) ↔
      n = 0 ∨ ∀ i < 4, byteAt eax i = byteAt v (i % k) := by
  have hpos : 0 < k := by omega
  have hmod : ∀ i, i % k < k := fun i => Nat.mod_lt i hpos
  have hfour : k ∣ 4 := by rcases hk with rfl | rfl <;> decide
  -- the remainder starts at a multiple of four
  have hoff : ∀ x : BitVec 32, (x - (dest + BitVec.ofNat 32 (n * 4))).toNat =
      (2^32 - n * 4 % 2^32 + (x - dest).toNat) % 2^32 := by
    intro x
    rw [← BitVec.sub_sub, BitVec.toNat_sub, BitVec.toNat_ofNat]
  have hval : ∀ x : BitVec 32, (repStos k eax r (repStos 4 eax n dest m).1 (repStos 4 eax n dest m).2).2 x =
      if (x - (dest + BitVec.ofNat 32 (n * 4))).toNat < r * k then
        byteAt eax ((x - (dest + BitVec.ofNat 32 (n * 4))).toNat % k)
      else if (x - dest).toNat < n * 4 then byteAt eax ((x - dest).toNat % 4) else m x := by
    intro x
    rw [repStos_edi, repStos_apply eax hpos (Nat.dvd_trans hfour (by decide)), repStos_apply eax (by decide) (by decide)]
  constructor
  · intro h
    rcases Nat.eq_zero_or_pos n with h0 | hn
    · exact Or.inl h0
    · refine Or.inr fun i hi => ?_
      rcases Nat.lt_or_ge i k with hik | hik
      · rw [Nat.mod_eq_of_lt hik]
        exact (hv i hik).symm
      · have hx := h.cells (dest + BitVec.ofNat 32 i)
        simp only [hval, hoff, toNat_add_sub (show i < 2^32 by omega)] at hx
        rw [if_neg (by rcases hk with rfl | rfl <;> omega), if_pos (by omega), if_pos (by omega), Nat.mod_eq_of_lt hi] at hx
        exact hx
  · intro h
    refine ⟨fun x => ?_, rfl⟩
    have hlt := (x - dest).isLt
    refine (hval x).trans ?_
    by_cases hd : (x - (dest + BitVec.ofNat 32 (n * 4))).toNat < r * k
    · have hin : (x - dest).toNat < count.toNat * k ∧
          (x - (dest + BitVec.ofNat 32 (n * 4))).toNat % k = (x - dest).toNat % k := by
        rw [hoff] at hd ⊢
        rcases hk with rfl | rfl <;> omega
      rw [if_pos hd, if_pos hin.1, hin.2, hv _ (hmod _)]
    · rw [if_neg hd]
      by_cases hin : (x - dest).toNat < n * 4
      · have hall := h.resolve_left (by omega) ((x - dest).toNat % 4) (Nat.mod_lt _ (by decide))
        rw [if_pos hin, if_pos (by omega), hall, Nat.mod_mod_of_dvd _ hfour]
      · rw [if_neg hin, if_neg]
        rw [hoff] at hd
        omega

theorem memset_filled_iff (m : Mem) (dest ch count : BitVec 32) :
    Filled 1 m dest (ch.setWidth 8) count (memset m dest ch count) ↔ count.toNat < 4 ∨ Narrow 0 ch := by
  have hsplit := split_count count (show (3 : BitVec 32).toNat = 2^2 - 1 from rfl)
  have hrest : (count &&& 3).toNat ≤ 3 := Nat.le_trans (by rw [BitVec.toNat_and]; exact Nat.and_le_right) (Nat.le_refl 3)
  have hlt := count.isLt
  have hlow : ∀ i < 2, byteAt (movAhAl ch <<< 16 ||| movAhAl ch) i = byteAt ch 0 := by
    intro i hi
    rw [byteAt_widened_low _ hi, byteAt_movAhAl_low _ hi]
  have hhigh : ∀ i < 2, byteAt (movAhAl ch <<< 16 ||| movAhAl ch) (i + 2) = byteAt ch (i + 2) ||| byteAt ch 0 := by
    intro i hi
    rw [byteAt_widened_high _ hi, byteAt_movAhAl_low _ hi, byteAt_movAhAl_high _ (by omega) (by omega)]
  have hv : byteAt (ch.setWidth 8) 0 = byteAt ch 0 := byteAt_setWidth ch (by decide)
  unfold memset
  simp only
  rw [filled_iff (Or.inl rfl) (fun i hi => by rw [hlow i (by omega), show i = 0 by omega, hv]) (by omega)
    (Or.inr (by omega)) (by omega)]
  refine or_congr (by omega) ⟨fun h => ?_, fun h i hi => ?_⟩
  · have h2 := h 2 (by decide)
    have h3 := h 3 (by decide)
    rw [hhigh 0 (by decide), Nat.mod_one, hv] at h2
    rw [hhigh 1 (by decide), Nat.mod_one, hv] at h3
    exact ⟨h2, h3⟩
  · rw [Nat.mod_one, hv]
    rcases Nat.lt_or_ge i 2 with h1 | h1
    · exact hlow i h1
    · rcases (show i = 0 + 2 ∨ i = 1 + 2 by omega) with rfl | rfl
      · exact (hhigh 0 (by decide)).trans h.1
      · exact (hhigh 1 (by decide)).trans h.2

theorem memset_2_filled_iff (m : Mem) (dest ch count : BitVec 32) :
    Filled 2 m dest (ch.setWidth 16) count (memset_2 m dest ch count) ↔ count.toNat < 2 ∨ Narrow 1 ch := by
  have hsplit := split_count count (show (1 : BitVec 32).toNat = 2^1 - 1 from rfl)
  have hrest : (count &&& 1).toNat ≤ 1 := Nat.le_trans (by rw [BitVec.toNat_and]; exact Nat.and_le_right) (Nat.le_refl 1)
  have hv : ∀ i < 2, byteAt (ch.setWidth 16) i = byteAt ch i := fun i hi => byteAt_setWidth ch (by omega)
  unfold memset_2
  simp only
  rw [filled_iff (Or.inr rfl) (fun i hi => by rw [byteAt_widened_low _ hi, hv i hi]) (by omega) (Or.inl (by omega))
    (by omega)]
  refine or_congr (by omega) ⟨fun h => ?_, fun h i hi => ?_⟩
  · have h2 := h (0 + 2) (by decide)
    have h3 := h (1 + 2) (by decide)
    rw [byteAt_widened_high _ (by decide), hv _ (by decide)] at h2 h3
    exact ⟨h2, h3⟩
  · rw [hv _ (Nat.mod_lt i (by decide))]
    rcases Nat.lt_or_ge i 2 with h1 | h1
    · rw [byteAt_widened_low _ h1, Nat.mod_eq_of_lt h1]
    · rcases (show i = 0 + 2 ∨ i = 1 + 2 by omega) with rfl | rfl
      · exact (byteAt_widened_high ch (by decide)).trans h.1
      · exact (byteAt_widened_high ch (by decide)).trans h.2

/-! ## searches -/

/-- the first of `count` elements of `k` bytes that passes, `NULL` if none does -/
def firstHit (k : Nat) (hit : BitVec 32 → Bool) (ptr count : BitVec 32) : BitVec 32 :=
  match (List.range count.toNat).find? fun i => hit (ptr + BitVec.ofNat 32 (i * k)) with
  | some i => ptr + BitVec.ofNat 32 (i * k)
  | none => 0

/-- **A search** is right unless it looks at nothing and the zero flag happens to be set. -/
theorem search_iff (k : Nat) (hit : BitVec 32 → Bool) (ptr count : BitVec 32) (zf : Bool) :
    (if (repneScas k hit count.toNat ptr zf).2 then (repneScas k hit count.toNat ptr zf).1 - BitVec.ofNat 32 k else 0) =
      firstHit k hit ptr count ↔ count ≠ 0 ∨ zf = false ∨ ptr = BitVec.ofNat 32 k := by
  have hzero : count.toNat = 0 ↔ count = 0 := BitVec.toNat_inj (y := 0)
  unfold firstHit
  cases hfind : (List.range count.toNat).find? fun i => hit (ptr + BitVec.ofNat 32 (i * k)) with
  | some i =>
    obtain ⟨hhit, hmem, hmiss⟩ := List.find?_range_eq_some.mp hfind
    have hi := List.mem_range.mp hmem
    rw [repneScas_hit hi hhit fun j hj => by simpa using hmiss j hj]
    simp only [if_true, BitVec.add_sub_cancel, true_iff]
    exact Or.inl fun h => by rw [hzero.mpr h] at hi; exact Nat.not_lt_zero i hi
  | none =>
    have hmiss := List.find?_range_eq_none.mp hfind
    rw [repneScas_miss fun j hj => by simpa using hmiss j hj]
    by_cases h : count = 0#32
    · subst h
      cases zf with
      | false => simp
      | true => simp [BitVec.sub_eq_iff_eq_add]
    · simp [hzero, h]

/-- **The fills and the searches** do what they should exactly so far: the fills for narrow values and where no dword is stored,
the searches where there is an element to look at, the zero flag is clear, or what is in front of the first element is `NULL`. -/
theorem fills_and_searches_iff (m : Mem) (ptr ch count : BitVec 32) (zf : Bool) :
    (Filled 1 m ptr (ch.setWidth 8) count (memset m ptr ch count) ↔ count.toNat < 4 ∨ Narrow 0 ch) ∧
    (Filled 2 m ptr (ch.setWidth 16) count (memset_2 m ptr ch count) ↔ count.toNat < 2 ∨ Narrow 1 ch) ∧
    (memchr m ptr ch count zf = firstHit 1 (fun a => m a == ch.setWidth 8) ptr count ↔
      count ≠ 0 ∨ zf = false ∨ ptr = 1) ∧
    (memchr_4 m ptr ch count zf = firstHit 4 (fun a => load32 m a == ch) ptr count ↔
      count ≠ 0 ∨ zf = false ∨ ptr = 4) :=
  ⟨memset_filled_iff m ptr ch count, memset_2_filled_iff m ptr ch count, search_iff 1 _ ptr count zf,
    search_iff 4 _ ptr count zf⟩

/-- **Four bytes of a negative character**, two of which are all ones, and a search of nothing that finds what is in front. -/
theorem negative_character_widened :
    ¬ Filled 1 (fun _ => 0) 0x500 ((0xffffff80 : BitVec 32).setWidth 8) 4 (memset (fun _ => 0) 0x500 0xffffff80 4) ∧
    memchr (fun _ => 0) 0x500 0 0 true ≠ firstHit 1 (fun a => (fun _ => 0 : Mem) a == (0 : BitVec 32).setWidth 8) 0x500 0 := by
  constructor
  · intro h
    exact absurd (h.cells 0x502) (by decide +kernel)
  · decide

/-! ## an array -/

structure Array8 where
  buf : BitVec 32
  now : BitVec 32

def ckArray8Find (m : Mem) (pArr : Array8) (data : BitVec 8) (zf : Bool) : BitVec 32 :=
  memchr m pArr.buf (data.setWidth 32) (pArr.now - pArr.buf) zf

/-- **An element of the array**; an empty one may seem to have an element in front of its buffer. -/
theorem ckArray8Find_iff (m : Mem) (pArr : Array8) (data : BitVec 8) (zf : Bool) :
    ckArray8Find m pArr data zf = firstHit 1 (fun a => m a == data) pArr.buf (pArr.now - pArr.buf) ↔
      pArr.now ≠ pArr.buf ∨ zf = false ∨ pArr.buf = 1 := by
  have hdata : (data.setWidth 32).setWidth 8 = data := BitVec.setWidth_setWidth_of_le data (by decide)
  have hsize : pArr.now - pArr.buf ≠ 0 ↔ pArr.now ≠ pArr.buf := by
    rw [ne_eq, BitVec.sub_eq_iff_eq_add, show (0 : BitVec 32) + pArr.buf = pArr.buf from BitVec.zero_add _]
  unfold ckArray8Find memchr
  rw [hdata, ← hsize]
  exact search_iff 1 _ pArr.buf (pArr.now - pArr.buf) zf

end Clubcos.Flat
