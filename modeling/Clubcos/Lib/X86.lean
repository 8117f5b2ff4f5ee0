import Mathlib.Algebra.Group.Nat.Defs
import Mathlib.Logic.Function.Basic

/-!
# String instructions of x86

A memory gives a byte for every 32-bit address, and addresses wrap.  An element of `k` bytes is moved at once: all of it is
read before it is written.

* `repMovs`, `repStos`, `repneScas`   `rep movs`, `rep stos` and `repne scas`; a step is `k` going up and `-k` going down;
* `copied`          a memory in which a range holds what another range held before;
* `repMovs_up`, `repMovs_down`   **a copy in the right direction** leaves what was there before, whatever the overlap;
* `repStos_apply`   **a fill** repeats the element from its first address on, also around the end of the addresses;
* `repneScas_hit`, `repneScas_miss`   **a search** ends behind the first hit; with no element to look at, the zero flag is what it was before.
-/

set_option linter.unusedVariables false

namespace X86

abbrev Mem : Type := BitVec 32 → BitVec 8

/-- `n` bytes from `a` on are written -/
def blit (m : Mem) (a : BitVec 32) (n : Nat) (f : Nat → BitVec 8) : Mem := fun x =>
  if (x - a).toNat < n then f (x - a).toNat else m x

/-- byte `i` of a value, the lowest one first -/
def byteAt {w : Nat} (v : BitVec w) (i : Nat) : BitVec 8 := v.extractLsb' (8 * i) 8

def load32 (m : Mem) (a : BitVec 32) : BitVec 32 := m (a + 3) ++ m (a + 2) ++ m (a + 1) ++ m a

def store16 (m : Mem) (a : BitVec 32) (v : BitVec 16) : Mem := blit m a 2 (byteAt v)

def store32 (m : Mem) (a v : BitVec 32) : Mem := blit m a 4 (byteAt v)

/-! ## instructions -/

/-- `rep movs`: `edi`, `esi` and the memory behind it -/
def repMovs (k : Nat) (step : BitVec 32) : (ecx : Nat) → (edi esi : BitVec 32) → Mem → BitVec 32 × BitVec 32 × Mem
  | 0, edi, esi, m => (edi, esi, m)
  | ecx + 1, edi, esi, m =>
    repMovs k step ecx (edi + step) (esi + step) (blit m edi k fun i => m (esi + BitVec.ofNat 32 i))

/-- `rep stos` going up: `edi` and the memory behind it -/
def repStos {w : Nat} (k : Nat) (v : BitVec w) : (ecx : Nat) → (edi : BitVec 32) → Mem → BitVec 32 × Mem
  | 0, edi, m => (edi, m)
  | ecx + 1, edi, m => repStos k v ecx (edi + BitVec.ofNat 32 k) (blit m edi k (byteAt v))

/-- `repne scas` going up: `edi` and the zero flag behind it -/
def repneScas (k : Nat) (hit : BitVec 32 → Bool) : (ecx : Nat) → (edi : BitVec 32) → (zf : Bool) → BitVec 32 × Bool
  | 0, edi, zf => (edi, zf)
  | ecx + 1, edi, _ =>
    if hit edi then (edi + BitVec.ofNat 32 k, true) else repneScas k hit ecx (edi + BitVec.ofNat 32 k) false

/-! ## addresses -/

theorem add_ofNat_zero (a : BitVec 32) : a + BitVec.ofNat 32 0 = a := BitVec.add_zero a

theorem add_ofNat_add (a : BitVec 32) (i j : Nat) :
    a + BitVec.ofNat 32 i + BitVec.ofNat 32 j = a + BitVec.ofNat 32 (i + j) := by
  rw [BitVec.ofNat_add, BitVec.add_assoc]

theorem add_toNat_sub (a x : BitVec 32) : a + BitVec.ofNat 32 (x - a).toNat = x := by
  rw [BitVec.ofNat_toNat, BitVec.setWidth_eq, BitVec.add_comm, BitVec.sub_add_cancel]

theorem toNat_add_sub {a : BitVec 32} {i : Nat} (h : i < 2^32) : (a + BitVec.ofNat 32 i - a).toNat = i := by
  rw [BitVec.add_comm, BitVec.add_sub_cancel, BitVec.toNat_ofNat, Nat.mod_eq_of_lt h]

/-- how far `x` is behind the address `lo` bytes on -/
theorem toNat_sub_add (a x : BitVec 32) {lo : Nat} (hlo : lo ≤ 2^32) : (x - (a + BitVec.ofNat 32 lo)).toNat =
    if lo ≤ (x - a).toNat then (x - a).toNat - lo else 2^32 + (x - a).toNat - lo := by
  rw [← BitVec.sub_sub]
  generalize x - a = y
  have hy := y.isLt
  rw [BitVec.toNat_sub, BitVec.toNat_ofNat]
  split <;> omega

theorem blit_apply (m : Mem) (a : BitVec 32) {lo n : Nat} (h : lo + n ≤ 2^32) (f : Nat → BitVec 8) (x : BitVec 32) :
    blit m (a + BitVec.ofNat 32 lo) n f x =
      if lo ≤ (x - a).toNat ∧ (x - a).toNat < lo + n then f ((x - a).toNat - lo) else m x := by
  have hx := (x - a).isLt
  unfold blit
  rw [toNat_sub_add a x (by omega)]
  by_cases hle : lo ≤ (x - a).toNat
  · simp only [hle, if_true, true_and]
    by_cases hlt : (x - a).toNat < lo + n
    · rw [if_pos hlt, if_pos (by omega)]
    · rw [if_neg hlt, if_neg (by omega)]
  · simp only [hle, if_false, false_and]
    exact if_neg (by omega)

/-- a count as whole elements of `2^p` and a remainder -/
theorem split_count (count : BitVec 32) {p : Nat} {mask : BitVec 32} (hmask : mask.toNat = 2^p - 1) :
    (count >>> p).toNat * 2^p + (count &&& mask).toNat = count.toNat := by
  rw [BitVec.toNat_ushiftRight, Nat.shiftRight_eq_div_pow, BitVec.toNat_and, hmask, Nat.and_two_pow_sub_one_eq_mod]
  exact Nat.div_add_mod' _ _

/-! ## a copy -/

/-- the bytes from `lo` up to `hi` of the one range have gone to the other -/
def copied (m : Mem) (dest src : BitVec 32) (lo hi : Nat) : Mem := fun x =>
  if lo ≤ (x - dest).toNat ∧ (x - dest).toNat < hi then m (src + (x - dest)) else m x

theorem copied_empty (m : Mem) (dest src : BitVec 32) (i : Nat) : copied m dest src i i = m := by
  funext x
  exact if_neg (by omega)

/-- One element from `t` on, whose bytes have not been written yet, joins the range. -/
theorem blit_copied {m : Mem} {dest src : BitVec 32} {lo hi : Nat} (lo' hi' : Nat) {t k : Nat} (ht : t + k ≤ 2^32)
    (hjoin : ∀ i, lo' ≤ i ∧ i < hi' ↔ (lo ≤ i ∧ i < hi) ∨ (t ≤ i ∧ i < t + k))
    (hread : ∀ i, t ≤ i → i < t + k → copied m dest src lo hi (src + BitVec.ofNat 32 i) = m (src + BitVec.ofNat 32 i)) :
    blit (copied m dest src lo hi) (dest + BitVec.ofNat 32 t) k
        (fun i => copied m dest src lo hi (src + BitVec.ofNat 32 t + BitVec.ofNat 32 i)) = copied m dest src lo' hi' := by
  funext x
  rw [blit_apply _ _ ht]
  by_cases hnew : t ≤ (x - dest).toNat ∧ (x - dest).toNat < t + k
  · have hsum : t + ((x - dest).toNat - t) = (x - dest).toNat := by omega
    rw [if_pos hnew, add_ofNat_add, hsum, hread _ hnew.1 hnew.2, BitVec.ofNat_toNat, BitVec.setWidth_eq]
    exact (if_pos ((hjoin _).mpr (Or.inr hnew))).symm
  · rw [if_neg hnew]
    unfold copied
    by_cases hold : lo ≤ (x - dest).toNat ∧ (x - dest).toNat < hi
    · rw [if_pos hold, if_pos ((hjoin _).mpr (Or.inl hold))]
    · rw [if_neg hold, if_neg fun h => ((hjoin _).mp h).elim hold hnew]

/-- a byte that no byte of the range has gone to -/
theorem copied_out {m : Mem} {dest src x : BitVec 32} {lo hi : Nat} (hhi : hi ≤ 2^32)
    (h : ∀ i, lo ≤ i → i < hi → x ≠ dest + BitVec.ofNat 32 i) : copied m dest src lo hi x = m x := by
  refine if_neg fun hx => h _ hx.1 hx.2 ?_
  exact (add_toNat_sub dest x).symm

/-- **Going up** is right if no byte is written before it is read. -/
theorem repMovs_up (m : Mem) {dest src : BitVec 32} {count : Nat} (k n : Nat) (hcount : count ≤ 2^32)
    (hclear : ∀ i j, i < j → j < count → src + BitVec.ofNat 32 j ≠ dest + BitVec.ofNat 32 i) : ∀ lo : Nat,
      lo + n * k ≤ count → repMovs k (BitVec.ofNat 32 k) n (dest + BitVec.ofNat 32 lo) (src + BitVec.ofNat 32 lo)
        (copied m dest src 0 lo) = (dest + BitVec.ofNat 32 (lo + n * k), src + BitVec.ofNat 32 (lo + n * k),
          copied m dest src 0 (lo + n * k)) := by
  induction n with
  | zero =>
    intro lo hlo
    simp [repMovs]
  | succ n ih =>
    intro lo hlo
    have hsum : lo + (n + 1) * k = lo + k + n * k := by
      rw [Nat.succ_mul, Nat.add_comm (n * k), Nat.add_assoc]
    rw [hsum] at hlo ⊢
    rw [repMovs, blit_copied 0 (lo + k) (by omega) (by omega), add_ofNat_add, add_ofNat_add]
    · exact ih (lo + k) hlo
    · intro i h1 h2
      exact copied_out (by omega) fun j _ hj => hclear j i (by omega) (by omega)

/-- **Going down** is right if no byte is written before it is read. -/
theorem repMovs_down (m : Mem) {dest src : BitVec 32} {count : Nat} (k n : Nat) (hcount : count ≤ 2^32) (hk : k < 2^32)
    (hclear : ∀ i j, j < i → i < count → src + BitVec.ofNat 32 j ≠ dest + BitVec.ofNat 32 i) : ∀ hi : Nat,
      n * k ≤ hi → hi ≤ count → repMovs k (-BitVec.ofNat 32 k) n (dest + BitVec.ofNat 32 hi - BitVec.ofNat 32 k)
        (src + BitVec.ofNat 32 hi - BitVec.ofNat 32 k) (copied m dest src hi count) =
          (dest + BitVec.ofNat 32 (hi - n * k) - BitVec.ofNat 32 k, src + BitVec.ofNat 32 (hi - n * k) - BitVec.ofNat 32 k,
            copied m dest src (hi - n * k) count) := by
  have hback : ∀ (a : BitVec 32) {hi : Nat}, k ≤ hi → a + BitVec.ofNat 32 hi - BitVec.ofNat 32 k =
      a + BitVec.ofNat 32 (hi - k) := by
    intro a hi hle
    have e : BitVec.ofNat 32 hi = BitVec.ofNat 32 (hi - k) + BitVec.ofNat 32 k := by
      rw [← BitVec.ofNat_add, Nat.sub_add_cancel hle]
    rw [e, ← BitVec.add_assoc, BitVec.add_sub_cancel]
  induction n with
  | zero =>
    intro hi hle hhi
    simp [repMovs]
  | succ n ih =>
    intro hi hle hhi
    rw [Nat.succ_mul] at hle
    have hsum : hi - (n + 1) * k = hi - k - n * k := by
      rw [Nat.succ_mul]
      omega
    rw [hsum, repMovs, hback dest (by omega), hback src (by omega),
      blit_copied (hi - k) count (by omega) (by omega), ← BitVec.sub_eq_add_neg, ← BitVec.sub_eq_add_neg]
    · exact ih (hi - k) (by omega) (by omega)
    · intro i h1 h2
      exact copied_out (by omega) fun j hj _ => hclear j i (by omega) (by omega)

/-! ## a fill -/

/-- **A fill** repeats the element. -/
theorem repStos_apply {w k : Nat} (v : BitVec w) (hk : 0 < k) (hdvd : k ∣ 2^32) (n : Nat) : ∀ (edi : BitVec 32) (m : Mem)
    (x : BitVec 32), (repStos k v n edi m).2 x =
      if (x - edi).toNat < n * k then byteAt v ((x - edi).toNat % k) else m x := by
  have hkle : k ≤ 2^32 := Nat.le_of_dvd (by decide) hdvd
  induction n with
  | zero => simp [repStos]
  | succ n ih =>
    intro edi m x
    have hx := (x - edi).isLt
    rw [repStos, ih, toNat_sub_add edi x hkle, Nat.succ_mul]
    unfold blit
    by_cases hle : k ≤ (x - edi).toNat
    · simp only [if_pos hle, if_neg (Nat.not_lt.mpr hle)]
      have hmod : ((x - edi).toNat - k) % k = (x - edi).toNat % k := (Nat.mod_eq_sub_mod hle).symm
      rw [hmod]
      by_cases hlt : (x - edi).toNat < n * k + k
      · rw [if_pos hlt, if_pos (by omega)]
      · rw [if_neg hlt, if_neg (by omega)]
    · -- the element in front, or a later one that has come around to it
      have hlt : (x - edi).toNat < k := Nat.lt_of_not_le hle
      have hmod : (2^32 + (x - edi).toNat - k) % k = (x - edi).toNat % k := by
        obtain ⟨q, hq⟩ := hdvd
        have hq1 : 1 ≤ q := by
          rcases Nat.eq_zero_or_pos q with rfl | h
          · omega
          · exact h
        have e : 2^32 + (x - edi).toNat - k = (x - edi).toNat + k * (q - 1) := by
          rw [Nat.mul_sub, ← hq]
          omega
        rw [e, Nat.add_mul_mod_self_left]
      simp only [if_neg hle, if_pos hlt, hmod]
      rw [if_pos (show (x - edi).toNat < n * k + k by omega)]
      split
      · rfl
      · rw [Nat.mod_eq_of_lt hlt]

theorem repStos_edi {w k : Nat} (v : BitVec w) (n : Nat) : ∀ (edi : BitVec 32) (m : Mem),
    (repStos k v n edi m).1 = edi + BitVec.ofNat 32 (n * k) := by
  induction n with
  | zero => simp [repStos]
  | succ n ih =>
    intro edi m
    rw [repStos, ih, add_ofNat_add, Nat.succ_mul, Nat.add_comm]

/-! ## a search -/

/-- **A search** ends behind the first hit. -/
theorem repneScas_hit {k : Nat} {hit : BitVec 32 → Bool} {i : Nat} : ∀ {n : Nat} {edi : BitVec 32} {zf : Bool}, i < n →
    hit (edi + BitVec.ofNat 32 (i * k)) = true → (∀ j < i, hit (edi + BitVec.ofNat 32 (j * k)) = false) →
      repneScas k hit n edi zf = (edi + BitVec.ofNat 32 (i * k) + BitVec.ofNat 32 k, true) := by
  induction i with
  | zero =>
    intro n edi zf hn hhit _
    obtain ⟨n, rfl⟩ := Nat.exists_eq_succ_of_ne_zero (Nat.ne_of_gt hn)
    rw [Nat.zero_mul, add_ofNat_zero] at hhit ⊢
    rw [repneScas, if_pos hhit]
  | succ i ih =>
    intro n edi zf hn hhit hmiss
    obtain ⟨n, rfl⟩ := Nat.exists_eq_succ_of_ne_zero (Nat.ne_of_gt (Nat.lt_of_le_of_lt (Nat.zero_le _) hn))
    have hnext : ∀ j, edi + BitVec.ofNat 32 ((j + 1) * k) = edi + BitVec.ofNat 32 k + BitVec.ofNat 32 (j * k) := fun j => by
      rw [add_ofNat_add, Nat.succ_mul, Nat.add_comm]
    have hfirst := hmiss 0 (Nat.succ_pos i)
    rw [Nat.zero_mul, add_ofNat_zero] at hfirst
    rw [hnext] at hhit ⊢
    rw [repneScas, if_neg (by simp [hfirst])]
    exact ih (Nat.lt_of_succ_lt_succ hn) hhit fun j hj => hnext j ▸ hmiss (j + 1) (Nat.succ_lt_succ hj)

/-- with no hit, the zero flag is clear if there was anything to look at -/
theorem repneScas_miss {k : Nat} {hit : BitVec 32 → Bool} {n : Nat} : ∀ {edi : BitVec 32} {zf : Bool},
    (∀ j < n, hit (edi + BitVec.ofNat 32 (j * k)) = false) →
      repneScas k hit n edi zf = (edi + BitVec.ofNat 32 (n * k), if n = 0 then zf else false) := by
  induction n with
  | zero => simp [repneScas]
  | succ n ih =>
    intro edi zf hmiss
    have hnext : ∀ j, edi + BitVec.ofNat 32 ((j + 1) * k) = edi + BitVec.ofNat 32 k + BitVec.ofNat 32 (j * k) := fun j => by
      rw [add_ofNat_add, Nat.succ_mul, Nat.add_comm]
    have hfirst := hmiss 0 (Nat.succ_pos n)
    rw [Nat.zero_mul, add_ofNat_zero] at hfirst
    rw [repneScas, if_neg (by simp [hfirst]), ih fun j hj => hnext j ▸ hmiss (j + 1) (Nat.succ_lt_succ hj), ← hnext]
    simp

/-! ## words -/

theorem bytes_append (v : BitVec 32) : byteAt v 3 ++ byteAt v 2 ++ byteAt v 1 ++ byteAt v 0 = v := by
  apply BitVec.eq_of_getLsbD_eq
  intro i hi
  simp only [byteAt, BitVec.getLsbD_append, BitVec.getLsbD_extractLsb']
  by_cases h1 : i < 8
  · simp [h1]
  · by_cases h2 : i - 8 < 8
    · have e : 8 * 1 + (i - 8) = i := by omega
      simp only [h1, h2, if_false, if_true, e, decide_true, Bool.true_and]
    · by_cases h3 : i - 8 - 8 < 8
      · have e : 8 * 2 + (i - 8 - 8) = i := by omega
        simp only [h1, h2, h3, if_false, if_true, e, decide_true, Bool.true_and]
      · have e : 8 * 3 + (i - 8 - 8 - 8) = i := by omega
        have h4 : i - 8 - 8 - 8 < 8 := by omega
        simp only [h1, h2, h3, h4, if_false, e, decide_true, Bool.true_and]

theorem load32_congr {m m' : Mem} {a : BitVec 32} (h : ∀ i < 4, m (a + BitVec.ofNat 32 i) = m' (a + BitVec.ofNat 32 i)) :
    load32 m a = load32 m' a := by
  have h0 := h 0 (by decide)
  rw [add_ofNat_zero] at h0
  have h1 : m (a + 1) = m' (a + 1) := h 1 (by decide)
  have h2 : m (a + 2) = m' (a + 2) := h 2 (by decide)
  have h3 : m (a + 3) = m' (a + 3) := h 3 (by decide)
  unfold load32
  rw [h0, h1, h2, h3]

theorem load32_of_bytes {m : Mem} {a v : BitVec 32} (h : ∀ i < 4, m (a + BitVec.ofNat 32 i) = byteAt v i) :
    load32 m a = v := by
  have h0 := h 0 (by decide)
  rw [add_ofNat_zero] at h0
  have h1 : m (a + 1) = byteAt v 1 := h 1 (by decide)
  have h2 : m (a + 2) = byteAt v 2 := h 2 (by decide)
  have h3 : m (a + 3) = byteAt v 3 := h 3 (by decide)
  unfold load32
  rw [h0, h1, h2, h3]
  exact bytes_append v

end X86
