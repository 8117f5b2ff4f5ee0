import Clubcos.Lib.X86
import Clubcos.Terminal.Array

/-!
# string.asm: copies

* `memcpy_forward`, `memcpy_reverse`   four bytes at a time and a remainder, which comes last going up and first going down;
* `memmove`         string.h, which picks one of them;
* `memmove_moves`   **`memmove` moves** a range wherever the other one lies;
* `memmove_array`   it is what the buffers take it for.
-/

set_option linter.unusedVariables false

namespace Clubcos.Flat
open X86

/-- `cld`, `rep movsd`, `rep movsb` -/
def memcpy_forward (m : Mem) (dest src count : BitVec 32) : Mem × BitVec 32 :=
  let edx := dest
  let eax := count &&& 3
  let ecx := count >>> 2
  let (edi, esi, m) := repMovs 4 4 ecx.toNat dest src m
  let ecx := eax
  let (edi, esi, m) := repMovs 1 1 ecx.toNat edi esi m
  (m, edx)

/-- `std`, `rep movsb`, `rep movsd`, `cld` -/
def memcpy_reverse (m : Mem) (dest src count : BitVec 32) : Mem × BitVec 32 :=
  let edx := dest
  let eax := count - 1
  let esi := src + eax
  let edi := dest + eax
  let eax := (eax + 1) >>> 2
  let ecx := count &&& 3
  let (edi, esi, m) := repMovs 1 (-1) ecx.toNat edi esi m
  let ecx := eax
  let esi := esi - 3
  let edi := edi - 3
  let (edi, esi, m) := repMovs 4 (-4) ecx.toNat edi esi m
  (m, edx)

def memmove (m : Mem) (dest src count : BitVec 32) : Mem × BitVec 32 :=
  if src < dest ∧ dest < src + count then memcpy_reverse m dest src count else memcpy_forward m dest src count

/-! ## both directions -/

variable {m : Mem} {dest src count : BitVec 32}

theorem memcpy_forward_eq
    (hclear : ∀ i j, i < j → j < count.toNat → src + BitVec.ofNat 32 j ≠ dest + BitVec.ofNat 32 i) :
    memcpy_forward m dest src count = (copied m dest src 0 count.toNat, dest) := by
  have hsplit : (count >>> 2).toNat * 4 + (count &&& 3).toNat = count.toNat :=
    split_count count (show (3 : BitVec 32).toNat = 2^2 - 1 from rfl)
  have hlt := count.isLt
  have hwords := repMovs_up m 4 (count >>> 2).toNat (Nat.le_of_lt hlt) hclear 0 (by omega)
  have hbytes := repMovs_up m 1 (count &&& 3).toNat (Nat.le_of_lt hlt) hclear (0 + (count >>> 2).toNat * 4) (by omega)
  rw [copied_empty, add_ofNat_zero, add_ofNat_zero] at hwords
  rw [Nat.zero_add] at hwords hbytes
  rw [Nat.mul_one, hsplit] at hbytes
  unfold memcpy_forward
  simp only [show (4 : BitVec 32) = BitVec.ofNat 32 4 from rfl, show (1 : BitVec 32) = BitVec.ofNat 32 1 from rfl, hwords,
    hbytes]

theorem memcpy_reverse_eq
    (hclear : ∀ i j, j < i → i < count.toNat → src + BitVec.ofNat 32 j ≠ dest + BitVec.ofNat 32 i) :
    memcpy_reverse m dest src count = (copied m dest src 0 count.toNat, dest) := by
  have hsplit : (count >>> 2).toNat * 4 + (count &&& 3).toNat = count.toNat :=
    split_count count (show (3 : BitVec 32).toNat = 2^2 - 1 from rfl)
  have hlt := count.isLt
  have hbytes := repMovs_down m 1 (count &&& 3).toNat (Nat.le_of_lt hlt) (by decide) hclear count.toNat (by omega) (Nat.le_refl _)
  have hwords := repMovs_down m 4 (count >>> 2).toNat (Nat.le_of_lt hlt) (by decide) hclear
    (count.toNat - (count &&& 3).toNat * 1) (by omega) (by omega)
  have hrest : count.toNat - (count &&& 3).toNat * 1 - (count >>> 2).toNat * 4 = 0 := by omega
  have hstart : ∀ a : BitVec 32, a + (count - 1) = a + BitVec.ofNat 32 count.toNat - BitVec.ofNat 32 1 := by
    intro a
    rw [BitVec.ofNat_toNat, BitVec.setWidth_eq, BitVec.sub_eq_add_neg, BitVec.sub_eq_add_neg, BitVec.add_assoc]
    rfl
  have hback : ∀ a : BitVec 32, a - BitVec.ofNat 32 1 - 3 = a - BitVec.ofNat 32 4 := by
    intro a
    rw [BitVec.sub_sub]
    rfl
  rw [copied_empty] at hbytes
  rw [hrest] at hwords
  unfold memcpy_reverse
  simp only [BitVec.sub_add_cancel, hstart, show -(1 : BitVec 32) = -BitVec.ofNat 32 1 from rfl,
    show -(4 : BitVec 32) = -BitVec.ofNat 32 4 from rfl, hbytes, hback, hwords]

/-! ## memmove -/

/-- the `count` bytes from `dest` on are those that were from `src` on, and nothing else is changed -/
structure Moved (m : Mem) (dest src count : BitVec 32) (r : Mem × BitVec 32) : Prop where
  bytes : ∀ i < count.toNat, r.1 (dest + BitVec.ofNat 32 i) = m (src + BitVec.ofNat 32 i)
  others : ∀ x, (∀ i < count.toNat, x ≠ dest + BitVec.ofNat 32 i) → r.1 x = m x
  ret : r.2 = dest

theorem copied_moved (m : Mem) (dest src count : BitVec 32) :
    Moved m dest src count (copied m dest src 0 count.toNat, dest) where
  bytes i hi := by
    have hoff : (dest + BitVec.ofNat 32 i - dest).toNat = i := toNat_add_sub (Nat.lt_trans hi count.isLt)
    have hsrc : dest + BitVec.ofNat 32 i - dest = BitVec.ofNat 32 i := by
      rw [BitVec.add_comm, BitVec.add_sub_cancel]
    simp only [copied]
    rw [hoff, if_pos ⟨Nat.zero_le _, hi⟩, hsrc]
  others x hx := copied_out (Nat.le_of_lt count.isLt) fun i _ hi => hx i hi
  ret := rfl

theorem toNat_ofNat_add (a : BitVec 32) {i n : Nat} (h : a.toNat + n ≤ 2^32) (hi : i < n) :
    (a + BitVec.ofNat 32 i).toNat = a.toNat + i := by
  rw [BitVec.toNat_add, BitVec.toNat_ofNat]
  omega

/-- **`memmove` moves** the bytes, for ranges that overlap in any way and do not wrap. -/
theorem memmove_moves (m : Mem) {dest src count : BitVec 32} (hdest : dest.toNat + count.toNat ≤ 2^32)
    (hsrc : src.toNat + count.toNat ≤ 2^32) : Moved m dest src count (memmove m dest src count) := by
  have hplaces : ∀ i j, i < count.toNat → j < count.toNat → src + BitVec.ofNat 32 j = dest + BitVec.ofNat 32 i →
      src.toNat + j = dest.toNat + i := by
    intro i j hi hj e
    have h := congrArg BitVec.toNat e
    rwa [toNat_ofNat_add src hsrc hj, toNat_ofNat_add dest hdest hi] at h
  unfold memmove
  by_cases hback : src < dest ∧ dest < src + count
  · rw [if_pos hback, memcpy_reverse_eq]
    · exact copied_moved m dest src count
    · intro i j hji hi e
      have h := hplaces i j hi (by omega) e
      have hlt : src.toNat < dest.toNat := hback.1
      omega
  · rw [if_neg hback, memcpy_forward_eq]
    · exact copied_moved m dest src count
    · intro i j hij hj e
      -- the source lies in front, so going up is right only behind its end
      have h := hplaces i j (by omega) hj e
      refine hback ⟨show src.toNat < dest.toNat by omega, show dest.toNat < (src + count).toNat from ?_⟩
      rw [BitVec.toNat_add]
      omega

theorem memmove_moves_overlap :
    Moved (fun x => x.setWidth 8) 0x1002 0x1000 7 (memmove (fun x => x.setWidth 8) 0x1002 0x1000 7) :=
  memmove_moves _ (by decide) (by decide)

/-- **A buffer** in the memory is moved as `memmove` is modelled on its offsets. -/
theorem memmove_array (m : Mem) {base : BitVec 32} {size dest src count : Nat} (hsize : base.toNat + size < 2^32)
    (hdest : dest + count ≤ size) (hsrc : src + count ≤ size) {i : Nat} (hi : i < size) :
    (memmove m (base + BitVec.ofNat 32 dest) (base + BitVec.ofNat 32 src) (BitVec.ofNat 32 count)).1
      (base + BitVec.ofNat 32 i) = Clubcos.memmove (fun i => m (base + BitVec.ofNat 32 i)) dest src count i := by
  have hcount : (BitVec.ofNat 32 count).toNat = count := by
    rw [BitVec.toNat_ofNat]
    omega
  have hat : ∀ j < size + 1, (base + BitVec.ofNat 32 j).toNat = base.toNat + j := fun j hj =>
    toNat_ofNat_add base (show base.toNat + (size + 1) ≤ 2^32 by omega) hj
  have hends : ∀ j, j + count ≤ size → (base + BitVec.ofNat 32 j).toNat + (BitVec.ofNat 32 count).toNat ≤ 2^32 := by
    intro j hj
    rw [hat j (by omega), hcount]
    omega
  have hmoved := memmove_moves m (hends dest hdest) (hends src hsrc)
  rw [Clubcos.memmove]
  by_cases hin : dest ≤ i ∧ i < dest + count
  · have hbytes := hmoved.bytes (i - dest) (by rw [hcount]; omega)
    rw [add_ofNat_add, add_ofNat_add, show dest + (i - dest) = i by omega] at hbytes
    rw [if_pos hin, hbytes]
  · rw [if_neg hin]
    refine hmoved.others _ fun j hj e => hin ?_
    rw [hcount] at hj
    rw [add_ofNat_add] at e
    have h := congrArg BitVec.toNat e
    rw [hat i (by omega), hat (dest + j) (by omega)] at h
    omega

end Clubcos.Flat
