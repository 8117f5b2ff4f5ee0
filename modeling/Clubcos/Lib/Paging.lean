import Clubcos.Lib.X86

/-!
# Paging of x86

* `storeWords`      a range of words; `load32_storeWords` reads one back;
* `translate`       the walk through the page directory and the page tables, `none` where it ends in a page fault;
* `Linked`          a page table lies in a row of tables, at the place of its number;
* `translate_linked`   **the walk** then needs the entry with the number of the page only.
-/

set_option linter.unusedVariables false

namespace X86

/-- `n` words from `a` on are written -/
def storeWords (m : Mem) (a : BitVec 32) (n : Nat) (f : Nat → BitVec 32) : Mem :=
  blit m a (4 * n) fun i => byteAt (f (i / 4)) (i % 4)

theorem storeWords_zero (m : Mem) (a : BitVec 32) (f : Nat → BitVec 32) : storeWords m a 0 f = m := by
  funext x
  simp [storeWords, blit]

theorem store32_eq (m : Mem) (a v : BitVec 32) : store32 m a v = storeWords m a 1 fun _ => v := by
  funext x
  unfold store32 storeWords blit
  by_cases h : (x - a).toNat < 4
  · rw [if_pos h, if_pos h]
    simp only [Nat.mod_eq_of_lt h]
  · rw [if_neg h, if_neg h]

theorem storeWords_cons (m : Mem) (a : BitVec 32) {n : Nat} (hn : 4 * (n + 1) ≤ 2^32) (f : Nat → BitVec 32) :
    storeWords (store32 m a (f 0)) (a + BitVec.ofNat 32 4) n (fun i => f (i + 1)) = storeWords m a (n + 1) f := by
  funext x
  have hx := (x - a).isLt
  unfold storeWords store32
  rw [blit_apply _ _ (show 4 + 4 * n ≤ 2^32 by omega)]
  unfold blit
  rcases Nat.lt_or_ge (x - a).toNat 4 with h4 | h4
  · have hdiv : (x - a).toNat / 4 = 0 := by omega
    rw [if_neg (by omega), if_pos h4, if_pos (by omega)]
    simp only [hdiv, Nat.mod_eq_of_lt h4]
  · have hdiv : ((x - a).toNat - 4) / 4 + 1 = (x - a).toNat / 4 := by omega
    have hmod : ((x - a).toNat - 4) % 4 = (x - a).toNat % 4 := by omega
    by_cases hin : (x - a).toNat < 4 * (n + 1)
    · rw [if_pos (by omega), if_pos hin]
      simp only [hdiv, hmod]
    · rw [if_neg (by omega), if_neg (by omega), if_neg hin]

theorem repStos_words (v : BitVec 32) (n : Nat) (edi : BitVec 32) (m : Mem) :
    repStos 4 v n edi m = (edi + BitVec.ofNat 32 (4 * n), storeWords m edi n fun _ => v) := by
  refine Prod.ext ?_ (funext fun x => ?_)
  · rw [repStos_edi, Nat.mul_comm]
  · rw [repStos_apply v (by decide) (by decide), Nat.mul_comm]
    rfl

theorem load32_storeWords (m : Mem) (a : BitVec 32) {lo n w : Nat} (hn : 4 * (lo + n) ≤ 2^32) (hw : 4 * (w + 1) ≤ 2^32)
    (f : Nat → BitVec 32) :
    load32 (storeWords m (a + BitVec.ofNat 32 (4 * lo)) n f) (a + BitVec.ofNat 32 (4 * w)) =
      if lo ≤ w ∧ w < lo + n then f (w - lo) else load32 m (a + BitVec.ofNat 32 (4 * w)) := by
  have hbyte : ∀ i < 4, storeWords m (a + BitVec.ofNat 32 (4 * lo)) n f (a + BitVec.ofNat 32 (4 * w) + BitVec.ofNat 32 i) =
      if lo ≤ w ∧ w < lo + n then byteAt (f (w - lo)) i else m (a + BitVec.ofNat 32 (4 * w) + BitVec.ofNat 32 i) := by
    intro i hi
    unfold storeWords
    rw [blit_apply _ _ (by omega), add_ofNat_add, toNat_add_sub (by omega)]
    by_cases hin : lo ≤ w ∧ w < lo + n
    · have hdiv : (4 * w + i - 4 * lo) / 4 = w - lo := by omega
      have hmod : (4 * w + i - 4 * lo) % 4 = i := by omega
      rw [if_pos (by omega), if_pos hin]
      simp only [hdiv, hmod]
    · rw [if_neg (by omega), if_neg hin]
  by_cases hin : lo ≤ w ∧ w < lo + n
  · rw [if_pos hin]
    exact load32_of_bytes fun i hi => (hbyte i hi).trans (if_pos hin)
  · rw [if_neg hin]
    exact load32_congr fun i hi => (hbyte i hi).trans (if_neg hin)

/-! ## the walk -/

def present (e : BitVec 32) : Prop := e.getLsbD 0 = true

instance (e : BitVec 32) : Decidable (present e) := by unfold present; infer_instance

/-- the address of a page or a page table in an entry -/
def frame (e : BitVec 32) : BitVec 32 := e >>> 12 <<< 12

/-- an entry of the directory for a page of 4 MiB, if these are enabled -/
def large (pse : Bool) (e : BitVec 32) : Bool := pse && e.getLsbD 7

/-- the physical address of a linear one -/
def translate (pse : Bool) (m : Mem) (cr3 a : BitVec 32) : Option (BitVec 32) :=
  let pde := load32 m (frame cr3 + (a >>> 22) <<< 2)
  if present pde then
    if large pse pde then some (pde >>> 22 <<< 22 + (a &&& 0x3fffff))
    else
      let pte := load32 m (frame pde + (a >>> 12 &&& 0x3ff) <<< 2)
      if present pte then some (frame pte + (a &&& 0xfff)) else none
  else none

/-- a store through the page tables -/
def storeLinear (pse : Bool) (m : Mem) (cr3 a v : BitVec 32) : Option Mem := (translate pse m cr3 a).map fun p => store32 m p v

/-! ## entries -/

theorem present_iff (e : BitVec 32) : present e ↔ e.toNat % 2 = 1 := by
  unfold present
  rw [BitVec.getLsbD, Nat.testBit_zero, decide_eq_true_iff]

theorem frame_toNat (e : BitVec 32) : (frame e).toNat = e.toNat / 4096 * 4096 := by
  have he := e.isLt
  unfold frame
  rw [BitVec.toNat_shiftLeft, BitVec.toNat_ushiftRight, Nat.shiftRight_eq_div_pow, Nat.shiftLeft_eq]
  omega

theorem large_eq (pse : Bool) {e : BitVec 32} (h : e.toNat / 128 % 2 = 0) : large pse e = false := by
  unfold large
  rw [BitVec.getLsbD, Nat.testBit_eq_decide_div_mod_eq]
  simp [h]

theorem offset_toNat (a : BitVec 32) : (a &&& 0xfff).toNat = a.toNat % 4096 := by
  rw [BitVec.toNat_and]
  exact Nat.and_two_pow_sub_one_eq_mod a.toNat 12

/-! ## tables in a row -/

def pde (m : Mem) (cr3 : BitVec 32) (d : Nat) : BitVec 32 := load32 m (frame cr3 + BitVec.ofNat 32 (4 * d))

def pte (m : Mem) (tables : BitVec 32) (t : Nat) : BitVec 32 := load32 m (tables + BitVec.ofNat 32 (4 * t))

/-- entry `d` of the directory is for the page table with that number -/
structure Linked (pse : Bool) (m : Mem) (cr3 tables : BitVec 32) (d : Nat) : Prop where
  present : present (pde m cr3 d)
  small : large pse (pde m cr3 d) = false
  frame : frame (pde m cr3 d) = tables + BitVec.ofNat 32 (4096 * d)

theorem translate_eq (pse : Bool) (m : Mem) (cr3 a : BitVec 32) : translate pse m cr3 a =
    if present (pde m cr3 (a.toNat / 2^22)) then
      if large pse (pde m cr3 (a.toNat / 2^22)) then
        some (pde m cr3 (a.toNat / 2^22) >>> 22 <<< 22 + (a &&& 0x3fffff))
      else
        let pte := load32 m (frame (pde m cr3 (a.toNat / 2^22)) + (a >>> 12 &&& 0x3ff) <<< 2)
        if present pte then some (frame pte + (a &&& 0xfff)) else none
    else none := by
  have hindex : (a >>> 22) <<< 2 = BitVec.ofNat 32 (4 * (a.toNat / 2^22)) := by
    apply BitVec.eq_of_toNat_eq
    rw [BitVec.toNat_shiftLeft, BitVec.toNat_ushiftRight, Nat.shiftRight_eq_div_pow, Nat.shiftLeft_eq, BitVec.toNat_ofNat,
      Nat.mul_comm]
  unfold translate
  rw [hindex]
  rfl

/-- **The walk** needs the entry with the number of the page only. -/
theorem translate_linked {pse : Bool} {m : Mem} {cr3 tables a : BitVec 32} (h : Linked pse m cr3 tables (a.toNat / 2^22)) :
    translate pse m cr3 a = if present (pte m tables (a.toNat / 4096)) then
      some (frame (pte m tables (a.toNat / 4096)) + (a &&& 0xfff)) else none := by
  have hindex : BitVec.ofNat 32 (4096 * (a.toNat / 2^22)) + (a >>> 12 &&& 0x3ff) <<< 2 =
      BitVec.ofNat 32 (4 * (a.toNat / 4096)) := by
    have ha := a.isLt
    have hand : (a >>> 12 &&& 0x3ff).toNat = a.toNat / 4096 % 1024 := by
      rw [BitVec.toNat_and, BitVec.toNat_ushiftRight, Nat.shiftRight_eq_div_pow]
      exact Nat.and_two_pow_sub_one_eq_mod _ 10
    apply BitVec.eq_of_toNat_eq
    rw [BitVec.toNat_add, BitVec.toNat_shiftLeft, hand, Nat.shiftLeft_eq, BitVec.toNat_ofNat, BitVec.toNat_ofNat]
    omega
  rw [translate_eq, if_pos h.present, if_neg (by rw [h.small]; exact Bool.false_ne_true), h.frame, BitVec.add_assoc, hindex]
  rfl

theorem translate_page {pse : Bool} {m : Mem} {cr3 tables a p : BitVec 32} (h : Linked pse m cr3 tables (a.toNat / 2^22))
    (hpresent : (pte m tables (a.toNat / 4096)).toNat % 2 = 1)
    (hp : p.toNat = (pte m tables (a.toNat / 4096)).toNat / 4096 * 4096 + a.toNat % 4096) : translate pse m cr3 a = some p := by
  rw [translate_linked h, if_pos ((present_iff _).mpr hpresent)]
  refine congrArg some (BitVec.eq_of_toNat_eq ?_)
  rw [BitVec.toNat_add, frame_toNat, offset_toNat, ← hp]
  exact Nat.mod_eq_of_lt p.isLt

end X86
