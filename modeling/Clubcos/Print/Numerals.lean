import Mathlib.Tactic.Ring
import Clubcos.Lib.Numeral
import Clubcos.Print.Text

/-!
# Integers, printed and read again

* `atoi`                     string.c;
* `numberIndices`            where `number` reads the digit table;
* `digitLoop_numeral`        the digits of a number that is not negative, the last one first;
* `atoi_numeral`             a numeral is read as its value, in 32 bits;
* `integers_round_trip_iff`  **integers come back** from their texts, and no read of the table is out of range, but for the least
                             signed one.
-/

set_option linter.unusedVariables false

namespace Clubcos
open Word Numeral

/-! ## string.c -/

/-- `" \t\n\v\f\r"` -/
def spaces (i : Nat) : Byte := [0x20, 0x09, 0x0a, 0x0b, 0x0c, 0x0d].getD i 0

def isspace (c : Byte) : Bool := (strchr spaces c 7 0).isSome

def atoiLoop (ret : Int) : List Byte → Int
  | [] => ret
  | c :: str => if isdigit c then atoiLoop (int32 (int32 (ret * 10) + (c.toNat - 0x30))) str else ret

def atoi (str : List Byte) : Int :=
  match str.dropWhile isspace with
  | [] => 0
  | c :: str =>
    if c = chr '+' then atoiLoop 0 str
    else if c = chr '-' then int32 (-atoiLoop 0 str)
    else atoiLoop 0 (c :: str)

/-! ## the digit table -/

/-- the indices of `digitLoop` -/
def digitIndices (base : Int) : (rounds : Nat) → Int → List Int
  | 0, _ => []
  | rounds + 1, num => num.tmod base :: if num.tdiv base = 0 then [] else digitIndices base rounds (num.tdiv base)

/-- the indices of the digits and of the `'x'` in the prefix -/
def numberIndices (num : BitVec 32) (base : Int) (type : Flags) : List Int :=
  let n := if type.sign && decide (num.toInt < 0) then int32 (-num.toInt) else num.toInt
  (if n = 0 then [] else if type.sign then digitIndices base 129 n else digitIndices base 129 num.toNat) ++
    if type.special ∧ base = 16 then [33] else []

/-- every read is inside the table of 36 digits -/
def DigitsInside (num : BitVec 32) (base : Int) (type : Flags) : Prop := ∀ k ∈ numberIndices num base type, 0 ≤ k ∧ k < 36

/-- no read is outside the table, and so nothing that stands in front of it is printed -/
def TableOnly (num : BitVec 32) (base : Int) (type : Flags) : Prop := DigitsInside num base type ∧
  ∀ front front' size precision, number front num base size precision type = number front' num base size precision type

theorem digitLoop_indices (dig : Int → Byte) (base : Int) (rounds : Nat) : ∀ num,
    digitLoop dig base rounds num = (digitIndices base rounds num).map dig := by
  induction rounds with
  | zero => simp [digitLoop, digitIndices]
  | succ rounds ih =>
    intro num
    rw [digitLoop, digitIndices, List.map_cons]
    split
    · simp
    · rw [ih]

/-- **What is in front of the table** does not matter to a number whose reads are inside it. -/
theorem number_inside {num : BitVec 32} {base : Int} {type : Flags} (h : DigitsInside num base type)
    (front front' : Nat → Byte) (size precision : Int) :
    number front num base size precision type = number front' num base size precision type := by
  have hdig : ∀ k : Int, 0 ≤ k → digitAt front type.large k = digitAt front' type.large k := fun k hk => by
    rw [digitAt, digitAt, if_neg (Int.not_lt.mpr hk), if_neg (Int.not_lt.mpr hk)]
  have hloop : ∀ n, n = (if type.sign && decide (num.toInt < 0) then int32 (-num.toInt) else num.toInt) →
      (if n = 0 then [chr '0']
        else if type.sign then digitLoop (digitAt front type.large) base 129 n
        else digitLoop (digitAt front type.large) base 129 num.toNat) =
      if n = 0 then [chr '0']
        else if type.sign then digitLoop (digitAt front' type.large) base 129 n
        else digitLoop (digitAt front' type.large) base 129 num.toNat := by
    intro n hn
    unfold DigitsInside numberIndices at h
    simp only [← hn, digitLoop_indices] at h ⊢
    split_ifs with h0 hs
    · rfl
    · exact List.map_congr_left fun k hk => hdig k (h k (List.mem_append_left _ (by simpa [h0, hs] using hk))).1
    · exact List.map_congr_left fun k hk => hdig k (h k (List.mem_append_left _ (by simpa [h0, hs] using hk))).1
  unfold number
  generalize hsign : (if type.sign then
      if num.toInt < 0 then ([chr '-'], int32 (-num.toInt), int32 (size - 1))
      else if type.plus then ([chr '+'], num.toInt, int32 (size - 1))
      else if type.space then ([chr ' '], num.toInt, int32 (size - 1))
      else ([], num.toInt, size)
    else ([], num.toInt, size)) = r
  have hn : r.2.1 = (if type.sign && decide (num.toInt < 0) then int32 (-num.toInt) else num.toInt) := by
    rw [← hsign]
    cases type.sign with
    | false => simp
    | true =>
      by_cases hneg : num.toInt < 0
      · simp [hneg]
      · simp only [if_true, if_neg hneg, decide_eq_false hneg, Bool.and_false, Bool.false_eq_true, if_false]
        split_ifs <;> rfl
  obtain ⟨sign, n, size'⟩ := r
  simp only [hloop n hn]

/-! ## digits -/

/-- the digit `d` of the table -/
def digitChar (large : Bool) (d : Nat) : Byte := digitAt (fun _ => 0) large d

theorem digitAt_nat (front : Nat → Byte) (large : Bool) (d : Nat) : digitAt front large d = digitChar large d := by
  have hd : ¬ (d : Int) < 0 := by omega
  rw [digitChar, digitAt, digitAt, if_neg hd, if_neg hd]

theorem digitIndices_digits {b : Nat} (hb : 1 < b) {rounds : Nat} : ∀ {n : Nat}, n ≠ 0 → (Nat.digits b n).length ≤ rounds →
    digitIndices b rounds n = (Nat.digits b n).map (Nat.cast : Nat → Int) := by
  induction rounds with
  | zero =>
    intro n hn hlen
    exact absurd (List.length_eq_zero_iff.mp (Nat.le_zero.mp hlen)) (Nat.digits_ne_nil_iff_ne_zero.mpr hn)
  | succ rounds ih =>
    intro n hn hlen
    rw [Nat.digits_eq_cons_digits_div hb hn] at hlen ⊢
    rw [digitIndices, List.map_cons, ← Int.ofNat_tmod, ← Int.ofNat_tdiv]
    congr 1
    by_cases h0 : n / b = 0
    · simp [h0]
    · rw [if_neg (by exact_mod_cast h0), ih h0 (Nat.le_of_succ_le_succ hlen)]

/-- the digits of a number of at most 129 digits, as `number` turns them round -/
theorem tmp_numeral (front : Nat → Byte) (large : Bool) {b : Nat} (hb : 1 < b) {n : Nat} (hn : n < b ^ 129) :
    (if (n : Int) = 0 then [chr '0'] else digitLoop (digitAt front large) b 129 n).reverse =
      (numeral b n).map (digitChar large) := by
  unfold numeral
  by_cases h0 : n = 0
  · rw [if_pos h0, if_pos (by rw [h0]; rfl)]
    cases large <;> rfl
  · have hlen := (Nat.digits_length_le_iff hb n).mpr hn
    rw [if_neg h0, if_neg (by exact_mod_cast h0), digitLoop_indices, digitIndices_digits hb h0 hlen, List.map_map,
      List.map_reverse]
    exact congrArg List.reverse (List.map_congr_left fun d _ => digitAt_nat front large d)

/-! ## a number without width, precision and flags -/

def Flags.plain (sign large : Bool) : Flags := ⟨false, sign, false, false, false, false, large⟩

theorem int32_small {x : Int} (h1 : -2^31 ≤ x) (h2 : x < 2^31) : int32 x = x := by
  exact Int.bmod_eq_of_le h1 h2

theorem countDown_none {m n : Int} (h : n ≤ m) : countDown m n = (0, int32 (n - 1)) := if_neg (Int.not_lt.mpr h)

theorem digitLoop_length (dig : Int → Byte) (base : Int) (rounds : Nat) : ∀ num,
    (digitLoop dig base rounds num).length ≤ rounds := by
  induction rounds with
  | zero => simp [digitLoop]
  | succ rounds ih =>
    intro num
    rw [digitLoop]
    split
    · simp
    · simpa using ih _

/-- the sign and the digits, and nothing else -/
theorem number_plain (front : Nat → Byte) (num : BitVec 32) (base : Int) (sign large : Bool) :
    number front num base (-1) (-1) (.plain sign large) = .number
      (if sign ∧ num.toInt < 0 then [chr '-'] else []) false
      (if (if sign ∧ num.toInt < 0 then int32 (-num.toInt) else num.toInt) = 0 then [chr '0']
        else if sign then
          digitLoop (digitAt front large) base 129 (if sign ∧ num.toInt < 0 then int32 (-num.toInt) else num.toInt)
        else digitLoop (digitAt front large) base 129 num.toNat).reverse := by
  unfold Flags.plain number
  dsimp only
  generalize hsign : (if sign = true then
      if num.toInt < 0 then ([chr '-'], int32 (-num.toInt), int32 (-1 - 1))
      else if false = true then ([chr '+'], num.toInt, int32 (-1 - 1))
      else if false = true then ([chr ' '], num.toInt, int32 (-1 - 1))
      else ([], num.toInt, -1)
    else ([], num.toInt, -1)) = r
  have hr : r.1 = (if sign ∧ num.toInt < 0 then [chr '-'] else []) ∧
      r.2.1 = (if sign ∧ num.toInt < 0 then int32 (-num.toInt) else num.toInt) ∧ -2 ≤ r.2.2 ∧ r.2.2 < 0 := by
    rw [← hsign]
    cases sign with
    | false => simp
    | true =>
      by_cases hneg : num.toInt < 0
      · simp [hneg]
        decide
      · simp [hneg]
  obtain ⟨lead, n, size⟩ := r
  obtain ⟨hlead, hn, h1, h2⟩ := hr
  dsimp only at hlead hn h1 h2 ⊢
  rw [← hlead, ← hn]
  have hlen : (if n = 0 then [chr '0'] else if sign then digitLoop (digitAt front large) base 129 n
      else digitLoop (digitAt front large) base 129 num.toNat).length ≤ 129 := by
    split_ifs
    · simp
    · exact digitLoop_length _ _ _ _
    · exact digitLoop_length _ _ _ _
  generalize (if n = 0 then [chr '0'] else if sign then digitLoop (digitAt front large) base 129 n
      else digitLoop (digitAt front large) base 129 num.toNat) = tmp at hlen ⊢
  have hprec : (if (-1 : Int) < tmp.length then (tmp.length : Int) else -1) = tmp.length := if_pos (by omega)
  have hsize : int32 (size - tmp.length) = size - tmp.length := int32_small (by omega) (by omega)
  have hsize₁ : int32 (size - tmp.length - 1) = size - tmp.length - 1 := int32_small (by omega) (by omega)
  have hsize₂ : int32 (size - tmp.length - 1 - 1) = size - tmp.length - 1 - 1 := int32_small (by omega) (by omega)
  simp only [hprec, Bool.false_and, Bool.false_eq_true, if_false, hsize, Bool.not_false, Bool.and_self,
    if_true, countDown_none (show size - tmp.length ≤ 0 by omega), hsize₁,
    countDown_none (show size - tmp.length - 1 ≤ 0 by omega), hsize₂,
    countDown_none (show size - tmp.length - 1 - 1 ≤ 0 by omega), countDown_none (Int.le_refl (tmp.length : Int)),
    false_and, List.replicate_zero, List.nil_append, List.append_nil]

theorem toInt_eq_zero (num : BitVec 32) : num.toInt = 0 ↔ (num.toNat : Int) = 0 := by
  have hlt := num.isLt
  rw [BitVec.toInt_eq_toNat_cond]
  split <;> omega

theorem number_unsigned (front : Nat → Byte) (num : BitVec 32) {b : Nat} (hb : 1 < b) (large : Bool) :
    number front num b (-1) (-1) (.plain false large) =
      .number [] false ((numeral b num.toNat).map (digitChar large)) := by
  have hlt : num.toNat < b ^ 129 := by
    calc num.toNat < 2 ^ 32 := num.isLt
      _ ≤ 2 ^ 129 := by norm_num
      _ ≤ b ^ 129 := Nat.pow_le_pow_left hb 129
  rw [number_plain, ← tmp_numeral front large hb hlt]
  simp [toInt_eq_zero]

/-- the least integer, whose negative is itself -/
def intMin : BitVec 32 := 0x80000000

theorem neg_toInt {num : BitVec 32} (h : num ≠ intMin) : int32 (-num.toInt) = -num.toInt := by
  have hne : num.toInt ≠ -2^31 := fun e => h (BitVec.eq_of_toInt_eq e)
  have h1 : num.toInt < 2^31 := BitVec.toInt_lt
  have h2 : -2^31 ≤ num.toInt := BitVec.le_toInt num
  apply int32_small <;> omega

/-- `%d` -/
def decimal (n : Int) : List Byte := (if n < 0 then [chr '-'] else []) ++ (numeral 10 n.natAbs).map (digitChar false)

theorem number_signed (front : Nat → Byte) {num : BitVec 32} (h : num ≠ intMin) :
    number front num 10 (-1) (-1) (.plain true false) =
      .number (if num.toInt < 0 then [chr '-'] else []) false ((numeral 10 num.toInt.natAbs).map (digitChar false)) := by
  have h1 : num.toInt < 2^31 := BitVec.toInt_lt
  have h2 : -2^31 ≤ num.toInt := BitVec.le_toInt num
  have hlt : num.toInt.natAbs < 10 ^ 129 := by
    calc num.toInt.natAbs ≤ 2 ^ 31 := by omega
      _ < 10 ^ 129 := by norm_num
  have habs : (if true = true ∧ num.toInt < 0 then int32 (-num.toInt) else num.toInt) = (num.toInt.natAbs : Int) := by
    rw [neg_toInt h]
    simp only [true_and]
    split <;> omega
  rw [number_plain, ← tmp_numeral front false (by decide) hlt, habs]
  simp

/-! ## indices -/

theorem digitIndices_inside {base : Int} (hbase : 0 < base) {rounds : Nat} : ∀ {num : Int}, 0 ≤ num →
    ∀ k ∈ digitIndices base rounds num, 0 ≤ k ∧ k < base := by
  induction rounds with
  | zero => simp [digitIndices]
  | succ rounds ih =>
    intro num hnum k hk
    rcases List.mem_cons.mp hk with rfl | hk
    · exact ⟨Int.tmod_nonneg base hnum, Int.tmod_lt_of_pos num hbase⟩
    · split at hk
      · cases hk
      · exact ih (Int.tdiv_nonneg hnum hbase.le) k hk

/-- a negative number has a negative digit -/
theorem digitIndices_outside {base : Int} (hbase : 2 ≤ base) {rounds : Nat} : ∀ {num : Int}, num < 0 →
    -num < base ^ rounds → ∃ k ∈ digitIndices base rounds num, k < 0 := by
  induction rounds with
  | zero =>
    intro num hnum hlt
    rw [pow_zero] at hlt
    omega
  | succ rounds ih =>
    intro num hnum hlt
    rw [digitIndices]
    have hmod : num.tmod base ≤ 0 := by
      have := Int.tmod_nonneg base (show 0 ≤ -num by omega)
      rw [Int.neg_tmod] at this
      omega
    have hdiv : base * num.tdiv base + num.tmod base = num := Int.mul_tdiv_add_tmod num base
    by_cases hneg : num.tmod base < 0
    · exact ⟨_, List.mem_cons_self, hneg⟩
    · -- the last digit is 0, so another one is negative
      have hquot : base * num.tdiv base = num := by omega
      have hlow : num.tdiv base < 0 := by
        by_contra hle
        have := Int.mul_nonneg (show (0 : Int) ≤ base by omega) (Int.not_lt.mp hle)
        omega
      have hbound : -num.tdiv base < base ^ rounds := by
        rw [← hquot, ← Int.mul_neg, pow_succ', Int.mul_lt_mul_left (by omega)] at hlt
        exact hlt
      obtain ⟨k, hk, hk0⟩ := ih hlow hbound
      rw [if_neg hlow.ne]
      exact ⟨k, List.mem_cons_of_mem _ hk, hk0⟩

section
variable {num : BitVec 32} {base : Int} {type : Flags}

theorem mem_numberIndices {k : Int} (hk : k ∈ numberIndices num base type) (h2 : 2 ≤ base) (h36 : base ≤ 36) {n : Int}
    (hn : 0 ≤ n) (hloop : (if type.sign then digitIndices base 129
      (if type.sign && decide (num.toInt < 0) then int32 (-num.toInt) else num.toInt) else digitIndices base 129 num.toNat) =
        digitIndices base 129 n) : 0 ≤ k ∧ k < 36 := by
  have hmem : ∀ p : Prop, [Decidable p] → k ∈ (if p then [] else digitIndices base 129 n) → k ∈ digitIndices base 129 n := by
    intro p _ h
    split at h
    · exact absurd h List.not_mem_nil
    · exact h
  unfold numberIndices at hk
  simp only [hloop] at hk
  rcases List.mem_append.mp hk with hk | hk
  · obtain ⟨h1, h3⟩ := digitIndices_inside (by omega) hn k (hmem _ hk)
    exact ⟨h1, by omega⟩
  · split at hk
    · rw [List.mem_singleton.mp hk]
      decide
    · exact absurd hk List.not_mem_nil

/-- **The unsigned loop** reads inside the table. -/
theorem unsigned_inside (hsign : type.sign = false) (h2 : 2 ≤ base) (h36 : base ≤ 36) : TableOnly num base type := by
  have hinside : DigitsInside num base type := fun k hk =>
    mem_numberIndices hk h2 h36 (Int.natCast_nonneg num.toNat) (by rw [hsign, if_neg Bool.false_ne_true])
  exact ⟨hinside, fun front front' size precision => number_inside hinside front front' size precision⟩

/-- **The signed loop** does so for all numbers but the least one. -/
theorem signed_inside (h : num ≠ intMin) (hsign : type.sign = true) (h2 : 2 ≤ base) (h36 : base ≤ 36) :
    TableOnly num base type := by
  have hn : 0 ≤ (if type.sign && decide (num.toInt < 0) then int32 (-num.toInt) else num.toInt) := by
    rw [neg_toInt h, hsign]
    simp only [Bool.true_and, decide_eq_true_eq]
    split <;> omega
  have hinside : DigitsInside num base type := fun k hk =>
    mem_numberIndices hk h2 h36 hn (if_pos hsign)
  exact ⟨hinside, fun front front' size precision => number_inside hinside front front' size precision⟩

/-- **The least integer** is read from in front of the table, whatever the base. -/
theorem signed_outside (hsign : type.sign = true) (h2 : 2 ≤ base) : ¬ TableOnly intMin base type := by
  rintro ⟨hinside, _⟩
  have hmin : int32 (-intMin.toInt) = -2147483648 := by decide
  have hneg : intMin.toInt < 0 := by decide
  have hbound : (2147483648 : Int) < base ^ 129 := calc
    (2147483648 : Int) < 2 ^ 129 := by norm_num
    _ ≤ base ^ 129 := pow_le_pow_left₀ (by decide) h2 129
  obtain ⟨k, hk, hk0⟩ := digitIndices_outside h2 (show (-2147483648 : Int) < 0 by decide) hbound
  refine absurd (hinside k ?_).1 (Int.not_le.mpr hk0)
  unfold numberIndices
  simp only [hsign, hneg, decide_true, Bool.and_self, if_true, hmin]
  exact List.mem_append_left _ hk

end

/-! ## reading -/

theorem int32_digit (v : Int) (d : Int) : int32 (int32 (int32 v * 10) + d) = int32 (v * 10 + d) := by
  unfold int32
  rw [Int.bmod_mul_bmod, Int.bmod_add_bmod]

theorem isdigit_char {d : Nat} (hd : d < 10) : isdigit (digitChar false d) = true ∧ (digitChar false d).toNat = 0x30 + d := by
  interval_cases d <;> decide

theorem atoiLoop_digits {ds : List Nat} (hds : ∀ d ∈ ds, d < 10) : ∀ v : Nat,
    atoiLoop (int32 v) (ds.map (digitChar false)) = int32 (ds.foldl (fun v d => v * 10 + d) v : Nat) := by
  induction ds with
  | nil => simp [atoiLoop]
  | cons d ds ih =>
    intro v
    obtain ⟨hdigit, hvalue⟩ := isdigit_char (hds d List.mem_cons_self)
    rw [List.map_cons, atoiLoop, if_pos hdigit, hvalue, int32_digit, List.foldl_cons,
      ← ih fun d hd => hds d (List.mem_cons_of_mem _ hd)]
    congr 2
    push_cast
    ring

/-- a numeral is read as its value -/
theorem atoiLoop_numeral (n : Nat) : atoiLoop 0 ((numeral 10 n).map (digitChar false)) = int32 n := by
  have hloop := atoiLoop_digits (numeral_lt (b := 10) (by decide) n) 0
  rw [show List.foldl (fun v d => v * 10 + d) 0 (numeral 10 n) = n from numeral_value 10 n] at hloop
  exact hloop

theorem digitChar_space {d : Nat} (hd : d < 10) :
    isspace (digitChar false d) = false ∧ digitChar false d ≠ chr '+' ∧ digitChar false d ≠ chr '-' := by
  interval_cases d <;> decide

/-- **`atoi` reads back** what `%d` prints. -/
theorem atoi_decimal {n : Int} (h1 : -2^31 ≤ n) (h2 : n < 2^31) : atoi (decimal n) = n := by
  obtain ⟨d, ds, hds⟩ := List.exists_cons_of_ne_nil (numeral_ne_nil 10 n.natAbs)
  have hd : d < 10 := numeral_lt (by decide) n.natAbs d (hds ▸ List.mem_cons_self)
  obtain ⟨hspace, hplus, hminus⟩ := digitChar_space hd
  have hnumeral := atoiLoop_numeral n.natAbs
  unfold decimal atoi
  by_cases hneg : n < 0
  · have hdash : isspace (chr '-') = false := by decide
    rw [if_pos hneg, List.singleton_append, List.dropWhile_cons_of_neg (by simp [hdash])]
    have hread : (if chr '-' = chr '+' then atoiLoop 0 ((numeral 10 n.natAbs).map (digitChar false))
        else if chr '-' = chr '-' then int32 (-atoiLoop 0 ((numeral 10 n.natAbs).map (digitChar false)))
        else atoiLoop 0 (chr '-' :: (numeral 10 n.natAbs).map (digitChar false))) = int32 (-int32 n.natAbs) := by
      rw [if_neg (by decide), if_pos rfl, hnumeral]
    have habs : -(n.natAbs : Int) = n := by omega
    have hneg : int32 (-int32 n.natAbs) = int32 (-n.natAbs) := Int.bmod_neg_bmod
    rw [hneg, habs, int32_small h1 h2] at hread
    exact hread
  · rw [if_neg hneg, List.nil_append]
    rw [hds, List.map_cons] at hnumeral ⊢
    rw [List.dropWhile_cons_of_neg (by simp [hspace])]
    simp only []
    rw [if_neg hplus, if_neg hminus, hnumeral]
    have habs : (n.natAbs : Int) = n := by omega
    rw [habs]
    exact int32_small h1 h2

theorem digitChar_nonzero {d : Nat} (hd : d < 10) : digitChar false d ≠ 0 := by
  intro e
  have hvalue := (isdigit_char hd).2
  rw [e] at hvalue
  have hzero : (0 : Byte).toNat = 0 := rfl
  omega

theorem decimal_nonzero (n : Int) : 0 ∉ decimal n := by
  intro h
  rcases List.mem_append.mp h with h | h
  · split at h
    · exact absurd (List.mem_singleton.mp h) (by decide)
    · exact absurd h List.not_mem_nil
  · obtain ⟨d, hd, e⟩ := List.mem_map.mp h
    exact digitChar_nonzero (numeral_lt (by decide) n.natAbs d hd) e

/-! ## calls -/

/-- `%` and a letter -/
def integerFormat (letter : Char) : List Byte := [chr '%', chr letter]

/-- `%d` into 12 bytes, and `atoi` -/
def RoundTrips (n : BitVec 32) : Prop := ∀ front buf, ∃ r, vsnprintf front buf 12 (integerFormat 'd') [.word n] = some r ∧
  r.buf r.ret = 0 ∧ 0 ∉ r.text ∧ atoi r.text = n.toInt

/-- the conversion prints the shortest numeral of `u` -/
def PrintsNumeral (letter : Char) (b : Nat) (large : Bool) (u : BitVec 32) : Prop :=
  ∀ (front buf : Nat → Byte) (size : BitVec 32), 12 ≤ size.toNat → ∃ r ds,
    vsnprintf front buf size (integerFormat letter) [.word u] = some r ∧ r.Holds (ds.map (digitChar large)) ∧
      Shortest b u.toNat ds

/-- a number that fits is the text of the call -/
theorem number_holds {front : Nat → Byte} (buf : Nat → Byte) {size : BitVec 32} {letter : Char} {num : BitVec 32} {d : Directive}
    {lead rest : List Byte} {args : List Arg} (hsize : 12 ≤ size.toNat) (hfmt : parseFormat (integerFormat letter) = some [d])
    (hf : d.fetch front [.word num] = some (.number lead false rest, args)) (hlen : lead.length + rest.length ≤ 11) :
    ∃ r, vsnprintf front buf size (integerFormat letter) [.word num] = some r ∧ r.Holds (lead ++ rest) := by
  have hfits : lead.length + rest.length ≤ ((Out.start buf size).size - 1).toNat := by
    show _ ≤ (size - 1).toNat
    bv_omega
  obtain ⟨htext, hstr⟩ := number_text hfits
  refine ⟨_, vsnprintf_one (by omega) hfmt hf, (finish_holds ?_).mpr ?_⟩
  · rw [hstr]
    show 0 + _ + _ < _
    omega
  · rw [htext, text_start, List.nil_append]

theorem numeral_fits {b : Nat} (hb : 8 ≤ b) (u : BitVec 32) : (numeral b u.toNat).length ≤ 11 := by
  apply numeral_length_le (by omega) (by decide)
  calc u.toNat < 2 ^ 32 := u.isLt
    _ ≤ 8 ^ 11 := by norm_num
    _ ≤ b ^ 11 := Nat.pow_le_pow_left hb 11

theorem unsigned_prints {letter : Char} {b : Nat} (hb : 8 ≤ b) {large : Bool} {l : Letter}
    (hfmt : parseFormat (integerFormat letter) =
      some [.conversion ⟨.plain false large, .given (-1), .given (-1), none, l⟩])
    (hl : ∀ front u, l.fetch front (.plain false large) (-1) (-1) [.word u] =
      some (number front u b (-1) (-1) (.plain false large), [])) (u : BitVec 32) : PrintsNumeral letter b large u := by
  intro front buf size hsize
  have hf : (Directive.conversion ⟨.plain false large, .given (-1), .given (-1), none, l⟩).fetch front [.word u] =
      some (.number [] false ((numeral b u.toNat).map (digitChar large)), []) := by
    rw [← number_unsigned front u (by omega) large]
    exact hl front u
  obtain ⟨r, hr, hholds⟩ := number_holds buf hsize hfmt hf (by simpa using numeral_fits hb u)
  exact ⟨r, _, hr, hholds, numeral_shortest (by omega) u.toNat⟩

theorem decimal_prints {num : BitVec 32} (h : num ≠ intMin) : RoundTrips num := by
  intro front buf
  have h1 : num.toInt < 2^31 := BitVec.toInt_lt
  have h2 : -2^31 ≤ num.toInt := BitVec.le_toInt num
  have hdigits : (numeral 10 num.toInt.natAbs).length ≤ 10 := by
    apply numeral_length_le (by decide) (by decide)
    omega
  have hfmt : parseFormat (integerFormat 'd') =
      some [.conversion ⟨.plain true false, .given (-1), .given (-1), none, .d⟩] := rfl
  have hf : (Directive.conversion ⟨.plain true false, .given (-1), .given (-1), none, .d⟩).fetch front [.word num] =
      some (.number (if num.toInt < 0 then [chr '-'] else []) false
        ((numeral 10 num.toInt.natAbs).map (digitChar false)), []) := by
    rw [← number_signed front h]
    rfl
  obtain ⟨r, hr, htext, hend⟩ := number_holds buf (show 12 ≤ (12 : BitVec 32).toNat by decide) hfmt hf (by
    rw [List.length_map]
    split <;> simp <;> omega)
  refine ⟨r, hr, ?_, ?_, ?_⟩
  · rw [← hend, ← htext, Printed.text, List.length_map, List.length_range]
  · rw [htext]
    exact decimal_nonzero num.toInt
  · rw [htext]
    exact atoi_decimal h2 h1

/-- the least integer is printed with bytes that stand in front of the table, here zeros -/
theorem intMin_lost : ¬ RoundTrips intMin := by
  intro h
  obtain ⟨r, hr, _, hzero, _⟩ := h (fun _ => 0) (fun _ => 0)
  have hbyte : ((vsnprintf (fun _ => 0) (fun _ => 0) 12 (integerFormat 'd') [.word intMin]).map fun r => decide (0 ∈ r.text)) =
      some true := by decide +kernel
  rw [hr, Option.map_some, Option.some.injEq, decide_eq_true_eq] at hbyte
  exact hzero hbyte

/-- **Integers come back** from their texts.  The unsigned ones are printed as their shortest numerals, with digits from the
table.  A signed one is read back, and its digits are in the table, exactly if it is not the least one. -/
theorem integers_round_trip_iff (u n : BitVec 32) :
    ((PrintsNumeral 'u' 10 false u ∧ PrintsNumeral 'o' 8 false u ∧ PrintsNumeral 'x' 16 false u ∧
      PrintsNumeral 'X' 16 true u) ∧
      ∀ base type, 2 ≤ base → base ≤ 36 → type.sign = false → TableOnly u base type) ∧
    (RoundTrips n ↔ n ≠ intMin) ∧
      ∀ base type, 2 ≤ base → base ≤ 36 → type.sign = true → (TableOnly n base type ↔ n ≠ intMin) := by
  refine ⟨⟨⟨?_, ?_, ?_, ?_⟩, ?_⟩, ⟨?_, decimal_prints⟩, ?_⟩
  · exact unsigned_prints (by decide) (l := .u) rfl (fun _ _ => rfl) u
  · exact unsigned_prints (by decide) (l := .o) rfl (fun _ _ => rfl) u
  · exact unsigned_prints (by decide) (l := .x) rfl (fun _ _ => rfl) u
  · exact unsigned_prints (by decide) (l := .X) rfl (fun _ _ => rfl) u
  · exact fun base type h2 h36 hsign => unsigned_inside hsign h2 h36
  · rintro h rfl
    exact intMin_lost h
  · intro base type h2 h36 hsign
    constructor
    · rintro h rfl
      exact signed_outside hsign h2 h
    · exact fun h => signed_inside h hsign h2 h36

/-- **The least integer** is printed with bytes from in front of the digit table, and not read back. -/
theorem least_integer_outside : (-8 : Int) ∈ numberIndices intMin 10 (.plain true false) ∧
    ¬ DigitsInside intMin 10 (.plain true false) ∧ ¬ RoundTrips intMin := by
  refine ⟨by decide, fun h => ?_, intMin_lost⟩
  exact absurd (h (-8) (by decide)).1 (by decide)

end Clubcos
