import Mathlib.Data.Nat.Digits.Lemmas

/-!
# Numerals

Digits of a number from the highest on, in any base from 2 on.

* `value`              what a list of digits stands for;
* `numeral`            the digits of a number, without a 0 in front unless it is the only one;
* `Shortest`           a numeral of the number that is no longer than any other;
* `numeral_shortest`   **the digits of a number** are its shortest numeral.
-/

namespace Numeral

def value (b : Nat) (ds : List Nat) : Nat := ds.foldl (fun v d => v * b + d) 0

def numeral (b n : Nat) : List Nat := if n = 0 then [0] else (Nat.digits b n).reverse

structure Shortest (b n : Nat) (ds : List Nat) : Prop where
  nonempty : ds ≠ []
  digits : ∀ d ∈ ds, d < b
  value : value b ds = n
  least : ∀ ds', ds' ≠ [] → (∀ d ∈ ds', d < b) → Numeral.value b ds' = n → ds.length ≤ ds'.length

theorem value_snoc (b : Nat) (ds : List Nat) (d : Nat) : value b (ds ++ [d]) = value b ds * b + d := by
  rw [value, List.foldl_append]
  rfl

theorem value_ofDigits (b : Nat) (ds : List Nat) : value b ds = Nat.ofDigits b ds.reverse := by
  induction ds using List.reverseRecOn with
  | nil => rfl
  | append_singleton ds d ih =>
    rw [value_snoc, ih, List.reverse_append, List.reverse_singleton, List.singleton_append, Nat.ofDigits_cons]
    ring

variable {b : Nat}

theorem numeral_ne_nil (b n : Nat) : numeral b n ≠ [] := by
  unfold numeral
  split
  · simp
  · rename_i hn
    exact mt List.reverse_eq_nil_iff.mp (Nat.digits_ne_nil_iff_ne_zero.mpr hn)

theorem numeral_lt (hb : 1 < b) (n : Nat) : ∀ d ∈ numeral b n, d < b := by
  intro d hd
  unfold numeral at hd
  split at hd
  · rw [List.mem_singleton.mp hd]
    omega
  · exact Nat.digits_lt_base hb (List.mem_reverse.mp hd)

theorem numeral_value (b n : Nat) : value b (numeral b n) = n := by
  unfold numeral
  split
  · rename_i hn
    rw [hn]
    simp [value]
  · rw [value_ofDigits, List.reverse_reverse, Nat.ofDigits_digits]

theorem numeral_length_le (hb : 1 < b) {n k : Nat} (hk : 0 < k) (hn : n < b ^ k) : (numeral b n).length ≤ k := by
  unfold numeral
  split
  · exact hk
  · rw [List.length_reverse]
    exact (Nat.digits_length_le_iff hb n).mpr hn

/-- **The digits of a number** are its shortest numeral. -/
theorem numeral_shortest (hb : 1 < b) (n : Nat) : Shortest b n (numeral b n) where
  nonempty := numeral_ne_nil b n
  digits := numeral_lt hb n
  value := numeral_value b n
  least ds' hne hlt hvalue := by
    apply numeral_length_le hb (List.length_pos_iff.mpr hne)
    rw [← hvalue, value_ofDigits, ← List.length_reverse]
    exact Nat.ofDigits_lt_base_pow_length hb fun d hd => hlt d (List.mem_reverse.mp hd)

/-- a number that is not 0 begins with another digit -/
theorem numeral_head (b : Nat) {n : Nat} (hn : n ≠ 0) : ∃ d ds, numeral b n = d :: ds ∧ d ≠ 0 := by
  have hne : Nat.digits b n ≠ [] := Nat.digits_ne_nil_iff_ne_zero.mpr hn
  refine ⟨(Nat.digits b n).getLast hne, (Nat.digits b n).dropLast.reverse, ?_, Nat.getLast_digit_ne_zero b hn⟩
  rw [numeral, if_neg hn]
  conv_lhs => rw [← List.dropLast_append_getLast hne]
  rw [List.reverse_append, List.reverse_singleton, List.singleton_append]

end Numeral
