import Mathlib.Algebra.Group.Nat.Defs

/-!
# 32-bit unsigned arithmetic on natural numbers

`u32 n` is the value of `n` in a 32-bit unsigned register, `sub32 a b` the difference of two such
values.  Both are the plain operation as long as the result fits.
-/

set_option linter.unusedVariables false

namespace Word

/-- the low 32 bits -/
def u32 (n : Nat) : Nat := n % 2^32

/-- difference of two 32-bit values -/
def sub32 (a b : Nat) : Nat := (a + (2^32 - b)) % 2^32

/-- the 32 bits of `n` as a signed value -/
def int32 (n : Int) : Int := n.bmod (2^32)

theorem u32_lt (n : Nat) : u32 n < 2^32 := Nat.mod_lt _ (Nat.two_pow_pos 32)

theorem u32_of_lt {n : Nat} (h : n < 2^32) : u32 n = n := Nat.mod_eq_of_lt h

theorem sub32_of_le {a b : Nat} (h : b ≤ a) (ha : a < 2^32) : sub32 a b = a - b := by
  show (a + (2^32 - b)) % 2^32 = a - b
  have e : a + (2^32 - b) = (a - b) + 2^32 := by omega
  rw [e, Nat.add_mod_right, Nat.mod_eq_of_lt (by omega)]

theorem sub32_lt (a b : Nat) : sub32 a b < 2^32 := Nat.mod_lt _ (Nat.two_pow_pos 32)

theorem sub32_self {a : Nat} (ha : a < 2^32) : sub32 a a = 0 := by
  rw [sub32_of_le (Nat.le_refl a) ha, Nat.sub_self]

theorem sub32_add {a b : Nat} (hb : b < 2^32) (n : Nat) : sub32 (u32 (a + n)) b = (sub32 a b + n) % 2^32 := by
  unfold sub32 u32
  omega

/-- counting up and down again modulo `2^32` -/
theorem u32_succ (n : Nat) : u32 (u32 n + 1) = u32 (n + 1) := Nat.mod_add_mod n (2^32) 1

theorem sub32_succ (n : Nat) : sub32 (u32 (n + 1)) 1 = u32 n := by
  unfold sub32 u32
  omega

end Word
