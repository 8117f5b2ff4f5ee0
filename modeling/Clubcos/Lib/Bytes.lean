import Mathlib.Algebra.Group.Nat.Defs
import Mathlib.Algebra.Order.Group.Nat

/-!
# Lists of bytes in a memory

* `read`, `write`       the bytes from an address on;
* `read_write`          **what is written is read again**; `read_write_apart` elsewhere nothing changes;
* `toLe`, `ofLe`        a number as bytes, the lowest one first;
* `ofLe_toLe`           **the number is read again**, up to what the bytes hold;
* `foldl_block`         a loop that writes one block after the other: each of them is what its round makes of it.
-/

namespace Bytes

variable {β : Type}

def read (m : Nat → β) (a n : Nat) : List β := (List.range n).map fun i => m (a + i)

def write (m : Nat → β) (a : Nat) (bs : List β) : Nat → β := fun x =>
  if a ≤ x then bs.getD (x - a) (m x) else m x

@[simp] theorem read_length (m : Nat → β) (a n : Nat) : (read m a n).length = n := by
  simp [read]

@[simp] theorem read_zero (m : Nat → β) (a : Nat) : read m a 0 = [] := rfl

theorem getElem?_read (m : Nat → β) (a n i : Nat) : (read m a n)[i]? = if i < n then some (m (a + i)) else none := by
  by_cases h : i < n <;> simp [read, h]

theorem read_congr {m m' : Nat → β} {a n : Nat} (h : ∀ i < n, m' (a + i) = m (a + i)) : read m' a n = read m a n :=
  List.map_congr_left fun i hi => h i (List.mem_range.mp hi)

theorem read_eq_iff {m : Nat → β} {a : Nat} {bs : List β} {n : Nat} (hn : bs.length = n) :
    read m a n = bs ↔ ∀ i < n, bs[i]? = some (m (a + i)) := by
  constructor
  · intro h i hi
    rw [← h, getElem?_read, if_pos hi]
  · intro h
    apply List.ext_getElem?
    intro i
    rw [getElem?_read]
    by_cases hi : i < n
    · rw [if_pos hi, h i hi]
    · rw [if_neg hi, List.getElem?_eq_none (by omega)]

theorem read_add (m : Nat → β) (a n k : Nat) : read m a (n + k) = read m a n ++ read m (a + n) k := by
  simp [read, List.range_add, Nat.add_assoc]

theorem take_read (m : Nat → β) (a : Nat) {k n : Nat} (h : k ≤ n) : (read m a n).take k = read m a k := by
  obtain ⟨d, rfl⟩ := Nat.exists_eq_add_of_le h
  rw [read_add]
  exact List.take_left' (read_length m a k)

theorem drop_read (m : Nat → β) (a : Nat) {k n : Nat} (h : k ≤ n) : (read m a n).drop k = read m (a + k) (n - k) := by
  obtain ⟨d, rfl⟩ := Nat.exists_eq_add_of_le h
  rw [read_add, List.drop_left' (read_length m a k), Nat.add_sub_cancel_left]

theorem write_below (m : Nat → β) {a x : Nat} (bs : List β) (h : x < a) : write m a bs x = m x :=
  if_neg (Nat.not_le_of_lt h)

theorem write_above (m : Nat → β) {a x : Nat} (bs : List β) (h : a + bs.length ≤ x) : write m a bs x = m x := by
  unfold write
  rw [if_pos (by omega), List.getD_eq_getElem?_getD, List.getElem?_eq_none (by omega), Option.getD_none]

theorem write_inside (m : Nat → β) (a : Nat) (bs : List β) {i : Nat} (h : i < bs.length) :
    write m a bs (a + i) = bs[i] := by
  unfold write
  rw [if_pos (Nat.le_add_right a i), Nat.add_sub_cancel_left, List.getD_eq_getElem?_getD, List.getElem?_eq_getElem h,
    Option.getD_some]

theorem write_apart (m : Nat → β) {a x : Nat} (bs : List β) (h : x < a ∨ a + bs.length ≤ x) : write m a bs x = m x :=
  h.elim (write_below m bs) (write_above m bs)

theorem read_write (m : Nat → β) (a : Nat) {bs : List β} {n : Nat} (h : bs.length = n) :
    read (write m a bs) a n = bs := by
  rw [read_eq_iff h]
  intro i hi
  rw [write_inside m a bs (by omega), List.getElem?_eq_getElem]

theorem read_write_apart (m : Nat → β) {a n b : Nat} {bs : List β} (h : a + n ≤ b ∨ b + bs.length ≤ a) :
    read (write m b bs) a n = read m a n := by
  apply read_congr
  intro i hi
  exact write_apart m bs (by omega)

/-- A write in the middle of what is read changes just that. -/
theorem read_write_middle (m : Nat → β) (a : Nat) {n k : Nat} {bs : List β} (h : k + bs.length ≤ n) :
    read (write m (a + k) bs) a n = (read m a n).take k ++ bs ++ (read m a n).drop (k + bs.length) := by
  obtain ⟨d, rfl⟩ := Nat.exists_eq_add_of_le h
  rw [read_add, read_add, read_write_apart m (by omega), ← Nat.add_assoc a, read_write m (a + k) rfl,
    read_write_apart m (by omega), take_read m a (by omega), drop_read m a h, Nat.add_sub_cancel_left, ← Nat.add_assoc]

/-! ## numbers -/

def toLe : (n v : Nat) → List (BitVec 8)
  | 0, _ => []
  | n + 1, v => BitVec.ofNat 8 v :: toLe n (v / 256)

def ofLe : List (BitVec 8) → Nat
  | [] => 0
  | b :: bs => b.toNat + 256 * ofLe bs

@[simp] theorem toLe_length (n : Nat) : ∀ v, (toLe n v).length = n := by
  induction n with
  | zero => simp [toLe]
  | succ n ih => simp [toLe, ih]

theorem ofLe_toLe (n : Nat) : ∀ v, ofLe (toLe n v) = v % 256^n := by
  induction n with
  | zero => simp [toLe, ofLe, Nat.mod_one]
  | succ n ih =>
    intro v
    have hb : (BitVec.ofNat 8 v).toNat = v % 256 := BitVec.toNat_ofNat v 8
    show (BitVec.ofNat 8 v).toNat + 256 * ofLe (toLe n (v / 256)) = _
    rw [hb, ih, pow_succ', Nat.mod_mul]

theorem ofLe_lt (bs : List (BitVec 8)) : ofLe bs < 256^bs.length := by
  induction bs with
  | nil => simp [ofLe]
  | cons b bs ih =>
    have hb := b.isLt
    rw [ofLe, List.length_cons, pow_succ']
    omega

/-! ## loops -/

section
variable {step : (Nat → β) → Nat → Nat → β} {base w : Nat}

/-- what no round of a loop writes to -/
theorem foldl_keeps {a : Nat} : ∀ {l : List Nat}, (∀ m, ∀ t ∈ l, step m t a = m a) → ∀ m, l.foldl step m a = m a := by
  intro l
  induction l with
  | nil => simp
  | cons t l ih =>
    intro h m
    rw [List.foldl_cons, ih (fun m i hi => h m i (List.mem_cons_of_mem t hi)), h m t List.mem_cons_self]

/-- Round `t` of the loop is about the `w` addresses from `base + w * t` on. -/
structure Blockwise (step : (Nat → β) → Nat → Nat → β) (base w : Nat) : Prop where
  outside : ∀ m t a, a < base + w * t ∨ base + w * (t + 1) ≤ a → step m t a = m a
  inside : ∀ m m' t, (∀ a, base + w * t ≤ a → a < base + w * (t + 1) → m a = m' a) →
    ∀ a, base + w * t ≤ a → a < base + w * (t + 1) → step m t a = step m' t a

theorem Blockwise.outside_range (h : Blockwise step base w) (n : Nat) (m : Nat → β) {a : Nat}
    (ha : a < base ∨ base + w * n ≤ a) : (List.range n).foldl step m a = m a := by
  apply foldl_keeps
  intro m t ht
  apply h.outside
  rcases ha with ha | ha
  · exact Or.inl (Nat.lt_of_lt_of_le ha (Nat.le_add_right _ _))
  · have := Nat.mul_le_mul_left w (show t + 1 ≤ n from List.mem_range.mp ht)
    exact Or.inr (by omega)

/-- **A block behind the loop** is what its own round makes of it. -/
theorem foldl_block (h : Blockwise step base w) {t : Nat} (m : Nat → β) : ∀ {n : Nat}, t < n → ∀ a,
    base + w * t ≤ a → a < base + w * (t + 1) → (List.range n).foldl step m a = step m t a := by
  intro n
  induction n with
  | zero =>
    intro ht
    cases ht
  | succ n ih =>
    intro ht a h1 h2
    rw [List.range_succ, List.foldl_append, List.foldl_cons, List.foldl_nil]
    rcases Nat.lt_succ_iff_lt_or_eq.mp ht with hlt | rfl
    · have := Nat.mul_le_mul_left w (show t + 1 ≤ n from hlt)
      rw [h.outside _ n a (Or.inl (by omega)), ih hlt a h1 h2]
    · exact h.inside _ _ t (fun x hx _ => h.outside_range t m (Or.inr hx)) a h1 h2

end

end Bytes
