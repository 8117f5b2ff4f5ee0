import Mathlib.Algebra.Order.Ring.Int

/-!
# Binary search with a three-way comparison

`probe i` compares the key with the entry `i`: negative if the key comes before it, positive if it comes behind, zero if
it is found; `none` is an entry that is not there.  The search keeps a half-open interval that is never empty.

* `search_spec`   the search ends, looks at entries below `n` only, and finds the entry if there is one.
-/

set_option linter.unusedVariables false

namespace Bisect

/-- `none` where an entry is looked at that is not there, or where the rounds do not suffice -/
def search (probe : Nat → Option Int) : (rounds lo hi : Nat) → Option (Option Nat)
  | 0, _, _ => none
  | rounds + 1, lo, hi => (probe (lo + (hi - lo) / 2)).bind fun ret =>
    if ret < 0 then
      if lo = lo + (hi - lo) / 2 then some none else search probe rounds lo (lo + (hi - lo) / 2)
    else if 0 < ret then
      if lo + (hi - lo) / 2 + 1 = hi then some none else search probe rounds (lo + (hi - lo) / 2 + 1) hi
    else some (some (lo + (hi - lo) / 2))

section
variable {probe : Nat → Option Int} {cmp : Nat → Int} {n : Nat}

/-- what a search is to return -/
def Finds (cmp : Nat → Int) (n : Nat) : Option Nat → Prop
  | some i => i < n ∧ cmp i = 0
  | none => ∀ i < n, cmp i ≠ 0

theorem search_spec (hprobe : ∀ i < n, probe i = some (cmp i))
    (hsorted : ∀ i j, i < j → j < n → cmp i ≤ 0 → cmp j < 0) : ∀ (rounds lo hi : Nat), lo < hi → hi ≤ n →
      hi - lo ≤ rounds → (∀ i < lo, 0 < cmp i) → (∀ i, hi ≤ i → i < n → cmp i < 0) →
      ∃ r, search probe rounds lo hi = some r ∧ Finds cmp n r := by
  intro rounds
  induction rounds with
  | zero =>
    intro lo hi hlt _ hr
    omega
  | succ rounds ih =>
    intro lo hi hlt hn hr hbelow habove
    have hmid : lo ≤ lo + (hi - lo) / 2 ∧ lo + (hi - lo) / 2 < hi := by omega
    generalize hm : lo + (hi - lo) / 2 = mid at hmid
    have hmn : mid < n := by omega
    rw [search, hm, hprobe mid hmn, Option.bind_some]
    by_cases hneg : cmp mid < 0
    · -- the entries from `mid` on come behind the key
      have habove' : ∀ i, mid ≤ i → i < n → cmp i < 0 := by
        intro i h1 h2
        rcases Nat.eq_or_lt_of_le h1 with rfl | h1
        · exact hneg
        · exact hsorted mid i h1 h2 (Int.le_of_lt hneg)
      rw [if_pos hneg]
      by_cases e : lo = mid
      · refine ⟨none, if_pos e, fun i hi => ?_⟩
        by_cases h : i < lo
        · exact Int.ne_of_gt (hbelow i h)
        · exact Int.ne_of_lt (habove' i (by omega) hi)
      · rw [if_neg e]
        exact ih lo mid (by omega) (by omega) (by omega) hbelow habove'
    · rw [if_neg hneg]
      by_cases hpos : 0 < cmp mid
      · have hbelow' : ∀ i < mid + 1, 0 < cmp i := by
          intro i hi
          by_contra h
          rcases Nat.eq_or_lt_of_le (Nat.le_of_lt_succ hi) with rfl | hi
          · exact h hpos
          · exact hneg (hsorted i mid hi hmn (by omega))
        rw [if_pos hpos]
        by_cases e : mid + 1 = hi
        · refine ⟨none, if_pos e, fun i hi => ?_⟩
          by_cases h : i < mid + 1
          · exact Int.ne_of_gt (hbelow' i h)
          · exact Int.ne_of_lt (habove i (by omega) hi)
        · rw [if_neg e]
          exact ih (mid + 1) hi (by omega) hn (by omega) hbelow' habove
      · rw [if_neg hpos]
        exact ⟨some mid, rfl, hmn, by omega⟩

end

end Bisect
