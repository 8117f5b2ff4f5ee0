import Mathlib.Algebra.BigOperators.Group.Finset.Piecewise
import Mathlib.Algebra.BigOperators.Group.List.Lemmas
import Mathlib.Data.Nat.ModEq

/-!
# Work that is charged in arrears

Each unit of work belongs to an account, the one that is at work.  What it has done is charged to it only when another
account takes over, and the counters wrap around.

* `Balanced`            each account was charged what it has done, less what is pending and what was waived;
* `Balanced.work`, `Balanced.hand`, `Balanced.waive`, `Balanced.open_new`   what happens keeps the books balanced;
* `Balanced.total`      **the sum over all accounts**.
-/

set_option linter.unusedVariables false
set_option linter.unusedSectionVars false

namespace Tally

variable {K : Type*} [DecidableEq K]

@[ext] structure Book (K : Type*) where
  accounts : List K
  used : K → Nat
  /-- the account at work -/
  owner : Option K
  /-- what it has done since it took over -/
  pending : Nat
  /-- the account of each unit of work done so far -/
  ran : List K
  /-- the account of each unit that was waived -/
  lost : List K

def Book.due (b : Book K) (k : K) : Nat := if b.owner = some k then b.pending else 0

/-- the counters hold what was done, up to multiples of `m` -/
structure Balanced (m : Nat) (b : Book K) : Prop where
  nodup : b.accounts.Nodup
  owner : ∃ k ∈ b.accounts, b.owner = some k
  ran : ∀ k ∈ b.ran, k ∈ b.accounts
  lost : ∀ k ∈ b.lost, k ∈ b.accounts
  even : ∀ k ∈ b.accounts, b.used k + b.due k + b.lost.count k ≡ b.ran.count k [MOD m]

section
variable {m : Nat} {b : Book K} (hb : Balanced m b)
include hb

/-- one unit of work is done -/
theorem Balanced.work {k : K} (hk : b.owner = some k) :
    Balanced m { b with pending := b.pending + 1, ran := b.ran ++ [k] } := by
  obtain ⟨k', hk', e⟩ := hb.owner
  obtain rfl : k' = k := Option.some.inj (e.symm.trans hk)
  refine ⟨hb.nodup, hb.owner, fun j hj => ?_, hb.lost, fun j hj => ?_⟩
  · rcases List.mem_append.mp hj with hj | hj
    · exact hb.ran j hj
    · exact List.mem_singleton.mp hj ▸ hk'
  · have heven := hb.even j hj
    show b.used j + Book.due { b with pending := b.pending + 1, ran := b.ran ++ [k'] } j + b.lost.count j ≡
      (b.ran ++ [k']).count j [MOD m]
    unfold Book.due at heven ⊢
    rw [hk] at heven ⊢
    rw [List.count_append, List.count_singleton]
    by_cases e : k' = j
    · subst e
      rw [if_pos rfl] at heven ⊢
      have hsum : b.used k' + (b.pending + 1) + b.lost.count k' = b.used k' + b.pending + b.lost.count k' + 1 := by
        omega
      rw [hsum]
      simpa using heven.add_right 1
    · have hne : some k' ≠ some j := fun h => e (Option.some.inj h)
      rw [if_neg hne] at heven ⊢
      simpa [e] using heven

/-- the account at work is charged, and the next one takes over -/
theorem Balanced.hand {used : K → Nat} {next : K} (hnext : next ∈ b.accounts)
    (hused : ∀ k, used k = if b.owner = some k then (b.used k + b.pending) % m else b.used k) :
    Balanced m { b with used := used, owner := some next, pending := 0 } := by
  refine ⟨hb.nodup, ⟨next, hnext, rfl⟩, hb.ran, hb.lost, fun j hj => ?_⟩
  have heven := hb.even j hj
  have hdue : Book.due { b with used := used, owner := some next, pending := 0 } j = 0 := ite_self 0
  rw [hdue, Nat.add_zero]
  unfold Book.due at heven
  refine Nat.ModEq.trans (Nat.ModEq.add_right _ ?_) heven
  show used j ≡ _ [MOD m]
  rw [hused]
  by_cases e : b.owner = some j
  · rw [if_pos e, if_pos e]
    exact Nat.mod_modEq _ m
  · rw [if_neg e, if_neg e]
    rfl

/-- what the account at work has done is waived, and the next one takes over -/
theorem Balanced.waive {k next : K} (hk : b.owner = some k) (hnext : next ∈ b.accounts) :
    Balanced m { b with owner := some next, pending := 0, lost := b.lost ++ List.replicate b.pending k } := by
  obtain ⟨k', hk', e⟩ := hb.owner
  obtain rfl : k' = k := Option.some.inj (e.symm.trans hk)
  refine ⟨hb.nodup, ⟨next, hnext, rfl⟩, hb.ran, fun j hj => ?_, fun j hj => ?_⟩
  · rcases List.mem_append.mp hj with hj | hj
    · exact hb.lost j hj
    · exact (List.eq_of_mem_replicate hj) ▸ hk'
  · have heven := hb.even j hj
    have hdue : Book.due { b with
      owner := some next, pending := 0, lost := b.lost ++ List.replicate b.pending k' } j = 0 := ite_self 0
    rw [hdue, Nat.add_zero, List.count_append, List.count_replicate]
    unfold Book.due at heven
    rw [hk] at heven
    by_cases e : k' = j
    · subst e
      rw [if_pos rfl] at heven
      have hsum : b.used k' + (b.lost.count k' + b.pending) = b.used k' + b.pending + b.lost.count k' := by omega
      simpa [hsum] using heven
    · have hne : some k' ≠ some j := fun h => e (Option.some.inj h)
      rw [if_neg hne] at heven
      simpa [e] using heven

/-- a new account starts at zero -/
theorem Balanced.open_new {k : K} (hk : k ∉ b.accounts) :
    Balanced m { b with accounts := b.accounts ++ [k], used := Function.update b.used k 0 } := by
  have hnew : ∀ {l : List K}, (∀ j ∈ l, j ∈ b.accounts) → k ∉ l := fun h hm => hk (h k hm)
  obtain ⟨k', hk', e⟩ := hb.owner
  refine ⟨?_, ⟨k', List.mem_append_left _ hk', e⟩, fun j hj => List.mem_append_left _ (hb.ran j hj),
    fun j hj => List.mem_append_left _ (hb.lost j hj), fun j hj => ?_⟩
  · exact List.Nodup.append hb.nodup (List.nodup_singleton k) (List.disjoint_singleton.mpr hk)
  · show Function.update b.used k 0 j + b.due j + b.lost.count j ≡ b.ran.count j [MOD m]
    by_cases ej : j = k
    · have hdue : b.due k = 0 := by
        apply if_neg
        intro h
        obtain rfl : k' = k := Option.some.inj (e.symm.trans h)
        exact hk hk'
      rw [ej, Function.update_self, hdue, List.count_eq_zero_of_not_mem (hnew hb.lost),
        List.count_eq_zero_of_not_mem (hnew hb.ran)]
    · rw [Function.update_of_ne ej]
      refine hb.even j ((List.mem_append.mp hj).resolve_right fun h => ej (List.mem_singleton.mp h))

end

/-! ## the sum over all accounts -/

/-- each entry of a list is counted for one of the keys -/
theorem sum_count {keys l : List K} (hnd : keys.Nodup) (h : ∀ k ∈ l, k ∈ keys) :
    (keys.map fun k => l.count k).sum = l.length := by
  have hsum := Multiset.sum_count_eq_card (s := keys.toFinset) (m := (l : Multiset K)) fun k hk => by
    simpa using h k (by simpa using hk)
  rw [List.sum_toFinset _ hnd] at hsum
  simpa using hsum

theorem modEq_sum {m : Nat} {f g : K → Nat} {keys : List K} (h : ∀ k ∈ keys, f k ≡ g k [MOD m]) :
    (keys.map f).sum ≡ (keys.map g).sum [MOD m] := by
  induction keys with
  | nil => rfl
  | cons k keys ih =>
    rw [List.map_cons, List.map_cons, List.sum_cons, List.sum_cons]
    exact (h k List.mem_cons_self).add (ih fun j hj => h j (List.mem_cons_of_mem k hj))

theorem sum_due {b : Book K} (hnd : b.accounts.Nodup) {k : K} (hk : k ∈ b.accounts) (ho : b.owner = some k) :
    (b.accounts.map b.due).sum = b.pending := by
  have hdue : b.due = fun j => if k = j then b.pending else 0 := by
    funext j
    unfold Book.due
    rw [ho]
    simp only [Option.some.injEq]
  rw [hdue, ← List.sum_toFinset _ hnd, Finset.sum_ite_eq, if_pos (List.mem_toFinset.mpr hk)]

/-- **All that was charged**, with what is pending and what was waived, is the work done. -/
theorem Balanced.total {m : Nat} {b : Book K} (hb : Balanced m b) :
    (b.accounts.map b.used).sum + b.pending + b.lost.length ≡ b.ran.length [MOD m] := by
  obtain ⟨k, hk, ho⟩ := hb.owner
  have hsum := modEq_sum hb.even
  rw [sum_count hb.nodup hb.ran, List.sum_map_add, List.sum_map_add, sum_count hb.nodup hb.lost,
    sum_due hb.nodup hk ho] at hsum
  exact hsum

end Tally
