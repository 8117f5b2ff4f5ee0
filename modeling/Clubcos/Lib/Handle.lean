import Mathlib.Data.List.Nodup
import Mathlib.Algebra.Order.Group.Nat
import Clubcos.Lib.Word

/-!
# Handles: the number of a slot below a generation

A table gives the objects in its slots handles: the slot in the low bits, above it a counter that goes up by
one unit of `2^b` with every object, modulo `2^32`.

* `handle b k i`      the handle of the `k`-th object, in the slot `i`;
* `Numbered.nodup`    **the handles of as many objects as the counter can count are different**;
* `Tracks`            a table against the lists of all handles given out and of those that have ended;
* `Tracks.resolves`   **a handle leads to its object until it ends, and to no object after that.**
-/

set_option linter.unusedVariables false

namespace Handle
open Word

def handle (b k i : Nat) : Nat := u32 (2^b * k) ||| i

section
variable {b k i : Nat}

theorem handle_eq (hb : b ≤ 32) (hi : i < 2^b) : handle b k i = 2^b * (k % 2^(32 - b)) + i := by
  have hsplit : 2^32 = 2^b * 2^(32 - b) := by rw [← Nat.pow_add, Nat.add_sub_cancel' hb]
  have hmask : u32 (2^b * k) = 2^b * (k % 2^(32 - b)) := by rw [u32, hsplit, Nat.mul_mod_mul_left]
  rw [handle, hmask, Nat.two_pow_add_eq_or_of_lt hi]

/-- the low bits of a handle are the slot -/
theorem handle_mod {c : Nat} (hb : b ≤ 32) (hc : c ≤ b) (hi : i < 2^c) : handle b k i % 2^c = i := by
  have hle : i < 2^b := Nat.lt_of_lt_of_le hi (Nat.pow_le_pow_right Nat.two_pos hc)
  obtain ⟨d, rfl⟩ := Nat.exists_eq_add_of_le hc
  rw [handle_eq hb hle, Nat.pow_add, Nat.mul_assoc, Nat.mul_add_mod, Nat.mod_eq_of_lt hi]

theorem handle_and {c : Nat} (hb : b ≤ 32) (hc : c ≤ b) (hi : i < 2^c) : handle b k i &&& (2^c - 1) = i := by
  rw [Nat.and_two_pow_sub_one_eq_mod, handle_mod hb hc hi]

/-- the generation of a handle -/
theorem handle_div (hb : b ≤ 32) (hi : i < 2^b) : handle b k i / 2^b = k % 2^(32 - b) := by
  rw [handle_eq hb hi, Nat.mul_add_div (Nat.two_pow_pos b), Nat.div_eq_of_lt hi, Nat.add_zero]

/-- with a bit between slot and counter that is never set, no handle has all bits set -/
theorem handle_ne_ones {c : Nat} (hb : b ≤ 32) (hc : c < b) (hi : i < 2^c) : handle b k i ≠ 2^32 - 1 := by
  intro h
  have hmod := handle_mod (k := k) hb (Nat.le_refl b) (Nat.lt_of_lt_of_le hi (Nat.pow_le_pow_right Nat.two_pos hc.le))
  have hsplit : 2^32 = 2^b * 2^(32 - b) := by rw [← Nat.pow_add, Nat.add_sub_cancel' hb]
  have hpos := Nat.two_pow_pos (32 - b)
  have hones : (2^32 - 1) % 2^b = 2^b - 1 := by
    obtain ⟨m, hm⟩ := Nat.exists_eq_succ_of_ne_zero (Nat.ne_of_gt hpos)
    have hb1 := Nat.two_pow_pos b
    rw [hsplit, hm, Nat.mul_succ, Nat.add_sub_assoc hb1, Nat.mul_add_mod, Nat.mod_eq_of_lt (by omega)]
  rw [h, hones] at hmod
  have hdouble : 2^(c + 1) ≤ 2^b := Nat.pow_le_pow_right Nat.two_pos hc
  rw [Nat.pow_succ] at hdouble
  have hc1 := Nat.two_pow_pos c
  omega

theorem mod_inj {m k k' : Nat} (h1 : 1 ≤ k ∧ k ≤ m) (h2 : 1 ≤ k' ∧ k' ≤ m) (h : k % m = k' % m) : k = k' := by
  rcases Nat.lt_or_eq_of_le h1.2 with hk | rfl
  · rcases Nat.lt_or_eq_of_le h2.2 with hk' | rfl
    · rwa [Nat.mod_eq_of_lt hk, Nat.mod_eq_of_lt hk'] at h
    · rw [Nat.mod_self, Nat.mod_eq_of_lt hk] at h
      omega
  · rcases Nat.lt_or_eq_of_le h2.2 with hk' | e
    · rw [Nat.mod_self, Nat.mod_eq_of_lt hk'] at h
      omega
    · exact e.symm

end

/-- the `k`-th handle that was given out has the number `k` -/
def Numbered (b : Nat) {n : Nat} (made : List (Nat × Fin n)) : Prop :=
  ∀ k e, made[k]? = some e → e.1 = handle b (k + 1) e.2.val

section
variable {b n : Nat} {made : List (Nat × Fin n)}

theorem Numbered.snoc (h : Numbered b made) (i : Fin n) :
    Numbered b (made ++ [(handle b (made.length + 1) i.val, i)]) := by
  intro k e he
  rcases Nat.lt_trichotomy k made.length with hk | rfl | hk
  · rw [List.getElem?_append_left hk] at he
    exact h k e he
  · rw [List.getElem?_concat_length] at he
    obtain rfl := Option.some.inj he
    rfl
  · rw [List.getElem?_eq_none (by rw [List.length_append, List.length_singleton]; exact hk)] at he
    cases he

theorem Numbered.nodup (hb : b ≤ 32) (hn : n ≤ 2^b) (hlen : made.length ≤ 2^(32 - b)) (h : Numbered b made) :
    (made.map Prod.fst).Nodup := by
  rw [List.nodup_iff_injective_getElem]
  rintro ⟨k, hk⟩ ⟨k', hk'⟩ he
  rw [List.length_map] at hk hk'
  simp only [List.getElem_map] at he
  rw [h k made[k] (List.getElem?_eq_getElem hk), h k' made[k'] (List.getElem?_eq_getElem hk')] at he
  have hdiv := congrArg (· / 2^b) he
  simp only [handle_div hb (Nat.lt_of_lt_of_le (Fin.isLt _) hn)] at hdiv
  have := mod_inj ⟨by omega, by omega⟩ ⟨by omega, by omega⟩ hdiv
  exact Fin.ext (by show k = k'; omega)

/-- the low bits of every handle are its slot -/
theorem Numbered.mod (hb : b ≤ 32) (hn : n ≤ 2^b) (h : Numbered b made) {e : Nat × Fin n} (he : e ∈ made) :
    e.1 % 2^b = e.2.val := by
  obtain ⟨k, hk⟩ := List.getElem?_of_mem he
  rw [h k e hk]
  exact handle_mod hb (Nat.le_refl b) (Nat.lt_of_lt_of_le e.2.isLt hn)

end

/-! ## a table and its history -/

/-- the slots `A` that hold an object, and the handles in them, are what was given out and has not ended -/
structure Tracks {I A : Type} (live : A → Prop) (id : A → I) (issued : List (I × A)) (ended : List I) : Prop where
  given : ∀ t, live t → (id t, t) ∈ issued ∧ id t ∉ ended
  alive : ∀ e ∈ issued, e.1 ∉ ended → live e.2 ∧ id e.2 = e.1
  ended : ∀ i ∈ ended, ∃ t, (i, t) ∈ issued

section
variable {I A : Type} {live live' : A → Prop} {id id' : A → I} {issued : List (I × A)} {ended : List I}

/-- **A handle leads to its object until it ends.** -/
theorem Tracks.resolves (h : Tracks live id issued ended) {e : I × A} (he : e ∈ issued) :
    live e.2 ∧ id e.2 = e.1 ↔ e.1 ∉ ended :=
  ⟨fun hl => hl.2 ▸ (h.given e.2 hl.1).2, h.alive e he⟩

/-- one object may come and one may go in a step -/
theorem Tracks.step (h : Tracks live id issued ended) (hnodup : (issued.map Prod.fst).Nodup)
    {new : Option (I × A)} {old : Option A}
    (hlive : ∀ t, live' t ↔ (live t ∧ old ≠ some t) ∨ ∃ i, new = some (i, t))
    (hid : ∀ t, (∀ i, new ≠ some (i, t)) → id' t = id t)
    (hnew : ∀ e, new = some e → id' e.2 = e.1 ∧ ¬ live e.2 ∧ e.1 ∉ issued.map Prod.fst)
    (hold : ∀ t, old = some t → live t) :
    Tracks live' id' (issued ++ new.toList) (ended ++ (old.map id).toList) := by
  have hended : ∀ i ∈ ended ++ (old.map id).toList, i ∈ issued.map Prod.fst := by
    intro i hi
    rcases List.mem_append.mp hi with hi | hi
    · obtain ⟨t, ht⟩ := h.ended i hi
      exact List.mem_map_of_mem ht
    · obtain ⟨u, hu, rfl⟩ := Option.map_eq_some_iff.mp (Option.mem_toList.mp hi)
      exact List.mem_map_of_mem (h.given u (hold u hu)).1
  have hstay : ∀ t, live t → ∀ i, new ≠ some (i, t) := fun t ht i hi => (hnew _ hi).2.1 ht
  refine ⟨fun t ht => ?_, fun e he hne => ?_, fun i hi => ?_⟩
  · rcases (hlive t).mp ht with ⟨hl, ho⟩ | ⟨i, hi⟩
    · obtain ⟨hmem, hno⟩ := h.given t hl
      rw [hid t (hstay t hl)]
      refine ⟨List.mem_append_left _ hmem, fun hm => ?_⟩
      rcases List.mem_append.mp hm with hm | hm
      · exact hno hm
      · obtain ⟨u, hu, e⟩ := Option.map_eq_some_iff.mp (Option.mem_toList.mp hm)
        have hsame := List.inj_on_of_nodup_map hnodup (h.given u (hold u hu)).1 hmem e
        obtain rfl : u = t := congrArg Prod.snd hsame
        exact ho hu
    · obtain ⟨hself, _, hfresh⟩ := hnew _ hi
      rw [hself]
      exact ⟨List.mem_append_right _ (Option.mem_toList.mpr hi), fun hm => hfresh (hended i hm)⟩
  · rw [List.mem_append, not_or] at hne
    rcases List.mem_append.mp he with he | he
    · obtain ⟨hl, hi⟩ := h.alive e he hne.1
      refine ⟨(hlive e.2).mpr (Or.inl ⟨hl, fun ho => hne.2 ?_⟩), (hid e.2 (hstay e.2 hl)).trans hi⟩
      rw [ho, ← hi]
      exact List.mem_cons_self
    · have hn := Option.mem_toList.mp he
      exact ⟨(hlive e.2).mpr (Or.inr ⟨e.1, hn⟩), (hnew e hn).1⟩
  · obtain ⟨e, he, rfl⟩ := List.mem_map.mp (hended i hi)
    exact ⟨e.2, List.mem_append_left _ he⟩

end

end Handle
