import Mathlib.Data.Finset.Card
import Mathlib.Order.Interval.Finset.Nat
import Clubcos.Edimg.Model

/-!
# The clusters of a file

* `Clusters`          the chain of a file in the table;
* `room`              how many clusters are free from a given one on;
* `Resized`           what `resizefile` is for: so many clusters as are asked for, the old ones first;
* `resizeFat_ok`, `resizeFat_full`   **it does so iff there is room**, else the disk image is full.
-/

set_option linter.unusedVariables false

namespace Clubcos.Edimg
open Chain

/-- the chain of a file whose entry has `start` as its first cluster -/
structure Clusters (limit : Nat) (fat : Nat → Nat) (start : Nat) (l : List Nat) : Prop where
  start : start = first 0 l
  ends : ∃ e, 0xfff8 ≤ e ∧ Leads fat e l
  inside : ∀ j ∈ l, 2 ≤ j ∧ j < limit
  nodup : l.Nodup

/-- the free clusters from `a` on -/
def room (limit : Nat) (fat : Nat → Nat) (a : Nat) : Nat := {j ∈ Finset.Ico a limit | fat j = 0}.card

variable {limit : Nat} {fat : Nat → Nat}

/-- the entry of a cluster in use is not 0 -/
theorem Leads.ne_zero {e : Nat} {l : List Nat} (h : Leads fat e l) (he : 0xfff8 ≤ e)
    (hl : ∀ j ∈ l, 2 ≤ j ∧ j < limit) : ∀ j ∈ l, fat j ≠ 0 := by
  intro j hj h0
  rcases h.entry j hj with hm | hm
  · have := hl _ hm
    omega
  · omega

theorem Clusters.ne_zero {start : Nat} {l : List Nat} (h : Clusters limit fat start l) : ∀ j ∈ l, fat j ≠ 0 := by
  obtain ⟨e, he, hl⟩ := h.ends
  exact Leads.ne_zero hl he h.inside

theorem Clusters.length_le {start : Nat} {l : List Nat} (h : Clusters limit fat start l) : l.length ≤ limit := by
  have hsub : l.toFinset ⊆ Finset.range limit := by
    intro j hj
    simp only [List.mem_toFinset] at hj
    exact Finset.mem_range.mpr (h.inside j hj).2
  have := Finset.card_le_card hsub
  rwa [List.toFinset_card_of_nodup h.nodup, Finset.card_range] at this

/-- another file's chain is still there if the table is the same on its clusters -/
theorem Clusters.congr {fat' : Nat → Nat} {start : Nat} {l : List Nat} (h : Clusters limit fat start l)
    (hs : ∀ j ∈ l, fat' j = fat j) : Clusters limit fat' start l := by
  obtain ⟨e, he, hl⟩ := h.ends
  exact ⟨h.start, ⟨e, he, hl.congr hs⟩, h.inside, h.nodup⟩

/-! ## free clusters -/

theorem free_cluster_ok {a i : Nat} (h : free_cluster limit fat i = .ok a) :
    i ≤ a ∧ a < limit ∧ fat a = 0 ∧ ∀ b, i ≤ b → b < a → fat b ≠ 0 := by
  unfold free_cluster at h
  cases hf : (List.range' i (limit - i)).find? fun j => fat j = 0 with
  | none => simp [hf] at h
  | some j =>
    simp only [hf, Except.ok.injEq] at h
    subst h
    rw [List.find?_range'_eq_some] at hf
    simp only [decide_eq_true_eq, List.mem_range'_1, Bool.not_eq_eq_eq_not, Bool.not_true, decide_eq_false_iff_not] at hf
    obtain ⟨h1, h2, h3⟩ := hf
    exact ⟨by omega, by omega, h1, h3⟩

theorem room_pos {i : Nat} : 0 < room limit fat i ↔ ∃ j, i ≤ j ∧ j < limit ∧ fat j = 0 := by
  simp [room, Finset.card_pos, Finset.Nonempty, and_assoc]

theorem free_cluster_some {i : Nat} (h : 0 < room limit fat i) : ∃ a, free_cluster limit fat i = .ok a := by
  obtain ⟨j, h1, h2, h3⟩ := room_pos.mp h
  unfold free_cluster
  cases hf : (List.range' i (limit - i)).find? fun j => fat j = 0 with
  | none =>
    rw [List.find?_eq_none] at hf
    have := hf j (List.mem_range'_1.mpr (by omega))
    simp [h3] at this
  | some a => exact ⟨a, rfl⟩

theorem free_cluster_full {i : Nat} (h : room limit fat i = 0) : free_cluster limit fat i = .error (.errend 18) := by
  unfold free_cluster
  cases hf : (List.range' i (limit - i)).find? fun j => fat j = 0 with
  | none => rfl
  | some a =>
    have hok : free_cluster limit fat i = .ok a := by
      unfold free_cluster
      rw [hf]
    obtain ⟨h1, h2, h3, _⟩ := free_cluster_ok hok
    have := room_pos.mpr ⟨a, h1, h2, h3⟩
    omega

/-- the first free cluster is taken -/
theorem room_take {fat' : Nat → Nat} {i a : Nat} (h : free_cluster limit fat i = .ok a)
    (hs : ∀ j, fat' j = 0 ↔ fat j = 0 ∧ j ≠ a) : room limit fat i = room limit fat' (a + 1) + 1 := by
  obtain ⟨h1, h2, h3, h4⟩ := free_cluster_ok h
  have hmem : a ∈ {j ∈ Finset.Ico i limit | fat j = 0} := by
    simp [h1, h2, h3]
  have herase : {j ∈ Finset.Ico (a + 1) limit | fat' j = 0} = {j ∈ Finset.Ico i limit | fat j = 0}.erase a := by
    ext j
    simp only [Finset.mem_filter, Finset.mem_Ico, Finset.mem_erase, hs]
    have := h4 j
    constructor
    · omega
    · rintro ⟨hne, ⟨hi, hlt⟩, h0⟩
      exact ⟨⟨by by_contra hc; exact this hi (by omega) h0, hlt⟩, h0, hne⟩
  rw [room, room, herase, Finset.card_erase_of_mem hmem]
  exact (Nat.sub_add_cancel (Finset.card_pos.mpr ⟨a, hmem⟩)).symm

/-! ## giving clusters back -/

theorem freeLoop_spec {e : Nat} (he : 0xfff7 ≤ e) : ∀ {l : List Nat} {fuel i : Nat} {fat : Nat → Nat},
    Leads fat e (i :: l) → (i :: l).Nodup → (∀ j ∈ i :: l, j < 0xfff7) → l.length < fuel →
    freeLoop fuel fat i = .ok (fill fat 0 (i :: l)) := by
  intro l
  induction l with
  | nil =>
    intro fuel i fat h _ _ hf
    obtain ⟨fuel, rfl⟩ := Nat.exists_eq_add_one_of_ne_zero (Nat.ne_of_gt hf)
    have hi : fat i = e := h.1
    rw [freeLoop, hi, if_neg (Nat.not_lt_of_le he)]
    rfl
  | cons b l ih =>
    intro fuel i fat h hn hlt hf
    obtain ⟨fuel, rfl⟩ := Nat.exists_eq_add_one_of_ne_zero (Nat.ne_of_gt (Nat.zero_lt_of_lt hf))
    have hi : fat i = b := h.1
    have hb : b < 0xfff7 := hlt b (by simp)
    have hib : i ∉ b :: l := (List.nodup_cons.mp hn).1
    rw [freeLoop, hi, if_pos hb]
    apply ih
    · apply Leads.congr h.2
      intro j hj
      exact Function.update_of_ne (ne_of_mem_of_not_mem hj hib) _ _
    · exact (List.nodup_cons.mp hn).2
    · exact fun j hj => hlt j (List.mem_cons_of_mem i hj)
    · exact Nat.lt_of_succ_lt_succ hf

theorem freeAll_spec {e i : Nat} {l : List Nat} (he : 0xfff8 ≤ e) (h : Leads fat e (i :: l)) (hn : (i :: l).Nodup)
    (hl : ∀ j ∈ i :: l, 2 ≤ j ∧ j < limit) (hlimit : limit ≤ 0xfff7) : freeAll fat i = .ok (fill fat 0 (i :: l)) := by
  have hc : Clusters limit fat i (i :: l) := ⟨rfl, ⟨e, he, h⟩, hl, hn⟩
  have := hc.length_le
  rw [List.length_cons] at this
  exact freeLoop_spec (by omega) h hn (fun j hj => by have := hl j hj; omega) (by omega)

/-! ## the loop of `resizefile` -/

/-- The chain is cut behind its first clusters. -/
theorem resizeLoop_shrink (hlimit : limit ≤ 0xfff7) {e : Nat} (he : 0xfff8 ≤ e) (alloc0 : Nat) : ∀ (n : Nat) {i : Nat}
    {r : List Nat}, Leads fat e (i :: r) → (i :: r).Nodup → (∀ j ∈ i :: r, 2 ≤ j ∧ j < limit) → n ≤ r.length →
    ∃ fat' e', resizeLoop limit (n + 1) fat i alloc0 = .ok fat' ∧ 0xfff8 ≤ e' ∧ Leads fat' e' ((i :: r).take (n + 1)) ∧
      (∀ x ∈ (i :: r).drop (n + 1), fat' x = 0) ∧ ∀ x, x ∉ i :: r → fat' x = fat x := by
  intro n
  induction n with
  | zero =>
    intro i r h hn hl _
    have hi : fat i = first e r := h.1
    cases r with
    | nil =>
      refine ⟨fat, e, ?_, he, h, by simp, fun _ _ => rfl⟩
      rw [resizeLoop, hi, if_pos (by simpa using he)]
    | cons b r =>
      have hb := hl b (by simp)
      have hib : i ∉ b :: r := (List.nodup_cons.mp hn).1
      have hleads : Leads (Function.update fat i 0xffff) e (b :: r) :=
        Leads.congr h.2 fun j hj => Function.update_of_ne (ne_of_mem_of_not_mem hj hib) _ _
      refine ⟨fill (Function.update fat i 0xffff) 0 (b :: r), 0xffff, ?_, by omega, ?_, ?_, ?_⟩
      · rw [resizeLoop, hi, first_cons, if_neg (by omega), if_pos (by omega)]
        exact freeAll_spec he hleads (List.nodup_cons.mp hn).2 (fun j hj => hl j (List.mem_cons_of_mem i hj)) hlimit
      · have hfill : fill (Function.update fat i 0xffff) 0 (b :: r) i = 0xffff := by
          rw [fill_apply, if_neg hib, Function.update_self]
        exact ⟨hfill, trivial⟩
      · intro x hx
        rw [fill_apply, if_pos (by simpa using hx)]
      · intro x hx
        rw [List.mem_cons, not_or] at hx
        rw [fill_apply, if_neg hx.2, Function.update_of_ne hx.1]
  | succ n ih =>
    intro i r h hn hl hlen
    cases r with
    | nil => exact absurd hlen (Nat.not_succ_le_zero n)
    | cons b r =>
      have hi : fat i = b := h.1
      have hb := hl b (by simp)
      have hib : i ∉ b :: r := (List.nodup_cons.mp hn).1
      obtain ⟨fat', e', hok, he', hleads, hfree, hsame⟩ := ih h.2 (List.nodup_cons.mp hn).2
        (fun j hj => hl j (List.mem_cons_of_mem i hj)) (Nat.le_of_succ_le_succ hlen)
      refine ⟨fat', e', ?_, he', ?_, hfree, fun x hx => hsame x fun hm => hx (List.mem_cons_of_mem i hm)⟩
      · rw [resizeLoop, hi, if_neg (by omega)]
        exact hok
      · exact ⟨(hsame i hib).trans hi, hleads⟩

/-- Clusters are added to the chain, as far as there are free ones. -/
theorem resizeLoop_grow (hlimit : limit ≤ 0xfff7) : ∀ (n : Nat) {fat : Nat → Nat} {e i alloc0 : Nat} {r : List Nat},
    0xfff8 ≤ e → Leads fat e (i :: r) → (i :: r).Nodup → (∀ j ∈ i :: r, 2 ≤ j ∧ j < limit) → 2 ≤ alloc0 →
    r.length ≤ n →
    if n ≤ r.length + room limit fat alloc0 then
      ∃ fat' e' new, resizeLoop limit (n + 1) fat i alloc0 = .ok fat' ∧ 0xfff8 ≤ e' ∧ Leads fat' e' (i :: r ++ new) ∧
        new.length = n - r.length ∧ new.Nodup ∧ (∀ x ∈ new, fat x = 0 ∧ alloc0 ≤ x ∧ x < limit) ∧
        ∀ x, x ∉ i :: r ++ new → fat' x = fat x
    else resizeLoop limit (n + 1) fat i alloc0 = .error (.errend 18) := by
  intro n
  induction n with
  | zero =>
    intro fat e i alloc0 r he h _ _ _ hlen
    have hr : r = [] := List.length_eq_zero_iff.mp (Nat.le_zero.mp hlen)
    subst hr
    rw [if_pos (Nat.zero_le _)]
    have hi : fat i = e := h.1
    refine ⟨fat, e, [], ?_, he, h, rfl, List.nodup_nil, by simp, fun _ _ => rfl⟩
    rw [resizeLoop, hi, if_pos he]
  | succ n ih =>
    intro fat e i alloc0 r he h hn hl ha hlen
    cases r with
    | cons b r =>
      have hi : fat i = b := h.1
      have hb := hl b (by simp)
      have hib : i ∉ b :: r := (List.nodup_cons.mp hn).1
      have hnext := ih he h.2 (List.nodup_cons.mp hn).2 (fun j hj => hl j (List.mem_cons_of_mem i hj)) ha (Nat.le_of_succ_le_succ hlen)
      have hstep : resizeLoop limit (n + 1 + 1) fat i alloc0 = resizeLoop limit (n + 1) fat b alloc0 := by
        rw [resizeLoop, hi, if_neg (by omega)]
      rw [hstep, List.length_cons]
      split at hnext
      · rename_i hroom
        rw [if_pos (by omega)]
        obtain ⟨fat', e', new, hok, he', hleads, hlength, hnodup, hnew, hsame⟩ := hnext
        have hfi : fat' i = fat i := by
          apply hsame
          rw [List.mem_append, not_or]
          refine ⟨hib, fun hm => ?_⟩
          have := (hnew i hm).1
          omega
        refine ⟨fat', e', new, hok, he', ⟨?_, hleads⟩, by omega, hnodup, hnew, fun x hx => hsame x fun hm => hx ?_⟩
        · rw [hfi, hi]
          rfl
        · exact List.mem_cons_of_mem i hm
      · rename_i hroom
        rw [if_neg (by omega)]
        exact hnext
    | nil =>
      have hi : fat i = e := h.1
      rw [List.length_nil, Nat.zero_add]
      by_cases hroom : room limit fat alloc0 = 0
      · rw [if_neg (by omega), resizeLoop, hi, if_pos he, free_cluster_full hroom]
      · obtain ⟨a, hfree⟩ := free_cluster_some (Nat.pos_of_ne_zero hroom)
        obtain ⟨h1, h2, h3, _⟩ := free_cluster_ok hfree
        have hai : a ≠ i := by
          intro hai
          rw [hai, hi] at h3
          omega
        have hstep : resizeLoop limit (n + 1 + 1) fat i alloc0 =
            resizeLoop limit (n + 1) (Function.update (Function.update fat i a) a 0xffff) a (a + 1) := by
          rw [resizeLoop, hi, if_pos he, hfree]
        have htable : ∀ j, Function.update (Function.update fat i a) a 0xffff j = 0 ↔ fat j = 0 ∧ j ≠ a := by
          intro j
          by_cases hja : j = a
          · simp [hja]
          · rw [Function.update_of_ne hja]
            by_cases hji : j = i
            · rw [hji, Function.update_self, hi]
              omega
            · rw [Function.update_of_ne hji]
              simp [hja]
        have hcount := room_take hfree htable
        have hlast : Leads (Function.update (Function.update fat i a) a 0xffff) 0xffff [a] :=
          ⟨Function.update_self .., trivial⟩
        have hnext := ih (by omega) hlast (by simp) (by simp only [List.mem_singleton]; omega)
          (show 2 ≤ a + 1 by omega) (Nat.zero_le _)
        rw [hstep]
        rw [List.length_nil, Nat.zero_add] at hnext
        split at hnext
        · rw [if_pos (by omega)]
          obtain ⟨fat', e', new, hok, he', hleads, hlength, hnodup, hnew, hsame⟩ := hnext
          have hanew : a ∉ new := by
            intro hm
            have := (hnew a hm).2.1
            omega
          refine ⟨fat', e', a :: new, hok, he', ⟨?_, hleads⟩, ?_, List.nodup_cons.mpr ⟨hanew, hnodup⟩, ?_, ?_⟩
          · rw [hsame i, Function.update_of_ne hai.symm, Function.update_self]
            · rfl
            · rw [List.singleton_append, List.mem_cons, not_or]
              refine ⟨hai.symm, fun hm => ?_⟩
              have := ((htable i).mp (hnew i hm).1).1
              omega
          · simp only [List.length_cons]
            omega
          · intro x hx
            rcases List.mem_cons.mp hx with rfl | hx
            · exact ⟨h3, h1, h2⟩
            · obtain ⟨hx1, hx2, hx3⟩ := hnew x hx
              exact ⟨((htable x).mp hx1).1, by omega, hx3⟩
          · intro x hx
            rw [List.singleton_append, List.mem_cons, not_or, List.mem_cons, not_or] at hx
            rw [hsame x, Function.update_of_ne hx.2.1, Function.update_of_ne hx.1]
            rw [List.singleton_append, List.mem_cons, not_or]
            exact hx.2
        · rw [if_neg (by omega)]
          exact hnext

/-! ## what is in the table -/

/-- Nothing comes into the table but numbers of clusters, the end of a chain and 0. -/
def Relinked (limit : Nat) (fat fat' : Nat → Nat) : Prop :=
  ∀ j, fat' j = fat j ∨ fat' j = 0 ∨ fat' j = 0xffff ∨ fat' j < limit

theorem Relinked.refl (fat : Nat → Nat) : Relinked limit fat fat := fun j => Or.inl rfl

theorem Relinked.trans {limit' : Nat} {fat₁ fat₂ : Nat → Nat} (h : Relinked limit fat fat₁)
    (h' : Relinked limit' fat₁ fat₂) (hle : limit' ≤ limit) : Relinked limit fat fat₂ := by
  intro j
  rcases h' j with h1 | h1 | h1 | h1
  · rw [h1]
    exact h j
  · exact Or.inr (Or.inl h1)
  · exact Or.inr (Or.inr (Or.inl h1))
  · exact Or.inr (Or.inr (Or.inr (Nat.lt_of_lt_of_le h1 hle)))

theorem relinked_update (i : Nat) {v : Nat} (hv : v = 0 ∨ v = 0xffff ∨ v < limit) :
    Relinked limit fat (Function.update fat i v) := by
  intro j
  by_cases hji : j = i
  · rw [hji, Function.update_self]
    exact Or.inr hv
  · exact Or.inl (Function.update_of_ne hji v fat)

theorem freeLoop_relinked (limit : Nat) {fat' : Nat → Nat} : ∀ {fuel i : Nat} {fat : Nat → Nat},
    freeLoop fuel fat i = .ok fat' → Relinked limit fat fat' := by
  intro fuel
  induction fuel with
  | zero =>
    intro i fat h
    cases h
  | succ fuel ih =>
    intro i fat h
    have hzero : Relinked limit fat (Function.update fat i 0) := relinked_update i (Or.inl rfl)
    rw [freeLoop] at h
    split at h
    · exact hzero.trans (ih h) (Nat.le_refl _)
    · rw [← Except.ok.inj h]
      exact hzero

theorem resizeLoop_relinked {fat' : Nat → Nat} : ∀ {n i alloc0 : Nat} {fat : Nat → Nat},
    resizeLoop limit n fat i alloc0 = .ok fat' → Relinked limit fat fat' := by
  intro n
  induction n with
  | zero =>
    intro i alloc0 fat h
    rw [← Except.ok.inj h]
    exact Relinked.refl fat
  | succ n ih =>
    intro i alloc0 fat h
    cases n with
    | zero =>
      rw [resizeLoop] at h
      simp only at h
      split at h
      · rw [← Except.ok.inj h]
        exact Relinked.refl fat
      · have hend : Relinked limit fat (Function.update fat i 0xffff) := relinked_update i (Or.inr (Or.inl rfl))
        split at h
        · exact hend.trans (freeLoop_relinked limit h) (Nat.le_refl _)
        · rw [← Except.ok.inj h]
          exact hend
    | succ n =>
      rw [resizeLoop] at h
      split at h
      · cases hfree : free_cluster limit fat alloc0 with
        | error e =>
          rw [hfree] at h
          cases h
        | ok a =>
          rw [hfree] at h
          have ha := (free_cluster_ok hfree).2.1
          have h1 : Relinked limit fat (Function.update fat i a) := relinked_update i (Or.inr (Or.inr ha))
          have h2 : Relinked limit (Function.update fat i a) (Function.update (Function.update fat i a) a 0xffff) :=
            relinked_update a (Or.inr (Or.inl rfl))
          exact (h1.trans h2 (Nat.le_refl _)).trans (ih h) (Nat.le_refl _)
      · exact ih h

theorem resizeFat_relinked {i n alloc0 : Nat} {r : Nat × (Nat → Nat)} (h : resizeFat limit fat i n alloc0 = .ok r) :
    Relinked limit fat r.2 := by
  unfold resizeFat at h
  split at h
  · split at h
    · rw [← Except.ok.inj h]
      exact Relinked.refl fat
    · cases hfree : freeAll fat i with
      | error e =>
        rw [hfree] at h
        cases h
      | ok fat' =>
        rw [hfree] at h
        rw [← Except.ok.inj h]
        exact freeLoop_relinked limit hfree
  · split at h
    · cases hfree : free_cluster limit fat alloc0 with
      | error e =>
        rw [hfree] at h
        cases h
      | ok a =>
        simp only [hfree] at h
        cases hloop : resizeLoop limit n (Function.update fat a 0xffff) a (a + 1) with
        | error e =>
          rw [hloop] at h
          cases h
        | ok fat' =>
          rw [hloop] at h
          rw [← Except.ok.inj h]
          have hend : Relinked limit fat (Function.update fat a 0xffff) := relinked_update a (Or.inr (Or.inl rfl))
          exact hend.trans (resizeLoop_relinked hloop) (Nat.le_refl _)
    · cases hloop : resizeLoop limit n fat i alloc0 with
      | error e =>
        rw [hloop] at h
        cases h
      | ok fat' =>
        rw [hloop] at h
        rw [← Except.ok.inj h]
        exact resizeLoop_relinked hloop

/-! ## resizefile -/

/-- the table behind a change of the number of clusters from those of `l` to `n`, which are those of `l'` -/
structure Resized (limit : Nat) (fat : Nat → Nat) (l : List Nat) (n alloc0 : Nat) (fat' : Nat → Nat) (l' : List Nat) :
    Prop where
  clusters : Clusters limit fat' (first 0 l') l'
  length : l'.length = n
  /-- the old clusters stay, up to the new number of them -/
  keeps : l' = l.take n ∨ ∃ new, l' = l ++ new
  fresh : ∀ x ∈ l', x ∉ l → fat x = 0 ∧ alloc0 ≤ x
  freed : ∀ x ∈ l, x ∉ l' → fat' x = 0
  same : ∀ x, x ∉ l → x ∉ l' → fat' x = fat x

theorem Resized.nil {i : Nat} {l : List Nat} (h : Clusters limit fat i l) (alloc0 : Nat) :
    Resized limit fat l 0 alloc0 (fill fat 0 l) [] where
  clusters := ⟨rfl, ⟨0xffff, by omega, trivial⟩, by simp, List.nodup_nil⟩
  length := rfl
  keeps := Or.inl rfl
  fresh := by simp
  freed := fun x hx _ => by rw [fill_apply, if_pos hx]
  same := fun x hx _ => by rw [fill_apply, if_neg hx]

theorem Resized.loop {i n alloc0 : Nat} {l : List Nat} (hlimit : limit ≤ 0xfff7) (h : Clusters limit fat i (i :: l))
    (ha : 2 ≤ alloc0) : if n ≤ l.length + room limit fat alloc0 then
      ∃ fat' l', resizeLoop limit (n + 1) fat i alloc0 = .ok fat' ∧ Resized limit fat (i :: l) (n + 1) alloc0 fat' (i :: l')
    else resizeLoop limit (n + 1) fat i alloc0 = .error (.errend 18) := by
  obtain ⟨e, he, hleads⟩ := h.ends
  by_cases hn : n ≤ l.length
  · rw [if_pos (by omega)]
    obtain ⟨fat', e', hok, he', hleads', hfree, hsame⟩ := resizeLoop_shrink hlimit he alloc0 n hleads h.nodup h.inside hn
    refine ⟨fat', l.take n, hok, ⟨rfl, ⟨e', he', hleads'⟩, fun j hj => ?_, ?_⟩, ?_, Or.inl rfl, fun x hx hxl => ?_,
      fun x hx hxl => ?_, fun x hx _ => hsame x hx⟩
    · exact h.inside j (List.mem_of_mem_take (i := n + 1) hj)
    · exact h.nodup.sublist (List.take_sublist (n + 1) (i :: l))
    · rw [List.length_cons, List.length_take]
      omega
    · exact absurd (List.mem_of_mem_take (i := n + 1) hx) hxl
    · apply hfree
      rw [← List.take_append_drop (n + 1) (i :: l), List.mem_append] at hx
      exact hx.resolve_left hxl
  · have hgrow := resizeLoop_grow hlimit n he hleads h.nodup h.inside ha (by omega)
    split at hgrow
    · rename_i hroom
      rw [if_pos hroom]
      obtain ⟨fat', e', new, hok, he', hleads', hlength, hnodup, hnew, hsame⟩ := hgrow
      have hapart : ∀ x ∈ i :: l, x ∉ new := fun x hx hm => h.ne_zero x hx (hnew x hm).1
      refine ⟨fat', l ++ new, hok, ⟨rfl, ⟨e', he', hleads'⟩, fun j hj => ?_, ?_⟩, ?_, Or.inr ⟨new, rfl⟩, fun x hx hxl => ?_,
        fun x hx hxl => ?_, fun x _ hx => hsame x hx⟩
      · rw [← List.cons_append, List.mem_append] at hj
        rcases hj with hj | hj
        · exact h.inside j hj
        · have := hnew j hj
          omega
      · exact List.nodup_append.mpr ⟨h.nodup, hnodup, fun a ha b hb hab => hapart a ha (hab ▸ hb)⟩
      · rw [List.length_cons, List.length_append]
        omega
      · rw [← List.cons_append, List.mem_append] at hx
        have := hnew x (hx.resolve_left hxl)
        exact ⟨this.1, this.2.1⟩
      · exact absurd (List.mem_append_left new hx) hxl
    · rename_i hroom
      rw [if_neg hroom]
      exact hgrow

/-- **`resizefile`** gives a file as many clusters as are asked for, or stops because there are not so many free ones. -/
theorem resizeFat_spec {i n alloc0 : Nat} {l : List Nat} (hlimit : limit ≤ 0xfff7) (h : Clusters limit fat i l)
    (ha : 2 ≤ alloc0) : if n ≤ l.length + room limit fat alloc0 then
      ∃ fat' l', resizeFat limit fat i n alloc0 = .ok (first 0 l', fat') ∧ Resized limit fat l n alloc0 fat' l'
    else resizeFat limit fat i n alloc0 = .error (.errend 18) := by
  have hstart := h.start
  cases n with
  | zero =>
    rw [if_pos (Nat.zero_le _)]
    refine ⟨fill fat 0 l, [], ?_, Resized.nil h alloc0⟩
    cases l with
    | nil =>
      rw [hstart]
      rfl
    | cons j l =>
      obtain ⟨e, he, hleads⟩ := h.ends
      have hj := h.inside j List.mem_cons_self
      rw [first_cons] at hstart
      subst hstart
      rw [resizeFat, if_pos rfl, if_neg (by omega), freeAll_spec he hleads h.nodup h.inside hlimit]
      rfl
  | succ n =>
    cases l with
    | cons j l =>
      rw [first_cons] at hstart
      subst hstart
      have hi := h.inside i List.mem_cons_self
      have hloop := Resized.loop (n := n) hlimit h ha
      rw [List.length_cons]
      have hstep : resizeFat limit fat i (n + 1) alloc0 =
          (resizeLoop limit (n + 1) fat i alloc0).map fun fat => (i, fat) := by
        rw [resizeFat, if_neg (Nat.succ_ne_zero n), if_neg (by omega)]
      split at hloop
      · rw [if_pos (by omega)]
        obtain ⟨fat', l', hok, hres⟩ := hloop
        refine ⟨fat', i :: l', ?_, hres⟩
        rw [hstep, hok]
        rfl
      · rw [if_neg (by omega), hstep, hloop]
        rfl
    | nil =>
      rw [first_nil] at hstart
      subst hstart
      rw [List.length_nil, Nat.zero_add]
      by_cases hroom : room limit fat alloc0 = 0
      · rw [if_neg (by omega), resizeFat, if_neg (Nat.succ_ne_zero n), if_pos rfl, free_cluster_full hroom]
      · obtain ⟨a, hfree⟩ := free_cluster_some (Nat.pos_of_ne_zero hroom)
        obtain ⟨h1, h2, h3, _⟩ := free_cluster_ok hfree
        have hstep : resizeFat limit fat 0 (n + 1) alloc0 =
            (resizeLoop limit (n + 1) (Function.update fat a 0xffff) a (a + 1)).map fun fat => (a, fat) := by
          rw [resizeFat, if_neg (Nat.succ_ne_zero n), if_pos rfl, hfree]
        have htable : ∀ j, Function.update fat a 0xffff j = 0 ↔ fat j = 0 ∧ j ≠ a := by
          intro j
          by_cases hja : j = a <;> simp [hja]
        have hcount := room_take hfree htable
        have hone : Clusters limit (Function.update fat a 0xffff) a [a] :=
          ⟨rfl, ⟨0xffff, by omega, Function.update_self .., trivial⟩, by simp only [List.mem_singleton]; omega, by simp⟩
        have hloop := Resized.loop (n := n) hlimit hone (show 2 ≤ a + 1 by omega)
        rw [List.length_nil, Nat.zero_add] at hloop
        split at hloop
        · rw [if_pos (by omega)]
          obtain ⟨fat', l', hok, hres⟩ := hloop
          refine ⟨fat', a :: l', ?_, hres.clusters, hres.length, Or.inr ⟨a :: l', rfl⟩, fun x hx _ => ?_, by simp,
            fun x _ hx => ?_⟩
          · rw [hstep, hok]
            rfl
          · rcases List.mem_cons.mp hx with rfl | hx'
            · exact ⟨h3, h1⟩
            · have hxa : x ≠ a := fun hxa => (List.nodup_cons.mp hres.clusters.nodup).1 (hxa ▸ hx')
              have := hres.fresh x hx (by simpa using hxa)
              exact ⟨((htable x).mp this.1).1, by omega⟩
          · have hxa : x ≠ a := fun hxa => hx (by simp [hxa])
            rw [hres.same x (by simpa using hxa) hx, Function.update_of_ne hxa]
        · rw [if_neg (by omega), hstep, hloop]
          rfl

end Clubcos.Edimg
