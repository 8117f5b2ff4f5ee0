import Mathlib.Data.Nat.Bitwise
import Mathlib.Data.Set.Basic
import Mathlib.Tactic.Ring

/-!
# Aligned power-of-two blocks and the maximal blocks of a set of units

The block `b` of level `i` is the set of units `u` with `u / 2^i = b`.  For a set `F` of units

* `Full F i b`   the block lies inside `F`;
* `Maxi F i b`   the block lies inside `F` and the block of the next level around it does not.

The maximal blocks of a bounded set tile it (`exists_maxi`, `maxi_unique`), so a table of maximal
blocks is a function of the set alone.  A buddy system keeps exactly this table; its two
operations, for any set:

* `maxi_take`                            a maximal block is split to take out its first block of a
                                         lower level: one entry goes, one per level between comes;
* `pend_start`, `pend_join`, `pend_stop` a block is put back and joined with its buddy as long as
                                         the buddy is maximal too.
-/

namespace Dyadic

/-- the block `b` of level `i` -/
def blk (i b : Nat) : Set Nat := {u | u / 2^i = b}

/-- the block lies inside `F` -/
def Full (F : Set Nat) (i b : Nat) : Prop := blk i b ⊆ F

/-- the block lies inside `F` and cannot grow -/
def Maxi (F : Set Nat) (i b : Nat) : Prop := Full F i b ∧ ¬ Full F (i+1) (b/2)

/-! ## blocks -/

theorem mem_blk {i b u : Nat} : u ∈ blk i b ↔ u / 2^i = b := Iff.rfl

theorem mem_blk_iff {i b u : Nat} : u ∈ blk i b ↔ b * 2^i ≤ u ∧ u < (b+1) * 2^i := by
  have h := Nat.two_pow_pos i
  rw [mem_blk, Nat.div_eq_iff h, Nat.succ_mul]
  omega

theorem first_mem (i b : Nat) : b * 2^i ∈ blk i b := Nat.mul_div_cancel b (Nat.two_pow_pos i)

theorem last_mem (i b : Nat) : (b+1) * 2^i - 1 ∈ blk i b := by
  have h := Nat.two_pow_pos i
  rw [mem_blk_iff, Nat.succ_mul]
  omega

theorem div_div_pow {i j : Nat} (h : i ≤ j) (u : Nat) : u / 2^i / 2^(j-i) = u / 2^j := by
  rw [Nat.div_div_eq_div_mul, ← pow_add, Nat.add_sub_cancel' h]

theorem div_pow_succ (u i : Nat) : u / 2^(i+1) = u / 2^i / 2 := by
  rw [pow_succ, Nat.div_div_eq_div_mul]

/-- a unit lies in the block of the higher level around its block -/
theorem mem_up {i j b u : Nat} (h : i ≤ j) (hu : u ∈ blk i b) : u ∈ blk j (b / 2^(j-i)) := by
  rw [mem_blk] at hu ⊢
  rw [← hu, div_div_pow h]

theorem blk_sub_up {i j : Nat} (h : i ≤ j) (b : Nat) : blk i b ⊆ blk j (b / 2^(j-i)) :=
  fun _ hu => mem_up h hu

theorem blk_sub_succ (i b : Nat) : blk i b ⊆ blk (i+1) (b/2) := by
  have h := blk_sub_up (Nat.le_succ i) b
  rwa [Nat.succ_sub (Nat.le_refl i), Nat.sub_self, pow_one] at h

/-- two blocks with a common unit: the one of the higher level is the one around the other -/
theorem eq_up {i j b c u : Nat} (h : i ≤ j) (hb : u ∈ blk i b) (hc : u ∈ blk j c) :
    b / 2^(j-i) = c :=
  (mem_up h hb).symm.trans hc

theorem sub_of_meet {i j b c u : Nat} (h : i ≤ j) (hb : u ∈ blk i b) (hc : u ∈ blk j c) :
    blk i b ⊆ blk j c := eq_up h hb hc ▸ blk_sub_up h b

theorem eq_of_meet {i b c u : Nat} (hb : u ∈ blk i b) (hc : u ∈ blk i c) : b = c := hb.symm.trans hc

theorem blk_inj {i b c : Nat} (h : blk i b ⊆ blk i c) : b = c := eq_of_meet (first_mem i b) (h (first_mem i b))

/-- a block inside another one is of no higher level -/
theorem le_of_sub {i j b c : Nat} (h : blk i b ⊆ blk j c) : i ≤ j := by
  by_contra hlt
  have hj : j ≤ i := by omega
  have h0 := mem_blk_iff.mp (h (first_mem i b))
  have h1 := mem_blk_iff.mp (h (last_mem i b))
  have h2 : 2^(j+1) ≤ 2^i := Nat.pow_le_pow_right (by omega) (by omega)
  have h3 := Nat.two_pow_pos j
  rw [pow_succ] at h2
  rw [Nat.succ_mul] at h1 h0
  rw [Nat.succ_mul] at h1
  omega

/-- the two blocks of a pair of buddies -/
theorem half_eq_iff {c d : Nat} : d / 2 = c / 2 ↔ d = c ∨ d = c ^^^ 1 := by
  rcases Nat.even_or_odd c with h | h
  · rw [Nat.xor_one_of_even h]
    obtain ⟨r, rfl⟩ := h
    omega
  · rw [Nat.xor_one_of_odd h]
    obtain ⟨r, rfl⟩ := h
    omega

theorem buddy_half (c : Nat) : (c ^^^ 1) / 2 = c / 2 := half_eq_iff.mpr (Or.inr rfl)

theorem buddy_ne (c : Nat) : c ^^^ 1 ≠ c := by
  rcases Nat.even_or_odd c with h | h
  · rw [Nat.xor_one_of_even h]; omega
  · rw [Nat.xor_one_of_odd h]
    obtain ⟨r, rfl⟩ := h
    omega

theorem mem_succ_iff {i c u : Nat} : u ∈ blk (i+1) (c/2) ↔ u ∈ blk i c ∨ u ∈ blk i (c ^^^ 1) := by
  rw [mem_blk, div_pow_succ, half_eq_iff]
  rfl

/-! ## maximal blocks -/

theorem Full.mono {F G : Set Nat} (h : F ⊆ G) {i b : Nat} (hF : Full F i b) : Full G i b :=
  hF.trans h

theorem Full.of_sub {F : Set Nat} {i j b c : Nat} (hF : Full F j c) (h : blk i b ⊆ blk j c) :
    Full F i b := h.trans hF

/-- a block of the next level is full if both its halves are -/
theorem full_succ {F : Set Nat} {i c : Nat} (h1 : Full F i c) (h2 : Full F i (c ^^^ 1)) :
    Full F (i+1) (c/2) := by
  intro u hu
  rcases mem_succ_iff.mp hu with h | h
  · exact h1 h
  · exact h2 h

theorem Full.buddy {F : Set Nat} {i c : Nat} (h : Full F (i+1) (c/2)) : Full F i (c ^^^ 1) := by
  have h1 := blk_sub_succ i (c ^^^ 1)
  rw [buddy_half] at h1
  exact h.of_sub h1

/-- no block that is properly larger than a maximal one is full -/
theorem Maxi.not_full {F : Set Nat} {i j b c : Nat} (h : Maxi F i b) (hij : i < j)
    (hs : blk i b ⊆ blk j c) : ¬ Full F j c := by
  intro hF
  have hm := blk_sub_succ i b (first_mem i b)
  exact h.2 (hF.of_sub (sub_of_meet hij hm (hs (first_mem i b))))

/-- the maximal blocks are pairwise disjoint -/
theorem maxi_unique {F : Set Nat} {i j b c u : Nat} (h1 : Maxi F i b) (h2 : Maxi F j c)
    (hb : u ∈ blk i b) (hc : u ∈ blk j c) : i = j ∧ b = c := by
  rcases Nat.lt_trichotomy i j with h | h | h
  · exact absurd h2.1 (h1.not_full h (sub_of_meet h.le hb hc))
  · subst h
    exact ⟨rfl, eq_of_meet hb hc⟩
  · exact absurd h1.1 (h2.not_full h (sub_of_meet h.le hc hb))

/-- in a bounded set every full block grows to a maximal one -/
theorem exists_maxi {F : Set Nat} {N : Nat} (hN : ∀ u ∈ F, u < N) {k m : Nat} (h : Full F k m) :
    ∃ j, k ≤ j ∧ Maxi F j (m / 2^(j-k)) := by
  by_contra hno
  have hall : ∀ d, Full F (k+d) (m / 2^d) := by
    intro d
    induction d with
    | zero => rw [pow_zero, Nat.div_one]; exact h
    | succ d ih =>
      by_contra hn
      refine hno ⟨k+d, Nat.le_add_right k d, ?_⟩
      rw [Nat.add_sub_cancel_left]
      refine ⟨ih, ?_⟩
      rw [← div_pow_succ]
      exact hn
  have h1 := hN _ (hall N (last_mem (k+N) (m / 2^N)))
  have h2 : N < 2^(k+N) := lt_of_lt_of_le Nat.lt_two_pow_self (Nat.pow_le_pow_right (by omega) (by omega))
  rw [Nat.succ_mul] at h1
  omega

theorem exists_maxi_mem {F : Set Nat} {N : Nat} (hN : ∀ u ∈ F, u < N) {u : Nat} (hu : u ∈ F) :
    ∃ j b, u ∈ blk j b ∧ Maxi F j b := by
  have h0 : Full F 0 u := by
    intro v hv
    rw [mem_blk, pow_zero, Nat.div_one] at hv
    exact hv ▸ hu
  obtain ⟨j, _, hj⟩ := exists_maxi hN h0
  exact ⟨j, _, rfl, hj⟩

/-! ## taking a block out -/

theorem full_diff_iff {F : Set Nat} {i c k a : Nat} :
    Full (F \ blk k a) i c ↔ Full F i c ∧ ∀ u ∈ blk i c, u ∉ blk k a :=
  ⟨fun h => ⟨fun _ hu => (h hu).1, fun _ hu => (h hu).2⟩, fun h _ hu => ⟨h.1 hu, h.2 _ hu⟩⟩

/-- the first unit of a block is the first unit of its first block of any lower level -/
theorem first_mem_sub {j l : Nat} (h : l ≤ j) (b : Nat) : b * 2^j ∈ blk l (b * 2^(j-l)) := by
  have e : b * 2^(j-l) * 2^l = b * 2^j := by rw [Nat.mul_assoc, ← Nat.pow_add, Nat.sub_add_cancel h]
  exact e ▸ first_mem l (b * 2^(j-l))

/-- among the blocks of a level between `k` and `j`, only the first one meets the first one of
level `k` -/
theorem apart_first_iff {j k l b d : Nat} (hk : k ≤ l) (hl : l ≤ j) :
    (∀ u ∈ blk l d, u ∉ blk k (b * 2^(j-k))) ↔ d ≠ b * 2^(j-l) := by
  have hkj := first_mem_sub (hk.trans hl) b
  have hlj := first_mem_sub hl b
  constructor
  · intro h e
    exact h _ (e ▸ hlj) hkj
  · intro hne u hu huk
    exact hne ((eq_up hk huk hu).symm.trans (eq_up hk hkj hlj))

/-- The maximal blocks after the first block of level `k` of the maximal block `b` of level `j` is
taken out: `b` goes, and at every level from `k` to `j-1` one block comes. -/
theorem maxi_take {F : Set Nat} {j b k : Nat} (hm : Maxi F j b) (hk : k ≤ j) (i c : Nat) :
    Maxi (F \ blk k (b * 2^(j-k))) i c ↔
      (Maxi F i c ∧ ¬ (i = j ∧ c = b)) ∨ (k ≤ i ∧ i < j ∧ c = b * 2^(j-i) + 1) := by
  have hsub : blk k (b * 2^(j-k)) ⊆ blk j b :=
    sub_of_meet hk (first_mem_sub hk b) (first_mem j b)
  by_cases hd : ∃ u ∈ blk i c, u ∈ blk j b
  · obtain ⟨u, hu, hub⟩ := hd
    rcases Nat.lt_trichotomy i j with hij | hij | hij
    · -- a proper part of `b`: not maximal before
      have hpar : Full F (i+1) (c/2) :=
        hm.1.of_sub (sub_of_meet hij (blk_sub_succ i c hu) hub)
      have hnot : ¬ Maxi F i c := fun h => h.2 hpar
      have hfull : Full F i c := hpar.of_sub (blk_sub_succ i c)
      have e : b * 2^(j-i) = 2 * (b * 2^(j-(i+1))) := by
        have e1 : j - i = (j - (i+1)) + 1 := by omega
        rw [e1, pow_succ]
        ring
      rw [Maxi, full_diff_iff, full_diff_iff]
      by_cases hki : k ≤ i
      · have h1 := apart_first_iff (b := b) (d := c) hki hij.le
        have h2 := apart_first_iff (b := b) (d := c/2) (Nat.le_succ_of_le hki) hij
        rw [h1, h2]
        have hhalf : c / 2 = b * 2^(j-(i+1)) ∧ c ≠ b * 2^(j-i) ↔ c = b * 2^(j-i) + 1 := by
          rw [e]; omega
        constructor
        · rintro ⟨⟨_, hne⟩, hp⟩
          have hp' : c / 2 = b * 2^(j-(i+1)) := by
            by_contra hc
            exact hp ⟨hpar, hc⟩
          exact Or.inr ⟨hki, hij, hhalf.mp ⟨hp', hne⟩⟩
        · rintro (⟨hM, _⟩ | ⟨_, _, hc⟩)
          · exact absurd hM hnot
          · obtain ⟨hp, hne⟩ := hhalf.mpr hc
            exact ⟨⟨hfull, hne⟩, fun h => h.2 hp⟩
      · -- below level `k` a block outside the one taken has its parent outside too
        constructor
        · rintro ⟨⟨_, hap⟩, hp⟩
          refine absurd ⟨hpar, fun v hv hvk => ?_⟩ hp
          have hs := sub_of_meet (show i+1 ≤ k by omega) hv hvk
          exact hap _ hu (hs (blk_sub_succ i c hu))
        · rintro (⟨hM, _⟩ | ⟨h, _⟩)
          · exact absurd hM hnot
          · exact absurd h hki
    · subst hij
      have hc : c = b := eq_of_meet hu hub
      subst hc
      constructor
      · rintro ⟨h, _⟩
        exact absurd (first_mem_sub hk c) ((full_diff_iff.mp h).2 _ (first_mem i c))
      · rintro (⟨_, h⟩ | ⟨_, h, _⟩)
        · exact absurd ⟨rfl, rfl⟩ h
        · exact absurd h (Nat.lt_irrefl i)
    · -- properly around `b`: not full
      have hn := hm.not_full hij (sub_of_meet hij.le hub hu)
      constructor
      · rintro ⟨h, _⟩
        exact absurd (full_diff_iff.mp h).1 hn
      · rintro (⟨⟨h, _⟩, _⟩ | ⟨_, h, _⟩)
        · exact absurd h hn
        · omega
  · -- apart from `b`: nothing changes
    have hap : ∀ u ∈ blk i c, u ∉ blk j b := fun u hu hub => hd ⟨u, hu, hub⟩
    have hfull : Full (F \ blk k (b * 2^(j-k))) i c ↔ Full F i c :=
      full_diff_iff.trans ⟨fun h => h.1, fun h => ⟨h, fun u hu huk => hap u hu (hsub huk)⟩⟩
    have hpar : Full (F \ blk k (b * 2^(j-k))) (i+1) (c/2) ↔ Full F (i+1) (c/2) := by
      refine full_diff_iff.trans ⟨fun h => h.1, fun h => ⟨h, fun u hu huk => ?_⟩⟩
      have hub := hsub huk
      rcases Nat.lt_or_ge j (i+1) with hlt | hge
      · exact hm.not_full hlt (sub_of_meet hlt.le hub hu) h
      · have hs := sub_of_meet hge hu hub
        exact hap _ (first_mem i c) (hs (blk_sub_succ i c (first_mem i c)))
    rw [Maxi, hfull, hpar]
    constructor
    · intro h
      refine Or.inl ⟨h, ?_⟩
      rintro ⟨rfl, rfl⟩
      exact hap _ (first_mem i c) (first_mem i c)
    · rintro (⟨h, _⟩ | ⟨_, hij, rfl⟩)
      · exact h
      · refine absurd ?_ (hap _ (first_mem i _))
        have h2 : (b * 2^(j-i) + 1) / 2^(j-i) = b := by
          have hp : 1 < 2^(j-i) := Nat.one_lt_two_pow (by omega)
          rw [Nat.add_comm, Nat.add_mul_div_right _ _ (by omega), Nat.div_eq_of_lt hp, Nat.zero_add]
        have h3 := mem_up hij.le (first_mem i (b * 2^(j-i) + 1))
        rwa [h2] at h3

/-! ## putting a block back -/

/-- The table in the middle of the joining loop: the block `c` of level `i` stands for everything
inside it, the other entries are the old maximal blocks. -/
def Pend (F : Set Nat) (i c i' c' : Nat) : Prop :=
  (Maxi F i' c' ∧ ¬ blk i' c' ⊆ blk i c) ∨ (i' = i ∧ c' = c)

/-- at the start of the loop the table is the old one and the block put back -/
theorem pend_start {F : Set Nat} {k b : Nat} (h : ∀ u ∈ blk k b, u ∉ F) (i' c' : Nat) :
    Pend F k b i' c' ↔ Maxi F i' c' ∨ (i' = k ∧ c' = b) := by
  constructor
  · rintro (⟨h1, _⟩ | h1)
    · exact Or.inl h1
    · exact Or.inr h1
  · rintro (h1 | h1)
    · exact Or.inl ⟨h1, fun hs => h _ (hs (first_mem i' c')) (h1.1 (first_mem i' c'))⟩
    · exact Or.inr h1

section Loop
variable {F : Set Nat} {i c v : Nat} (hv : v ∈ blk i c) (hvF : v ∉ F)
include hv hvF

/-- **One round of the joining loop**: the buddy is maximal, the two go and their parent comes. -/
theorem pend_join (hbud : Maxi F i (c ^^^ 1)) (i' c' : Nat) :
    Pend F (i+1) (c/2) i' c' ↔
      (Pend F i c i' c' ∧ ¬ (i' = i ∧ c' = c) ∧ ¬ (i' = i ∧ c' = c ^^^ 1)) ∨
        (i' = i+1 ∧ c' = c/2) := by
  constructor
  · rintro (⟨hM, hs⟩ | h)
    · have h1 : ¬ blk i' c' ⊆ blk i c := fun h => hs (h.trans (blk_sub_succ i c))
      refine Or.inl ⟨Or.inl ⟨hM, h1⟩, ?_, ?_⟩
      · rintro ⟨rfl, rfl⟩
        exact h1 (Set.Subset.refl _)
      · rintro ⟨rfl, rfl⟩
        refine hs ?_
        have h2 := blk_sub_succ i' (c ^^^ 1)
        rwa [buddy_half] at h2
    · exact Or.inr h
  · rintro (⟨hP, hne, hnb⟩ | h)
    · rcases hP with ⟨hM, hs⟩ | h
      · refine Or.inl ⟨hM, fun hs' => ?_⟩
        have hw := hs' (first_mem i' c')
        have hi := le_of_sub hs'
        rcases Nat.lt_or_ge i i' with hlt | hge
        · -- the parent itself: it holds `v`
          have e : i' = i+1 := by omega
          subst e
          have hcc := blk_inj hs'
          subst hcc
          exact hvF (hM.1 (blk_sub_succ i c hv))
        · rcases mem_succ_iff.mp hw with h1 | h1
          · exact hs (sub_of_meet hge (first_mem i' c') h1)
          · exact hnb (maxi_unique hM hbud (first_mem i' c') h1)
      · exact absurd h hne
    · exact Or.inr h

/-- **The end of the joining loop**: the buddy is not maximal, the table is the table of maximal
blocks of the new set `G`. -/
theorem pend_stop {G : Set Nat} (hFG : F ⊆ G) (hG : ∀ u ∈ G, u ∉ F → u ∈ blk i c)
    (hfull : Full G i c) (hbud : ¬ Maxi F i (c ^^^ 1)) (i' c' : Nat) :
    Maxi G i' c' ↔ Pend F i c i' c' := by
  have hpar : ¬ Full F (i+1) (c/2) := fun h => hvF (h (blk_sub_succ i c hv))
  have hmax : ¬ Full G (i+1) (c/2) := by
    intro h
    refine hbud ⟨fun u hu => ?_, ?_⟩
    · by_contra hn
      exact buddy_ne c (eq_of_meet hu (hG u (h.buddy hu) hn))
    · rwa [buddy_half]
  have hM : Maxi G i c := ⟨hfull, hmax⟩
  -- a block apart from `c` is full before if it is full now
  have hold : ∀ {j d}, Full G j d → (∀ u ∈ blk j d, u ∉ blk i c) → Full F j d := by
    intro j d h hap u hu
    by_contra hn
    exact hap u hu (hG u (h hu) hn)
  constructor
  · intro h
    by_cases he : i' = i ∧ c' = c
    · exact Or.inr he
    · have hap : ∀ u ∈ blk i' c', u ∉ blk i c := fun u hu hui => he (maxi_unique h hM hu hui)
      refine Or.inl ⟨⟨hold h.1 hap, fun hF => h.2 (hF.mono hFG)⟩, fun hs => ?_⟩
      exact hap _ (first_mem i' c') (hs (first_mem i' c'))
  · rintro (⟨h, hs⟩ | ⟨rfl, rfl⟩)
    · refine ⟨h.1.mono hFG, fun hp => h.2 (hold hp fun u hu hui => ?_)⟩
      rcases Nat.lt_or_ge i (i'+1) with hlt | hge
      · exact hM.not_full hlt (sub_of_meet hlt.le hui hu) hp
      · exact hs ((blk_sub_succ i' c').trans (sub_of_meet hge hu hui))
    · exact hM

end Loop

end Dyadic
