import Clubcos.Lib.Paging

/-!
# Words on a stack of x86

* `Holds`         the words from an address on, the top of the stack first;
* `Holds.push`    a push puts a word in front; `Holds.pop` takes one off;
* `Holds.push16`  a push of 16 bits puts a word in front whose upper half is what the stack holds;
* `Holds.word`    the words by their number;
* `Holds.congr`   a memory that is the same there holds the same words.
-/

namespace X86

/-- the memory holds the words `ws` from `a` on -/
def Holds (m : Mem) : BitVec 32 → List (BitVec 32) → Prop
  | _, [] => True
  | a, w :: ws => load32 m a = w ∧ Holds m (a + 4) ws

theorem Holds.pop {m : Mem} {a w : BitVec 32} {ws : List (BitVec 32)} (h : Holds m a (w :: ws)) : Holds m (a + 4) ws := h.2

/-- the bytes of `n` words from `a` on are the same -/
def SameWords (m m' : Mem) (a : BitVec 32) (n : Nat) : Prop :=
  ∀ i < 4 * n, m' (a + BitVec.ofNat 32 i) = m (a + BitVec.ofNat 32 i)

theorem SameWords.load32 {m m' : Mem} {a : BitVec 32} {n : Nat} (h : SameWords m m' a (n + 1)) :
    X86.load32 m' a = X86.load32 m a := load32_congr fun i hi => h i (by omega)

theorem SameWords.tail {m m' : Mem} {a : BitVec 32} {n : Nat} (h : SameWords m m' a (n + 1)) :
    SameWords m m' (a + 4) n := by
  intro i hi
  have e : a + 4 + BitVec.ofNat 32 i = a + BitVec.ofNat 32 (4 + i) := add_ofNat_add a 4 i
  rw [e]
  exact h (4 + i) (by omega)

theorem Holds.congr {m m' : Mem} {ws : List (BitVec 32)} : ∀ {a : BitVec 32}, Holds m a ws →
    SameWords m m' a ws.length → Holds m' a ws := by
  induction ws with
  | nil => exact fun _ _ => trivial
  | cons w ws ih => exact fun h hs => ⟨hs.load32.trans h.1, ih h.2 hs.tail⟩

theorem Holds.word {m : Mem} {ws : List (BitVec 32)} : ∀ {a : BitVec 32} {i : Nat} {w : BitVec 32}, Holds m a ws →
    ws[i]? = some w → load32 m (a + BitVec.ofNat 32 (4 * i)) = w := by
  induction ws with
  | nil => exact fun _ h => by simp at h
  | cons v ws ih =>
    intro a i w hh h
    cases i with
    | zero =>
      rw [List.getElem?_cons_zero, Option.some_inj] at h
      rw [Nat.mul_zero, add_ofNat_zero, ← h]
      exact hh.1
    | succ i =>
      rw [List.getElem?_cons_succ] at h
      have e : a + BitVec.ofNat 32 (4 * (i + 1)) = a + 4 + BitVec.ofNat 32 (4 * i) := by
        rw [Nat.mul_succ, Nat.add_comm]
        exact (add_ofNat_add a 4 (4 * i)).symm
      rw [e]
      exact ih hh.2 h

theorem load32_store32 (m : Mem) (a v : BitVec 32) : load32 (store32 m a v) a = v := by
  apply load32_of_bytes
  intro i hi
  unfold store32 blit
  rw [toNat_add_sub (by omega), if_pos hi]

/-- what is written to the word below `n` words -/
theorem blit_below (m : Mem) (a : BitVec 32) (f : Nat → BitVec 8) {k n : Nat} (hk : k ≤ 4) (hn : 4 * (n + 1) ≤ 2^32) :
    SameWords m (blit m (a - 4) k f) a n := by
  intro i hi
  have e : a + BitVec.ofNat 32 i = a - 4 + BitVec.ofNat 32 (4 + i) := by
    rw [← add_ofNat_add]
    show _ = a - 4 + 4 + BitVec.ofNat 32 i
    rw [BitVec.sub_add_cancel]
  unfold blit
  rw [e, toNat_add_sub (by omega), if_neg (by omega)]

theorem Holds.push {m : Mem} {a : BitVec 32} {ws : List (BitVec 32)} (h : Holds m a ws)
    (hn : 4 * (ws.length + 1) ≤ 2^32) (w : BitVec 32) : Holds (store32 m (a - 4) w) (a - 4) (w :: ws) := by
  refine ⟨load32_store32 m (a - 4) w, ?_⟩
  rw [BitVec.sub_add_cancel]
  exact h.congr (blit_below m a _ (by decide) hn)

theorem bytes_append16 (v : BitVec 16) : byteAt v 1 ++ byteAt v 0 = v := by
  apply BitVec.eq_of_getLsbD_eq
  intro i hi
  simp only [byteAt, BitVec.getLsbD_append, BitVec.getLsbD_extractLsb']
  by_cases h1 : i < 8
  · simp [h1]
  · have e : 8 * 1 + (i - 8) = i := by omega
    have h2 : i - 8 < 8 := by omega
    simp only [h1, h2, if_false, e, decide_true, Bool.true_and]

/-- 16 bits written are the lower half of the word there -/
theorem load32_store16 (m : Mem) (a : BitVec 32) (v : BitVec 16) : (load32 (store16 m a v) a).setWidth 16 = v := by
  have h0 : store16 m a v (a + BitVec.ofNat 32 0) = byteAt v 0 := by
    unfold store16 blit
    rw [toNat_add_sub (by decide), if_pos (by decide)]
  have h1 : store16 m a v (a + 1) = byteAt v 1 := by
    unfold store16 blit
    rw [show a + 1 = a + BitVec.ofNat 32 1 from rfl, toNat_add_sub (by decide), if_pos (by decide)]
  rw [add_ofNat_zero] at h0
  unfold load32
  rw [h0, h1, BitVec.append_assoc, BitVec.setWidth_cast, BitVec.setWidth_append_eq_right]
  exact bytes_append16 v

theorem Holds.push16 {m : Mem} {a : BitVec 32} {ws : List (BitVec 32)} (h : Holds m a ws)
    (hn : 4 * (ws.length + 1) ≤ 2^32) (v : BitVec 16) :
    ∃ w : BitVec 32, w.setWidth 16 = v ∧ Holds (store16 m (a - 4) v) (a - 4) (w :: ws) := by
  refine ⟨_, load32_store16 m (a - 4) v, rfl, ?_⟩
  rw [BitVec.sub_add_cancel]
  exact h.congr (blit_below m a _ (by decide) hn)

end X86
