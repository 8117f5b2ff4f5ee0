import Mathlib.Algebra.Group.Int.Defs
import Mathlib.Logic.Function.Basic
import Clubcos.Lib.Circular
import Clubcos.Lib.Word

/-!
# array.h, array.c and circular_queue.c: buffers

The pointers of an `Array8` and of a circular queue are offsets from `buf` and `pQueueBuf`; `mem` is the
memory from there on.

* `ckArray8Init`, `ckArray8Insert`, `ckArray8Erase`, `ckArray8PopFront`, `ckArray8Append`;  `none` is a failed
  assertion;
* `ckCircularQueue8Put`, `ckCircularQueue8Remove`, `ckCircularQueue8Get`, and those of the queue of 32-bit words;
* `Holds`   the first elements of a memory, as a list.
-/

set_option linter.unusedVariables false

namespace Clubcos
open Word

abbrev Byte : Type := BitVec 8

instance : LawfulBEq Byte := inferInstanceAs (LawfulBEq (BitVec 8))

/-! ## string.h -/

/-- the source is read before the destination is written, as for `dest < src` going forward -/
def memmove {A : Type} (m : Nat → A) (dest src count : Nat) : Nat → A :=
  fun i => if dest ≤ i ∧ i < dest + count then m (src + (i - dest)) else m i

/-- from one memory to another -/
def memcpy {A : Type} (m : Nat → A) (dest : Nat) (m' : Nat → A) (src count : Nat) : Nat → A :=
  fun i => if dest ≤ i ∧ i < dest + count then m' (src + (i - dest)) else m i

/-- `_memset_2` -/
def memset_2 {A : Type} (m : Nat → A) (dest : Nat) (v : A) (count : Nat) : Nat → A :=
  fun i => if dest ≤ i ∧ i < dest + count then v else m i

/-- `NULL` is `none`, also where the search would leave the first `rounds` bytes -/
def strchr (m : Nat → Byte) (ch : Byte) : (rounds i : Nat) → Option Nat
  | 0, _ => none
  | rounds + 1, i => if m i = 0 then none else if m i = ch then some i else strchr m ch rounds (i + 1)

/-! ## array.h and array.c -/

structure Array8 where
  mem : Nat → Byte
  now : Nat
  ends : Nat

def ckArray8Init (ar : Array8) (size : Nat) : Array8 := { ar with now := 0, ends := size }

def ckArray8Insert (ar : Array8) (ptr : Nat) (data : Byte) : Option (Bool × Array8) :=
  if ptr ≤ ar.now then
    if ar.now = ar.ends then some (false, ar)
    else some (true, { ar with
      mem := Function.update (memmove ar.mem (ptr + 1) ptr (ar.now - ptr)) ptr data
      now := ar.now + 1 })
  else none

def ckArray8Erase (ar : Array8) (ptr : Nat) : Option Array8 :=
  if ptr < ar.now then some { ar with
    mem := memmove ar.mem ptr (ptr + 1) (ar.now - ptr - 1)
    now := ar.now - 1 }
  else none

def ckArray8PopFront (ar : Array8) : Option (Byte × Array8) :=
  let ret := ar.mem 0
  (ckArray8Erase ar 0).map fun ar => (ret, ar)

/-- the lengths are signed, and `memcpy` takes an unsigned one -/
def ckArray8Append (dest src : Array8) : Array8 :=
  let len : Int := min (src.now : Int) ((dest.ends : Int) - dest.now)
  { dest with
    mem := memcpy dest.mem dest.now src.mem 0 (len % 2^32).toNat
    now := ((dest.now + len) % 2^32).toNat }

/-! ## circular_queue.c -/

structure CircularQueue8 where
  mem : Nat → Byte
  first : Nat
  last : Nat
  size : Nat
  bEmpty : Bool

def ckCircularQueue8Init (q : CircularQueue8) (size : Nat) : CircularQueue8 :=
  { q with first := 0, last := 0, size := size, bEmpty := true }

def ckCircularQueue8Put (q : CircularQueue8) (data : Byte) : Bool × CircularQueue8 :=
  if q.bEmpty || decide (q.first ≠ q.last) then
    (true, { q with
      mem := Function.update q.mem q.last data
      last := if q.size ≤ q.last + 1 then 0 else q.last + 1
      bEmpty := false })
  else (false, q)

def ckCircularQueue8Remove (q : CircularQueue8) : Bool × CircularQueue8 :=
  if ¬ q.bEmpty then
    let first := if q.size ≤ q.first + 1 then 0 else q.first + 1
    (true, { q with first := first, bEmpty := if first = q.last then true else q.bEmpty })
  else (false, q)

/-- the byte, and what is stored to `*pbSuccess` -/
def ckCircularQueue8Get (q : CircularQueue8) (bPeek : Bool) : Byte × Bool × CircularQueue8 :=
  if ¬ q.bEmpty then (q.mem q.first, true, if ¬ bPeek then (ckCircularQueue8Remove q).2 else q)
  else (0, false, q)

structure CircularQueue32 where
  mem : Nat → BitVec 32
  first : Nat
  last : Nat
  size : Nat
  bEmpty : Bool

def ckCircularQueue32Init (q : CircularQueue32) (size : Nat) : CircularQueue32 :=
  { q with first := 0, last := 0, size := size, bEmpty := true }

def ckCircularQueue32Put (q : CircularQueue32) (data : BitVec 32) : Bool × CircularQueue32 :=
  if q.bEmpty || decide (q.first ≠ q.last) then
    (true, { q with
      mem := Function.update q.mem q.last data
      last := if q.size ≤ q.last + 1 then 0 else q.last + 1
      bEmpty := false })
  else (false, q)

def ckCircularQueue32Remove (q : CircularQueue32) : Bool × CircularQueue32 :=
  if ¬ q.bEmpty then
    let first := if q.size ≤ q.first + 1 then 0 else q.first + 1
    (true, { q with first := first, bEmpty := if first = q.last then true else q.bEmpty })
  else (false, q)

def ckCircularQueue32Get (q : CircularQueue32) (bPeek : Bool) : BitVec 32 × Bool × CircularQueue32 :=
  if ¬ q.bEmpty then (q.mem q.first, true, if ¬ bPeek then (ckCircularQueue32Remove q).2 else q)
  else (0, false, q)

/-! ## the contents of a memory -/

/-- the memory starts with the bytes `bs` -/
def Holds {A : Type} (m : Nat → A) (bs : List A) : Prop := ∀ i (h : i < bs.length), m i = bs[i]

section
variable {A : Type} {m : Nat → A} {bs cs : List A}

theorem holds_nil (m : Nat → A) : Holds m [] := fun i h => absurd h (Nat.not_lt_zero i)

theorem Holds.append_left (h : Holds m (bs ++ cs)) : Holds m bs := by
  intro i hi
  have hlen : i < (bs ++ cs).length := by
    rw [List.length_append]
    omega
  rw [h i hlen, List.getElem_append_left hi]

/-- the part behind `bs`, moved to the front -/
theorem Holds.memmove (h : Holds m (bs ++ cs)) : Holds (memmove m 0 bs.length cs.length) cs := by
  intro i hi
  have hlen : bs.length + i < (bs ++ cs).length := by
    rw [List.length_append]
    omega
  have hin : 0 ≤ i ∧ i < 0 + cs.length := ⟨Nat.zero_le i, by omega⟩
  rw [Clubcos.memmove, if_pos hin, Nat.sub_zero, h _ hlen, List.getElem_append_right (by omega)]
  congr 1
  omega

/-- bytes copied behind `bs` -/
theorem Holds.memcpy (h : Holds m bs) {m' : Nat → A} (h' : Holds m' cs) :
    Holds (memcpy m bs.length m' 0 cs.length) (bs ++ cs) := by
  intro i hi
  rw [List.length_append] at hi
  unfold Clubcos.memcpy
  by_cases e : i < bs.length
  · rw [if_neg fun h => by omega, h i e, List.getElem_append_left e]
  · rw [if_pos ⟨by omega, hi⟩, List.getElem_append_right (by omega), Nat.zero_add, h' _ (by omega)]

theorem Holds.snoc (h : Holds m bs) (b : A) : Holds (Function.update m bs.length b) (bs ++ [b]) := by
  intro i hi
  rw [List.length_append, List.length_singleton] at hi
  by_cases e : i < bs.length
  · rw [Function.update_of_ne (by omega), h i e, List.getElem_append_left e]
  · obtain rfl : i = bs.length := by omega
    rw [Function.update_self, List.getElem_append_right (by omega)]
    simp only [Nat.sub_self, List.getElem_cons_zero]

theorem Holds.update (h : Holds m bs) {i : Nat} (hi : bs.length ≤ i) (b : A) : Holds (Function.update m i b) bs := by
  intro j hj
  rw [Function.update_of_ne (Nat.ne_of_lt (Nat.lt_of_lt_of_le hj hi)), h j hj]

/-- a byte in between, what is behind it moved on -/
theorem Holds.insert (h : Holds m bs) {k : Nat} (hk : k ≤ bs.length) (b : A) :
    Holds (Function.update (Clubcos.memmove m (k + 1) k (bs.length - k)) k b) (bs.insertIdx k b) := by
  intro i hi
  rw [List.length_insertIdx_of_le_length hk] at hi
  rcases Nat.lt_trichotomy i k with e | rfl | e
  · rw [Function.update_of_ne (Nat.ne_of_lt e), Clubcos.memmove, if_neg fun e' => by omega,
      List.getElem_insertIdx_of_lt e, h i (by omega)]
  · rw [Function.update_self, List.getElem_insertIdx_self]
  · rw [Function.update_of_ne (Nat.ne_of_gt e), Clubcos.memmove, if_pos ⟨e, by omega⟩,
      List.getElem_insertIdx_of_gt e, h _ (by omega)]
    congr 1
    omega

/-- a byte taken out, what is behind it moved back, and perhaps more -/
theorem Holds.erase (h : Holds m bs) {k n : Nat} (hk : k < bs.length) (hn : bs.length ≤ k + n + 1) :
    Holds (Clubcos.memmove m k (k + 1) n) (bs.eraseIdx k) := by
  intro i hi
  rw [List.length_eraseIdx_of_lt hk] at hi
  unfold Clubcos.memmove
  by_cases e : i < k
  · rw [if_neg fun e' => by omega, List.getElem_eraseIdx_of_lt _ e, h i (by omega)]
  · rw [if_pos ⟨by omega, by omega⟩, List.getElem_eraseIdx_of_ge _ (by omega), h _ (by omega)]
    congr 1
    omega

theorem memmove_zero (m : Nat → A) (dest src : Nat) : Clubcos.memmove m dest src 0 = m := by
  funext i
  exact if_neg fun h => by omega

end

theorem strchr_lt {m : Nat → Byte} {ch : Byte} : ∀ {rounds i ends : Nat}, strchr m ch rounds i = some ends →
    ends < i + rounds
  | 0, _, _, h => nomatch h
  | rounds + 1, i, ends, h => by
    unfold strchr at h
    split at h
    · cases h
    · split at h
      · cases h
        omega
      · have hlt := strchr_lt h
        omega

/-- the line that a memory starts with is found -/
theorem strchr_line {m : Nat → Byte} {ch : Byte} (hch : ch ≠ 0) {l rest : List Byte} (hl : ∀ b ∈ l, b ≠ ch ∧ b ≠ 0)
    (h : Holds m (l ++ ch :: rest)) : ∀ {rounds i : Nat}, i ≤ l.length → l.length < rounds + i →
      strchr m ch rounds i = some l.length := by
  intro rounds
  induction rounds with
  | zero => exact fun h1 h2 => absurd h1 (by omega)
  | succ rounds ih =>
    intro i h1 h2
    have hlen : i < (l ++ ch :: rest).length := by
      rw [List.length_append, List.length_cons]
      omega
    rw [strchr]
    by_cases e : i < l.length
    · have hi : m i = l[i] := by rw [h i hlen, List.getElem_append_left e]
      obtain ⟨hne, h0⟩ := hl l[i] (List.getElem_mem e)
      rw [hi, if_neg h0, if_neg hne]
      exact ih (by omega) (by omega)
    · obtain rfl : i = l.length := by omega
      have hi : m l.length = ch := by
        rw [h _ hlen, List.getElem_append_right (Nat.le_refl _)]
        simp only [Nat.sub_self, List.getElem_cons_zero]
      rw [hi, if_neg hch, if_pos rfl]

/-! ## the operations of an array -/

theorem ckArray8Insert_now {ar : Array8} (h : ar.now ≠ ar.ends) (data : Byte) :
    ckArray8Insert ar ar.now data = some (true, { ar with
      mem := Function.update ar.mem ar.now data, now := ar.now + 1 }) := by
  unfold ckArray8Insert
  rw [if_pos (Nat.le_refl _), if_neg h, Nat.sub_self, memmove_zero]

theorem ckArray8Append_eq {dest src : Array8} (h : dest.now ≤ dest.ends) (hlt : dest.ends < 2^32) :
    ckArray8Append dest src = { dest with
      mem := memcpy dest.mem dest.now src.mem 0 (min src.now (dest.ends - dest.now)),
      now := dest.now + min src.now (dest.ends - dest.now) } := by
  have hlen : min (src.now : Int) ((dest.ends : Int) - dest.now) = (min src.now (dest.ends - dest.now) : Nat) := by omega
  have h1 : (((min src.now (dest.ends - dest.now) : Nat) : Int) % 2^32).toNat = min src.now (dest.ends - dest.now) := by
    omega
  have h2 : (((dest.now : Int) + (min src.now (dest.ends - dest.now) : Nat)) % 2^32).toNat =
      dest.now + min src.now (dest.ends - dest.now) := by omega
  unfold ckArray8Append
  simp only [hlen, h1, h2]

theorem ckArray8Append_fits {dest src : Array8} (h : dest.now + src.now ≤ dest.ends) (hlt : dest.ends < 2^32) :
    ckArray8Append dest src = { dest with
      mem := memcpy dest.mem dest.now src.mem 0 src.now, now := dest.now + src.now } := by
  rw [ckArray8Append_eq (by omega) hlt, Nat.min_eq_left (by omega)]

/-- an array holds exactly these bytes -/
structure Array8.Contains (ar : Array8) (bs : List Byte) (ends : Nat) : Prop where
  now : ar.now = bs.length
  ends : ar.ends = ends
  holds : Holds ar.mem bs

theorem ckArray8Insert_contains {ar : Array8} {bs : List Byte} {ends k : Nat} (h : ar.Contains bs ends)
    (hk : k ≤ bs.length) (hroom : bs.length ≠ ends) (c : Byte) :
    ∃ ar', ckArray8Insert ar k c = some (true, ar') ∧ ar'.Contains (bs.insertIdx k c) ends := by
  have hle : k ≤ ar.now := h.now ▸ hk
  have hne : ar.now ≠ ar.ends := by
    rw [h.now, h.ends]
    exact hroom
  unfold ckArray8Insert
  rw [if_pos hle, if_neg hne]
  refine ⟨_, rfl, ?_, h.ends, ?_⟩
  · show ar.now + 1 = _
    rw [List.length_insertIdx_of_le_length hk, h.now]
  · show Holds (Function.update (memmove ar.mem (k + 1) k (ar.now - k)) k c) _
    rw [h.now]
    exact h.holds.insert hk c

theorem ckArray8Erase_contains {ar : Array8} {bs : List Byte} {ends k : Nat} (h : ar.Contains bs ends)
    (hk : k < bs.length) : ∃ ar', ckArray8Erase ar k = some ar' ∧ ar'.Contains (bs.eraseIdx k) ends := by
  have hlt : k < ar.now := h.now ▸ hk
  have hnow := h.now
  unfold ckArray8Erase
  rw [if_pos hlt]
  refine ⟨_, rfl, ?_, h.ends, h.holds.erase hk (by omega)⟩
  show ar.now - 1 = _
  rw [List.length_eraseIdx_of_lt hk, h.now]

/-! ## the operations of the circular queues -/

def CircularQueue8.Contains (q : CircularQueue8) (bs : List Byte) : Prop :=
  Circular.Contains q.mem q.size q.first q.last q.bEmpty bs

theorem ckCircularQueue8Init_contains (q : CircularQueue8) {size : Nat} (h : 0 < size) :
    (ckCircularQueue8Init q size).Contains [] := Circular.contains_nil q.mem h

theorem ckCircularQueue8Put_contains {q : CircularQueue8} {bs : List Byte} (h : q.Contains bs)
    (hroom : bs.length < q.size) (b : Byte) :
    ∃ q', ckCircularQueue8Put q b = (true, q') ∧ q'.Contains (bs ++ [b]) ∧ q'.size = q.size := by
  unfold ckCircularQueue8Put
  rw [if_pos (Circular.Contains.accepts h |>.mpr hroom)]
  exact ⟨_, rfl, Circular.Contains.put h hroom b, rfl⟩

theorem ckCircularQueue8Remove_contains {q : CircularQueue8} {b : Byte} {bs : List Byte} (h : q.Contains (b :: bs)) :
    ∃ q', ckCircularQueue8Remove q = (true, q') ∧ q'.Contains bs ∧ q'.size = q.size := by
  unfold ckCircularQueue8Remove
  rw [if_pos (Circular.Contains.not_true h)]
  refine ⟨_, rfl, ?_, rfl⟩
  show Circular.Contains q.mem q.size (Circular.next q.size q.first) q.last (if _ then true else q.bEmpty) bs
  exact Circular.Contains.emptied h ▸ h.remove

theorem ckCircularQueue8Get_contains {q : CircularQueue8} {b : Byte} {bs : List Byte} (h : q.Contains (b :: bs)) :
    ∃ q', ckCircularQueue8Get q false = (b, true, q') ∧ q'.Contains bs ∧ q'.size = q.size := by
  obtain ⟨q', hremove, hq⟩ := ckCircularQueue8Remove_contains h
  have hmem : q.mem q.first = b := h.head
  refine ⟨q', ?_, hq⟩
  unfold ckCircularQueue8Get
  rw [if_pos (Circular.Contains.not_true h), if_pos Bool.false_ne_true, hremove, hmem]

def CircularQueue32.Contains (q : CircularQueue32) (xs : List (BitVec 32)) : Prop :=
  Circular.Contains q.mem q.size q.first q.last q.bEmpty xs

theorem ckCircularQueue32Init_contains (q : CircularQueue32) {size : Nat} (h : 0 < size) :
    (ckCircularQueue32Init q size).Contains [] := Circular.contains_nil q.mem h

theorem ckCircularQueue32Put_contains {q : CircularQueue32} {xs : List (BitVec 32)} (h : q.Contains xs)
    (hroom : xs.length < q.size) (x : BitVec 32) :
    ∃ q', ckCircularQueue32Put q x = (true, q') ∧ q'.Contains (xs ++ [x]) ∧ q'.size = q.size := by
  unfold ckCircularQueue32Put
  rw [if_pos (Circular.Contains.accepts h |>.mpr hroom)]
  exact ⟨_, rfl, Circular.Contains.put h hroom x, rfl⟩

theorem ckCircularQueue32Remove_contains {q : CircularQueue32} {x : BitVec 32} {xs : List (BitVec 32)}
    (h : q.Contains (x :: xs)) : ∃ q', ckCircularQueue32Remove q = (true, q') ∧ q'.Contains xs ∧ q'.size = q.size := by
  unfold ckCircularQueue32Remove
  rw [if_pos (Circular.Contains.not_true h)]
  refine ⟨_, rfl, ?_, rfl⟩
  show Circular.Contains q.mem q.size (Circular.next q.size q.first) q.last (if _ then true else q.bEmpty) xs
  exact Circular.Contains.emptied h ▸ h.remove

theorem ckCircularQueue32Get_contains {q : CircularQueue32} {x : BitVec 32} {xs : List (BitVec 32)}
    (h : q.Contains (x :: xs)) :
    ∃ q', ckCircularQueue32Get q false = (x, true, q') ∧ q'.Contains xs ∧ q'.size = q.size := by
  obtain ⟨q', hremove, hq⟩ := ckCircularQueue32Remove_contains h
  have hmem : q.mem q.first = x := h.head
  refine ⟨q', ?_, hq⟩
  unfold ckCircularQueue32Get
  rw [if_pos (Circular.Contains.not_true h), if_pos Bool.false_ne_true, hremove, hmem]

end Clubcos
