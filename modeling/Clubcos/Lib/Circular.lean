import Mathlib.Logic.Function.Basic
import Clubcos.Lib.Machine

/-!
# Circular queues

A buffer of `size` cells, the positions `first` and `last` of the oldest element and of the next free cell, and
a flag: `first = last` is either an empty queue or a full one.

* `Contains mem size first last empty xs`   the elements are `xs`, the oldest one first;
* `Contains.put`, `Contains.remove`         a queue is extended at its end, and shortened at its front;
* `Buffer.exec`, `fifo`                     the operations on the buffer, and on a list of at most `n` elements;
* `Buffer.step`                             the first refine the second;
* `fifo_conserves`                          what went in is what came out, in this order, and what is still held.
-/

set_option linter.unusedVariables false

namespace Circular

/-- a position less than two rounds on -/
def wrap (size n : Nat) : Nat := if n < size then n else n - size

/-- the position behind -/
def next (size n : Nat) : Nat := if size ≤ n + 1 then 0 else n + 1

theorem wrap_lt {size n : Nat} (h : n < 2 * size) : wrap size n < size := by
  unfold wrap
  split <;> omega

theorem wrap_of_lt {size n : Nat} (h : n < size) : wrap size n = n := if_pos h

theorem next_eq {size n : Nat} (h : n < size) : next size n = wrap size (n + 1) := by
  unfold next wrap
  by_cases e : size ≤ n + 1
  · rw [if_pos e, if_neg (by omega)]
    omega
  · rw [if_neg e, if_pos (by omega)]

theorem wrap_wrap_add {size n i : Nat} (h : n + i < 2 * size) : wrap size (wrap size n + i) = wrap size (n + i) := by
  by_cases e : n < size
  · rw [wrap_of_lt e]
  · rw [wrap.eq_def size n, if_neg e, wrap_of_lt (by omega), wrap, if_neg (by omega)]
    omega

theorem next_wrap {size n : Nat} (h : n + 1 < 2 * size) : next size (wrap size n) = wrap size (n + 1) := by
  rw [next_eq (wrap_lt (by omega)), wrap_wrap_add h]

theorem wrap_inj {size first i j : Nat} (hf : first < size) (hi : i < size) (hj : j < size)
    (h : wrap size (first + i) = wrap size (first + j)) : i = j := by
  unfold wrap at h
  split at h <;> split at h <;> omega

structure Contains {A : Type} (mem : Nat → A) (size first last : Nat) (empty : Bool) (xs : List A) : Prop where
  inside : first < size
  behind : last = wrap size (first + xs.length)
  room : xs.length ≤ size
  empty : empty = true ↔ xs = []
  cells : ∀ i (h : i < xs.length), mem (wrap size (first + i)) = xs[i]

theorem contains_nil {A : Type} (mem : Nat → A) {size : Nat} (h : 0 < size) : Contains mem size 0 0 true [] :=
  ⟨h, (wrap_of_lt h).symm, Nat.zero_le _, iff_of_true rfl rfl, fun i hi => absurd hi (Nat.not_lt_zero i)⟩

/-- the number of elements -/
def count (size first last : Nat) (empty : Bool) : Nat :=
  if empty then 0 else if first < last then last - first else last + size - first

section
variable {A : Type} {mem : Nat → A} {size first last : Nat} {empty : Bool} {xs : List A} {x : A}

theorem Contains.count_eq (h : Contains mem size first last empty xs) : count size first last empty = xs.length := by
  have hf := h.inside
  have hl := h.behind
  have hr := h.room
  have hlen := List.length_eq_zero_iff (l := xs)
  unfold count
  unfold wrap at hl
  by_cases e : empty = true
  · rw [if_pos e, h.empty.mp e]
    rfl
  · have hne : xs.length ≠ 0 := fun h0 => e (h.empty.mpr (hlen.mp h0))
    rw [if_neg e]
    split at hl <;> split <;> omega

theorem Contains.first_ne_last (h : Contains mem size first last empty xs) (hne : xs ≠ []) :
    first ≠ last ↔ xs.length < size := by
  have hf := h.inside
  have hl := h.behind
  have hr := h.room
  have hlen := List.length_pos_iff.mpr hne
  unfold wrap at hl
  split at hl <;> omega

/-- a queue that is not full takes one more element -/
theorem Contains.has_room (h : Contains mem size first last empty xs) :
    empty = true ∨ first ≠ last ↔ xs.length < size := by
  rw [h.empty]
  by_cases e : xs = []
  · have hf := h.inside
    rw [e]
    exact iff_of_true (.inl rfl) (Nat.zero_lt_of_lt hf)
  · rw [h.first_ne_last e]
    exact or_iff_right e

theorem Contains.accepts (h : Contains mem size first last empty xs) :
    (empty || decide (first ≠ last)) = true ↔ xs.length < size := by
  rw [Bool.or_eq_true, decide_eq_true_iff, h.has_room]

theorem Contains.put (h : Contains mem size first last empty xs) (hroom : xs.length < size) (x : A) :
    Contains (Function.update mem last x) size first (next size last) false (xs ++ [x]) := by
  have hf := h.inside
  have hlen : (xs ++ [x]).length = xs.length + 1 := List.length_append
  refine ⟨hf, ?_, hlen ▸ hroom, iff_of_false Bool.false_ne_true (List.append_ne_nil_of_right_ne_nil _ (List.cons_ne_nil _ _)),
    fun i hi => ?_⟩
  · rw [hlen, h.behind, next_wrap (by omega)]
    rfl
  · rw [hlen] at hi
    by_cases e : i = xs.length
    · subst e
      rw [← h.behind, Function.update_self, List.getElem_concat_length rfl]
    · have hne : wrap size (first + i) ≠ last := fun e' => e (wrap_inj hf (by omega) hroom (e'.trans h.behind))
      rw [Function.update_of_ne hne, h.cells i (by omega), List.getElem_append_left (by omega)]

theorem Contains.head (h : Contains mem size first last empty (x :: xs)) : mem first = x := by
  have h0 := h.cells 0 (Nat.zero_lt_succ _)
  rwa [Nat.add_zero, wrap_of_lt h.inside] at h0

theorem Contains.not_empty (h : Contains mem size first last empty (x :: xs)) : empty = false :=
  Bool.eq_false_iff.mpr fun e => List.cons_ne_nil _ _ (h.empty.mp e)

theorem Contains.not_true (h : Contains mem size first last empty (x :: xs)) : ¬ empty = true :=
  fun e => Bool.false_ne_true (h.not_empty.symm.trans e)

/-- The flag need only be set when the positions meet. -/
theorem Contains.emptied (h : Contains mem size first last empty (x :: xs)) :
    (if next size first = last then true else empty) = decide (next size first = last) := by
  rw [h.not_empty]
  by_cases e : next size first = last
  · rw [if_pos e, decide_eq_true e]
  · rw [if_neg e, decide_eq_false e]

theorem Contains.remove (h : Contains mem size first last empty (x :: xs)) :
    Contains mem size (next size first) last (decide (next size first = last)) xs := by
  have hf := h.inside
  have hroom : xs.length + 1 ≤ size := h.room
  have hlast : last = wrap size (first + (xs.length + 1)) := h.behind
  have hnext : next size first = wrap size (first + 1) := next_eq hf
  refine ⟨?_, ?_, Nat.le_of_succ_le hroom, ?_, fun i hi => ?_⟩
  · rw [hnext]
    exact wrap_lt (by omega)
  · rw [hnext, wrap_wrap_add (by omega), hlast, Nat.add_assoc, Nat.add_comm 1]
  · rw [decide_eq_true_iff, hnext, hlast]
    refine ⟨fun e => ?_, fun e => by rw [e]; rfl⟩
    cases xs with
    | nil => rfl
    | cons y ys =>
      rw [List.length_cons] at *
      unfold wrap at e
      split at e <;> split at e <;> omega
  · rw [hnext, wrap_wrap_add (by omega), Nat.add_assoc, Nat.add_comm 1]
    exact h.cells (i + 1) (Nat.succ_lt_succ hi)

theorem Contains.last_lt (h : Contains mem size first last empty xs) : last < size := by
  have hf := h.inside
  have hr := h.room
  rw [h.behind]
  exact wrap_lt (by omega)

/-- the positions meet in an empty queue and in a full one -/
theorem Contains.full (h : Contains mem size first last empty xs) :
    first = last ∧ empty = false ↔ xs.length = size := by
  have hf := h.inside
  cases xs with
  | nil =>
    have he : empty = true := h.empty.mpr rfl
    rw [he, List.length_nil]
    exact iff_of_false (fun e => Bool.false_ne_true e.2.symm) fun e => by omega
  | cons x xs =>
    have hne := h.first_ne_last (List.cons_ne_nil x xs)
    have hr := h.room
    rw [h.not_empty, and_iff_left rfl]
    omega

end

/-! ## the buffer as a bounded queue -/

inductive Op (A : Type) where
  | put (x : A)
  | get (peek : Bool)
  | remove

structure Buffer (A : Type) where
  mem : Nat → A
  first : Nat
  last : Nat
  size : Nat
  empty : Bool

section
variable {A : Type}

def Buffer.Contains (b : Buffer A) (xs : List A) : Prop := Circular.Contains b.mem b.size b.first b.last b.empty xs

def Buffer.put (b : Buffer A) (x : A) : Buffer A :=
  { b with mem := Function.update b.mem b.last x, last := next b.size b.last, empty := false }

def Buffer.remove (b : Buffer A) : Buffer A :=
  { b with first := next b.size b.first, empty := if next b.size b.first = b.last then true else b.empty }

/-- whether it succeeds, and the element of a `get`, which is `z` where there is none -/
def Buffer.exec (z : A) (b : Buffer A) : Op A → (Bool × Option A) × Buffer A
  | .put x => if b.empty = true ∨ b.first ≠ b.last then ((true, none), b.put x) else ((false, none), b)
  | .get peek => if ¬ b.empty then ((true, some (b.mem b.first)), if ¬ peek then b.remove else b)
      else ((false, some z), b)
  | .remove => if ¬ b.empty then ((true, none), b.remove) else ((false, none), b)

/-- a list of at most `n` elements -/
def fifo (z : A) (n : Nat) (xs : List A) : Op A → (Bool × Option A) × List A
  | .put x => if xs.length < n then ((true, none), xs ++ [x]) else ((false, none), xs)
  | .get peek => match xs with
    | [] => ((false, some z), [])
    | x :: rest => ((true, some x), if ¬ peek then rest else x :: rest)
  | .remove => match xs with
    | [] => ((false, none), [])
    | _ :: rest => ((true, none), rest)

/-- the buffer of `n` cells that holds `xs` -/
def Buffer.Holding (n : Nat) (b : Buffer A) (xs : List A) : Prop := b.size = n ∧ b.Contains xs

/-- The positions are inside the buffer, and the flag tells an empty queue from a full one. -/
structure Buffer.Fits (b : Buffer A) (n : Nat) (xs : List A) : Prop where
  first : b.first < n
  last : b.last < n
  room : xs.length ≤ n
  empty : b.empty = true ↔ xs = []
  full : b.first = b.last ∧ b.empty = false ↔ xs.length = n

section
variable {z : A} {n : Nat} {b : Buffer A} {xs : List A}

theorem Buffer.Holding.fits (h : b.Holding n xs) : b.Fits n xs := by
  obtain ⟨rfl, hc⟩ := h
  exact { first := hc.inside, last := Circular.Contains.last_lt hc, room := hc.room, empty := hc.empty,
          full := Circular.Contains.full hc }

theorem Buffer.exec_put (x : A) (h : b.empty = true ∨ b.first ≠ b.last) :
    b.exec z (.put x) = ((true, none), b.put x) := if_pos h

theorem Buffer.exec_put_full (x : A) (h : ¬ (b.empty = true ∨ b.first ≠ b.last)) :
    b.exec z (.put x) = ((false, none), b) := if_neg h

theorem Buffer.remove_holding {x : A} (h : b.Holding n (x :: xs)) : b.remove.Holding n xs := by
  refine ⟨h.1, ?_⟩
  have h1 := Circular.Contains.remove h.2
  rw [← Circular.Contains.emptied h.2] at h1
  exact h1

/-- the operations on the buffer are those on the list -/
theorem Buffer.step (h : b.Holding n xs) (t : Op A) :
    (b.exec z t).1 = (fifo z n xs t).1 ∧ (b.exec z t).2.Holding n (fifo z n xs t).2 := by
  obtain ⟨rfl, hc⟩ := h
  cases t with
  | put x =>
    by_cases hroom : xs.length < b.size
    · rw [exec_put x ((Circular.Contains.has_room hc).mpr hroom), fifo, if_pos hroom]
      exact ⟨rfl, rfl, Circular.Contains.put hc hroom x⟩
    · rw [exec_put_full x fun e => hroom ((Circular.Contains.has_room hc).mp e), fifo, if_neg hroom]
      exact ⟨rfl, rfl, hc⟩
  | get peek =>
    cases xs with
    | nil =>
      have he : ¬ ¬ b.empty = true := not_not_intro (Circular.Contains.empty hc |>.mpr rfl)
      simp only [exec, fifo, if_neg he]
      exact ⟨trivial, rfl, hc⟩
    | cons x xs =>
      simp only [exec, fifo, if_pos (Circular.Contains.not_true hc), Circular.Contains.head hc]
      cases peek with
      | true => exact ⟨trivial, rfl, hc⟩
      | false => exact ⟨trivial, Buffer.remove_holding ⟨rfl, hc⟩⟩
  | remove =>
    cases xs with
    | nil =>
      have he : ¬ ¬ b.empty = true := not_not_intro (Circular.Contains.empty hc |>.mpr rfl)
      simp only [exec, fifo, if_neg he]
      exact ⟨trivial, rfl, hc⟩
    | cons x xs =>
      simp only [exec, fifo, if_pos (Circular.Contains.not_true hc)]
      exact ⟨trivial, Buffer.remove_holding ⟨rfl, hc⟩⟩

/-- an operation that fails changes nothing -/
theorem Buffer.failed {t : Op A} (h : (b.exec z t).1.1 = false) : (b.exec z t).2 = b := by
  cases t with
  | put x =>
    rw [exec] at h ⊢
    split at h
    · exact absurd h.symm Bool.false_ne_true
    · rename_i e
      rw [if_neg e]
  | get peek =>
    rw [exec] at h ⊢
    split at h
    · exact absurd h.symm Bool.false_ne_true
    · rename_i e
      rw [if_neg e]
  | remove =>
    rw [exec] at h ⊢
    split at h
    · exact absurd h.symm Bool.false_ne_true
    · rename_i e
      rw [if_neg e]

end

/-! ## what goes in and what comes out -/

def inserted (n : Nat) (xs : List A) : Op A → List A
  | .put x => if xs.length < n then [x] else []
  | _ => []

def removed (xs : List A) : Op A → List A
  | .put _ => []
  | .get peek => if ¬ peek then xs.take 1 else []
  | .remove => xs.take 1

def allInserted (z : A) (n : Nat) (xs : List A) : List (Op A) → List A
  | [] => []
  | t :: ts => inserted n xs t ++ allInserted z n (fifo z n xs t).2 ts

def allRemoved (z : A) (n : Nat) (xs : List A) : List (Op A) → List A
  | [] => []
  | t :: ts => removed xs t ++ allRemoved z n (fifo z n xs t).2 ts

theorem fifo_step (z : A) (n : Nat) (xs : List A) (t : Op A) :
    xs ++ inserted n xs t = removed xs t ++ (fifo z n xs t).2 := by
  cases t with
  | put x =>
    by_cases hroom : xs.length < n
    · simp only [inserted, removed, fifo, if_pos hroom, List.nil_append]
    · simp only [inserted, removed, fifo, if_neg hroom, List.nil_append, List.append_nil]
  | get peek => cases xs <;> cases peek <;> simp [inserted, removed, fifo]
  | remove => cases xs <;> simp [inserted, removed, fifo]

theorem fifo_conserves (z : A) (n : Nat) (xs : List A) (ts : List (Op A)) :
    xs ++ allInserted z n xs ts = allRemoved z n xs ts ++ Machine.final (fifo z n) xs ts := by
  induction ts generalizing xs with
  | nil => exact List.append_nil xs
  | cons t ts ih =>
    rw [allInserted, allRemoved, Machine.final, ← List.append_assoc, fifo_step z n xs t, List.append_assoc, ih,
      List.append_assoc]

end

end Circular
