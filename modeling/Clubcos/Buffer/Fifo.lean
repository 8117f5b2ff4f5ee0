import Clubcos.Terminal.Array

/-!
# The circular queues refine a bounded queue

The two copies in circular_queue.c, of bytes and of 32-bit words, are the same operations on a buffer.

* `CircularQueue8.exec`, `CircularQueue32.exec`         a call, and what it returns;
* `CircularQueue8.exec_buffer`, `CircularQueue32.exec_buffer`   it is the operation on the buffer;
* `Circular.Buffer.Fits`                                what holds of the pointers and of `bEmpty`;
* `queues_fifo`                                         any calls behind `Init`.
-/

set_option linter.unusedVariables false

namespace Clubcos
open Circular Machine

/-! ## circular_queue.c -/

/-- what is returned, with `*pbSuccess` and the element in the case of a `Get` -/
def CircularQueue8.exec (q : CircularQueue8) : Circular.Op Byte → (Bool × Option Byte) × CircularQueue8
  | .put data => let r := ckCircularQueue8Put q data
    ((r.1, none), r.2)
  | .get bPeek => let r := ckCircularQueue8Get q bPeek
    ((r.2.1, some r.1), r.2.2)
  | .remove => let r := ckCircularQueue8Remove q
    ((r.1, none), r.2)

def CircularQueue32.exec (q : CircularQueue32) :
    Circular.Op (BitVec 32) → (Bool × Option (BitVec 32)) × CircularQueue32
  | .put data => let r := ckCircularQueue32Put q data
    ((r.1, none), r.2)
  | .get bPeek => let r := ckCircularQueue32Get q bPeek
    ((r.2.1, some r.1), r.2.2)
  | .remove => let r := ckCircularQueue32Remove q
    ((r.1, none), r.2)

def CircularQueue8.buffer (q : CircularQueue8) : Buffer Byte := ⟨q.mem, q.first, q.last, q.size, q.bEmpty⟩

def CircularQueue32.buffer (q : CircularQueue32) : Buffer (BitVec 32) := ⟨q.mem, q.first, q.last, q.size, q.bEmpty⟩

theorem CircularQueue8.exec_buffer (q : CircularQueue8) (t : Circular.Op Byte) :
    q.buffer.exec 0 t = ((q.exec t).1, (q.exec t).2.buffer) := by
  obtain ⟨mem, first, last, size, bEmpty⟩ := q
  cases t with
  | put data =>
    by_cases e : bEmpty = true ∨ first ≠ last
    · rw [Buffer.exec_put data e]
      simp only [exec, ckCircularQueue8Put, Bool.or_eq_true, decide_eq_true_iff, if_pos e]
      rfl
    · rw [Buffer.exec_put_full data e]
      simp only [exec, ckCircularQueue8Put, Bool.or_eq_true, decide_eq_true_iff, if_neg e]
  | get bPeek => cases bEmpty <;> cases bPeek <;> rfl
  | remove => cases bEmpty <;> rfl

theorem CircularQueue32.exec_buffer (q : CircularQueue32) (t : Circular.Op (BitVec 32)) :
    q.buffer.exec 0 t = ((q.exec t).1, (q.exec t).2.buffer) := by
  obtain ⟨mem, first, last, size, bEmpty⟩ := q
  cases t with
  | put data =>
    by_cases e : bEmpty = true ∨ first ≠ last
    · rw [Buffer.exec_put data e]
      simp only [exec, ckCircularQueue32Put, Bool.or_eq_true, decide_eq_true_iff, if_pos e]
      rfl
    · rw [Buffer.exec_put_full data e]
      simp only [exec, ckCircularQueue32Put, Bool.or_eq_true, decide_eq_true_iff, if_neg e]
  | get bPeek => cases bEmpty <;> cases bPeek <;> rfl
  | remove => cases bEmpty <;> rfl

theorem CircularQueue8.buffer_inj {q q' : CircularQueue8} (h : q.buffer = q'.buffer) : q = q' := by
  cases q
  cases q'
  cases h
  rfl

theorem CircularQueue32.buffer_inj {q q' : CircularQueue32} (h : q.buffer = q'.buffer) : q = q' := by
  cases q
  cases q'
  cases h
  rfl

/-! ## runs -/

theorem CircularQueue8.step {n : Nat} (q : CircularQueue8) (xs : List Byte) (t : Circular.Op Byte)
    (h : q.buffer.Holding n xs) :
    (q.exec t).1 = (fifo 0 n xs t).1 ∧ (q.exec t).2.buffer.Holding n (fifo 0 n xs t).2 := by
  have h1 := Buffer.step (z := 0) h t
  rwa [q.exec_buffer t] at h1

theorem CircularQueue32.step {n : Nat} (q : CircularQueue32) (xs : List (BitVec 32)) (t : Circular.Op (BitVec 32))
    (h : q.buffer.Holding n xs) :
    (q.exec t).1 = (fifo 0 n xs t).1 ∧ (q.exec t).2.buffer.Holding n (fifo 0 n xs t).2 := by
  have h1 := Buffer.step (z := 0) h t
  rwa [q.exec_buffer t] at h1

theorem CircularQueue8.failed {q : CircularQueue8} {t : Circular.Op Byte} (h : (q.exec t).1.1 = false) :
    (q.exec t).2 = q := by
  have h1 := q.exec_buffer t
  have h2 : (q.buffer.exec 0 t).2 = q.buffer := Buffer.failed (by rw [h1]; exact h)
  rw [h1] at h2
  exact buffer_inj h2

theorem CircularQueue32.failed {q : CircularQueue32} {t : Circular.Op (BitVec 32)} (h : (q.exec t).1.1 = false) :
    (q.exec t).2 = q := by
  have h1 := q.exec_buffer t
  have h2 : (q.buffer.exec 0 t).2 = q.buffer := Buffer.failed (by rw [h1]; exact h)
  rw [h1] at h2
  exact buffer_inj h2

theorem init_holding8 (q : CircularQueue8) {n : Nat} (hn : 1 ≤ n) : (ckCircularQueue8Init q n).buffer.Holding n [] :=
  ⟨rfl, ckCircularQueue8Init_contains q hn⟩

theorem init_holding32 (q : CircularQueue32) {n : Nat} (hn : 1 ≤ n) :
    (ckCircularQueue32Init q n).buffer.Holding n [] := ⟨rfl, ckCircularQueue32Init_contains q hn⟩

/-- **Both queues are a queue of `n` elements.**  Behind `Init`, whatever the buffer was before, any calls return what the
operations on the list return, the pointers stay inside the buffer, `bEmpty` tells an empty queue from a full one, and a
call that fails changes nothing; the list conserves its elements and their order. -/
theorem queues_fifo (n : Nat) (hn : 1 ≤ n) :
    (∀ (q : CircularQueue8) (ts : List (Circular.Op Byte)),
      answers CircularQueue8.exec (ckCircularQueue8Init q n) ts = answers (fifo 0 n) [] ts ∧
      (final CircularQueue8.exec (ckCircularQueue8Init q n) ts).buffer.Fits n (final (fifo 0 n) [] ts) ∧
      (∀ t, ((final CircularQueue8.exec (ckCircularQueue8Init q n) ts).exec t).1.1 = false →
        ((final CircularQueue8.exec (ckCircularQueue8Init q n) ts).exec t).2 =
          final CircularQueue8.exec (ckCircularQueue8Init q n) ts) ∧
      allInserted 0 n [] ts = allRemoved 0 n [] ts ++ final (fifo 0 n) [] ts) ∧
    ∀ (q : CircularQueue32) (ts : List (Circular.Op (BitVec 32))),
      answers CircularQueue32.exec (ckCircularQueue32Init q n) ts = answers (fifo 0 n) [] ts ∧
      (final CircularQueue32.exec (ckCircularQueue32Init q n) ts).buffer.Fits n (final (fifo 0 n) [] ts) ∧
      (∀ t, ((final CircularQueue32.exec (ckCircularQueue32Init q n) ts).exec t).1.1 = false →
        ((final CircularQueue32.exec (ckCircularQueue32Init q n) ts).exec t).2 =
          final CircularQueue32.exec (ckCircularQueue32Init q n) ts) ∧
      allInserted 0 n [] ts = allRemoved 0 n [] ts ++ final (fifo 0 n) [] ts := by
  constructor
  · intro q ts
    obtain ⟨hans, hfinal⟩ := refines CircularQueue8.step (init_holding8 q hn) ts
    exact ⟨hans, hfinal.fits, fun t => CircularQueue8.failed, fifo_conserves 0 n [] ts⟩
  · intro q ts
    obtain ⟨hans, hfinal⟩ := refines CircularQueue32.step (init_holding32 q hn) ts
    exact ⟨hans, hfinal.fits, fun t => CircularQueue32.failed, fifo_conserves 0 n [] ts⟩

/-- a queue of one cell, full after the first put and empty after the first get -/
theorem queues_fifo_one :
    answers CircularQueue8.exec (ckCircularQueue8Init ⟨fun _ => 9, 3, 4, 5, false⟩ 1)
        [.put 1, .put 2, .get true, .get false, .get false, .put 3, .remove] =
      [(true, none), (false, none), (true, some 1), (true, some 1), (false, some 0), (true, none), (true, none)] :=
  ((queues_fifo 1 (Nat.le_refl 1)).1 ⟨fun _ => 9, 3, 4, 5, false⟩ _).1

end Clubcos
