import Mathlib.Data.List.Basic
import Clubcos.Print.Model

/-!
# string.c: copies of strings

A buffer is what lies from a pointer on; what leaves it in one of the loops is `none`.  The pointers that come back are counted
from the start of the destination.

* `strcpy_text`       `strcpy` copies a string;
* `strncpy_iff`       **when `strncpy` copies**: it goes on behind the terminator and stops behind every other character;
* `strcat_keeps`      **`strcat` leaves the string as it is**, what it appends lies behind the terminator;
* `strcat_returns`    **when `strcat` comes back**: the search sees every second character, the copy a terminator that is not the first character;
* `copy_family_iff`   when all of them do what they should, one by one and one after the other.
-/

set_option linter.unusedVariables false

namespace Clubcos.Str

/-- what is in front stays in front -/
def push (c : Byte) (r : List Byte × Nat) : List Byte × Nat := (c :: r.1, r.2 + 1)

def strlen : (str : List Byte) → Option Nat
  | [] => none
  | c :: str => if c = 0 then some 0 else (strlen str).map (· + 1)

def strcpy : (dest src : List Byte) → Option (List Byte × Nat)
  | _ :: dest, c :: src => if c = 0 then some (c :: dest, 1) else (strcpy dest src).map (push c)
  | _, _ => none

def strncpy : (dest src : List Byte) → (count : Nat) → Option (List Byte × Nat)
  | dest, _, 0 => some (dest, 0)
  | _ :: dest, c :: src, count + 1 => if c ≠ 0 then some (c :: dest, 1) else (strncpy dest src count).map (push c)
  | _, _, _ + 1 => none

/-- the second loop; the test is about the character behind the one that has been copied -/
def strcatCopy : (dest src : List Byte) → Option (List Byte × Nat)
  | _ :: dest, c :: c' :: src => if c' = 0 then some (c :: dest, 1) else (strcatCopy dest (c' :: src)).map (push c)
  | _, _ => none

/-- `dest` moves on in the condition and in the body -/
def strcat : (dest src : List Byte) → Option (List Byte × Nat)
  | [], _ => none
  | c :: dest, src =>
    if c = 0 then (strcatCopy dest src).map (push c)
    else match dest with
      | [] => none
      | c' :: dest => (strcat dest src).map fun r => push c (push c' r)

/-! ## strings -/

/-- a string with its terminator, and what is behind it in the buffer -/
structure CString where
  chars : List Byte
  nonzero : 0 ∉ chars
  behind : List Byte

def CString.bytes (t : CString) : List Byte := t.chars ++ 0 :: t.behind

/-- the buffer starts with the string and a terminator -/
def Text (b s : List Byte) : Prop := s ++ [0] <+: b

theorem CString.text (t : CString) : Text t.bytes t.chars := ⟨t.behind, (List.append_cons ..).symm⟩

theorem text_nil (b : List Byte) : Text (0 :: b) [] := ⟨b, rfl⟩

theorem text_cons {b s : List Byte} {c : Byte} : Text (c :: b) (c :: s) ↔ Text b s := List.prefix_cons_inj c

theorem text_zero {b s : List Byte} (hs : 0 ∉ s) (h : Text (0 :: b) s) : s = [] := by
  cases s with
  | nil => rfl
  | cons x s =>
    obtain rfl := (List.cons_prefix_cons.mp h).1
    exact absurd (List.mem_cons_self ..) hs

theorem text_nonzero {b s : List Byte} {c : Byte} (hc : c ≠ 0) (h : Text (c :: b) s) : ∃ s', s = c :: s' ∧ Text b s' := by
  cases s with
  | nil => exact absurd (List.cons_prefix_cons.mp h).1.symm hc
  | cons x s =>
    obtain rfl := (List.cons_prefix_cons.mp h).1
    exact ⟨s, rfl, text_cons.mp h⟩

/-- **One string** is in a buffer. -/
theorem text_unique {b : List Byte} : ∀ {s t : List Byte}, 0 ∉ s → 0 ∉ t → Text b s → Text b t → s = t := by
  induction b with
  | nil =>
    intro s t _ _ h
    exact absurd (List.prefix_nil.mp h) (by simp)
  | cons c b ih =>
    intro s t hs ht h h'
    by_cases hc : c = 0
    · subst hc
      rw [text_zero hs h, text_zero ht h']
    · obtain ⟨s, rfl, hb⟩ := text_nonzero hc h
      obtain ⟨t, rfl, hb'⟩ := text_nonzero hc h'
      exact congrArg (c :: ·) (ih (mt (List.mem_cons_of_mem c) hs) (mt (List.mem_cons_of_mem c) ht) hb hb')

/-! ## strcpy -/

theorem strcpy_chars {t : List Byte} (ht : 0 ∉ t) (src : List Byte) : ∀ {dest : List Byte}, t.length < dest.length →
    strcpy dest (t ++ 0 :: src) = some (t ++ 0 :: dest.drop (t.length + 1), t.length + 1) := by
  induction t with
  | nil =>
    intro dest hlt
    obtain ⟨x, dest, rfl⟩ := List.exists_cons_of_length_pos hlt
    simp [strcpy]
  | cons c t ih =>
    intro dest hlt
    obtain ⟨x, dest, rfl⟩ := List.exists_cons_of_length_pos (Nat.zero_lt_of_lt hlt)
    have hc : c ≠ 0 := fun e => ht (e ▸ List.mem_cons_self ..)
    rw [List.cons_append, strcpy, if_neg hc, ih (mt (List.mem_cons_of_mem c) ht) (Nat.lt_of_succ_lt_succ hlt)]
    rfl

/-- **`strcpy` copies** a string and its terminator, and nothing else is changed. -/
theorem strcpy_text (t : CString) {dest : List Byte} (hlt : t.chars.length < dest.length) :
    strcpy dest t.bytes = some (t.chars ++ 0 :: dest.drop (t.chars.length + 1), t.chars.length + 1) :=
  strcpy_chars t.nonzero t.behind hlt

theorem strcpy_room {t : List Byte} (ht : 0 ∉ t) {src : List Byte} : ∀ {dest : List Byte} {r : List Byte × Nat},
    strcpy dest (t ++ 0 :: src) = some r → t.length < dest.length := by
  induction t with
  | nil =>
    intro dest r h
    cases dest with
    | nil => cases h
    | cons x dest => exact Nat.succ_pos _
  | cons c t ih =>
    intro dest r h
    cases dest with
    | nil => cases h
    | cons x dest =>
      have hc : c ≠ 0 := fun e => ht (e ▸ List.mem_cons_self ..)
      rw [List.cons_append, strcpy, if_neg hc] at h
      obtain ⟨r, hr, rfl⟩ := Option.map_eq_some_iff.mp h
      exact Nat.succ_lt_succ (ih (mt (List.mem_cons_of_mem c) ht) hr)

/-! ## strncpy -/

theorem strncpy_writes {src : List Byte} {n : Nat} : ∀ {dest : List Byte} {r : List Byte × Nat}, strncpy dest src n = some r →
    r.2 ≤ n ∧ r.1.drop r.2 = dest.drop r.2 := by
  induction n generalizing src with
  | zero =>
    intro dest r h
    cases (Option.some.inj ((strncpy.eq_1 dest src).symm.trans h))
    exact ⟨Nat.le_refl 0, rfl⟩
  | succ n ih =>
    intro dest r h
    match dest, src with
    | [], _ => cases h
    | _ :: _, [] => cases h
    | x :: dest, c :: src =>
      rw [strncpy] at h
      split at h
      · cases h
        exact ⟨Nat.succ_pos n, rfl⟩
      · obtain ⟨r, hr, rfl⟩ := Option.map_eq_some_iff.mp h
        have hw := ih hr
        exact ⟨Nat.succ_le_succ hw.1, hw.2⟩

/-- it comes back behind the first character that is no terminator -/
theorem strncpy_returns {n : Nat} : ∀ {dest src : List Byte}, n ≤ dest.length →
    ((strncpy dest src n).isSome ↔ n ≤ src.length ∨ ∃ c ∈ src, c ≠ 0) := by
  induction n with
  | zero =>
    intro dest src _
    rw [strncpy]
    exact iff_of_true rfl (Or.inl (Nat.zero_le _))
  | succ n ih =>
    intro dest src hn
    obtain ⟨x, dest, rfl⟩ := List.exists_cons_of_length_pos (Nat.zero_lt_of_lt hn)
    cases src with
    | nil => simp [strncpy]
    | cons c src =>
      rw [strncpy]
      by_cases hc : c = 0
      · subst hc
        rw [if_neg (by simp), Option.isSome_map, ih (Nat.le_of_succ_le_succ hn)]
        simp
      · rw [if_pos hc]
        exact iff_of_true rfl (Or.inr ⟨c, List.mem_cons_self .., hc⟩)

/-- `n` bytes at most are written, and the first ones are those of the string -/
def Copies (dest : List Byte) (t : CString) (n : Nat) : Prop :=
  ∃ r, strncpy dest t.bytes n = some r ∧ r.2 ≤ n ∧ r.1.drop r.2 = dest.drop r.2 ∧
    r.1.take (min n (t.chars.length + 1)) = t.bytes.take (min n (t.chars.length + 1))

/-- all of the bytes but the first one are there before the call; for the empty string, what is behind it is read -/
def Copyable (dest : List Byte) (t : CString) (n : Nat) : Prop :=
  if t.chars = [] then n ≤ t.bytes.length ∨ ∃ c ∈ t.behind, c ≠ 0
  else (dest.take (min n (t.chars.length + 1))).tail = (t.bytes.take (min n (t.chars.length + 1))).tail

/-- **When `strncpy` copies.** -/
theorem strncpy_iff {dest : List Byte} (t : CString) {n : Nat} (hn : n ≤ dest.length) : Copies dest t n ↔ Copyable dest t n := by
  obtain ⟨s, hs, behind⟩ := t
  unfold Copies Copyable CString.bytes
  cases s with
  | nil =>
    simp only [if_true, List.nil_append]
    have hreturns := @strncpy_returns n dest (0 :: behind) hn
    simp only [List.mem_cons, exists_eq_or_imp, ne_eq, not_true_eq_false, false_or] at hreturns
    rw [← hreturns, Option.isSome_iff_exists]
    constructor
    · rintro ⟨r, hr, _⟩
      exact ⟨r, hr⟩
    · rintro ⟨r, hr⟩
      refine ⟨r, hr, (strncpy_writes hr).1, (strncpy_writes hr).2, ?_⟩
      cases n with
      | zero => rw [Nat.zero_min, List.take_zero, List.take_zero]
      | succ n =>
        obtain ⟨x, dest, rfl⟩ := List.exists_cons_of_length_pos (Nat.zero_lt_of_lt hn)
        rw [strncpy, if_neg (by simp)] at hr
        obtain ⟨r, _, rfl⟩ := Option.map_eq_some_iff.mp hr
        simp [push]
  | cons c s =>
    have hc : c ≠ 0 := fun e => hs (e ▸ List.mem_cons_self ..)
    rw [if_neg (List.cons_ne_nil c s)]
    cases n with
    | zero =>
      rw [Nat.zero_min]
      exact iff_of_true ⟨(dest, 0), strncpy.eq_1 .., Nat.le_refl 0, rfl, rfl⟩ rfl
    | succ n =>
      obtain ⟨x, dest, rfl⟩ := List.exists_cons_of_length_pos (Nat.zero_lt_of_lt hn)
      have hrun : strncpy (x :: dest) (c :: s ++ 0 :: behind) (n + 1) = some (c :: dest, 1) := by
        rw [List.cons_append, strncpy, if_pos hc]
      rw [List.length_cons, Nat.succ_min_succ, List.cons_append, List.take_succ_cons, List.take_succ_cons, List.tail_cons,
        List.tail_cons]
      constructor
      · rintro ⟨r, hr, _, _, htake⟩
        obtain rfl := Option.some.inj (hrun.symm.trans hr)
        exact List.tail_eq_of_cons_eq htake
      · intro h
        exact ⟨_, hrun, Nat.succ_pos n, rfl, by rw [List.take_succ_cons, h]⟩

/-! ## strcat -/

theorem strcat_zero (dest src : List Byte) : strcat (0 :: dest) src = (strcatCopy dest src).map (push 0) := by
  rw [strcat.eq_def]
  exact if_pos rfl

theorem strcat_last {c : Byte} (hc : c ≠ 0) (src : List Byte) : strcat [c] src = none := by
  rw [strcat.eq_def]
  exact if_neg hc

theorem strcat_skip {c : Byte} (hc : c ≠ 0) (c' : Byte) (dest src : List Byte) :
    strcat (c :: c' :: dest) src = (strcat dest src).map fun r => push c (push c' r) := by
  rw [strcat.eq_def]
  exact if_neg hc

/-- **`strcat` leaves the string as it is.** -/
theorem strcat_keeps {dest src : List Byte} : ∀ {r : List Byte × Nat} {s : List Byte}, strcat dest src = some r → 0 ∉ s →
    Text dest s → Text r.1 s := by
  induction dest, src using strcat.induct with
  | case1 => exact nofun
  | case2 dest src =>
    intro r s h hs htext
    rw [strcat_zero] at h
    obtain ⟨r', _, rfl⟩ := Option.map_eq_some_iff.mp h
    rw [text_zero hs htext]
    exact text_nil _
  | case3 c src hc =>
    intro r s h
    rw [strcat_last hc] at h
    cases h
  | case4 c src hc c' dest ih =>
    intro r s h hs htext
    rw [strcat_skip hc] at h
    obtain ⟨r', hr, rfl⟩ := Option.map_eq_some_iff.mp h
    obtain ⟨s₁, rfl, htext₁⟩ := text_nonzero hc htext
    have hs₁ := mt (List.mem_cons_of_mem c) hs
    apply text_cons.mpr
    by_cases hc' : c' = 0
    · -- the string ends where the search does not look
      subst hc'
      rw [text_zero hs₁ htext₁]
      exact text_nil _
    · obtain ⟨s₂, rfl, htext₂⟩ := text_nonzero hc' htext₁
      exact text_cons.mpr (ih hr (mt (List.mem_cons_of_mem c') hs₁) htext₂)

/-- the first of the characters 0, 2, 4 and so on that is a terminator -/
def EvenEnd (b : List Byte) (e : Nat) : Prop := b[2 * e]? = some 0 ∧ ∀ i < e, b[2 * i]? ≠ some 0

/-- the first of the characters 1, 2, 3 and so on that is a terminator -/
def LaterEnd (b : List Byte) (k : Nat) : Prop := b[k + 1]? = some 0 ∧ ∀ i < k, b[i + 1]? ≠ some 0

theorem laterEnd_cons {c c' : Byte} (hc : c' ≠ 0) (b : List Byte) (k : Nat) :
    LaterEnd (c :: c' :: b) (k + 1) ↔ LaterEnd (c' :: b) k := by
  refine and_congr Iff.rfl ⟨fun h i hi => h (i + 1) (Nat.succ_lt_succ hi), fun h i hi => ?_⟩
  cases i with
  | zero => simpa using hc
  | succ i => exact h i (Nat.lt_of_succ_lt_succ hi)

theorem evenEnd_cons {c : Byte} (hc : c ≠ 0) (c' : Byte) (b : List Byte) (e : Nat) :
    EvenEnd (c :: c' :: b) (e + 1) ↔ EvenEnd b e := by
  refine and_congr Iff.rfl ⟨fun h i hi => h (i + 1) (Nat.succ_lt_succ hi), fun h i hi => ?_⟩
  cases i with
  | zero => simpa using hc
  | succ i => exact h i (Nat.lt_of_succ_lt_succ hi)

theorem strcatCopy_returns {dest src : List Byte} :
    (strcatCopy dest src).isSome ↔ ∃ k, LaterEnd src k ∧ k < dest.length := by
  induction dest, src using strcatCopy.induct with
  | case1 x dest c src =>
    rw [strcatCopy, if_pos rfl]
    exact iff_of_true rfl ⟨0, ⟨rfl, nofun⟩, Nat.succ_pos _⟩
  | case2 x dest c c' src hc ih =>
    rw [strcatCopy, if_neg hc, Option.isSome_map, ih]
    constructor
    · rintro ⟨k, hend, hlt⟩
      exact ⟨k + 1, (laterEnd_cons hc src k).mpr hend, Nat.succ_lt_succ hlt⟩
    · rintro ⟨k, hend, hlt⟩
      cases k with
      | zero => exact absurd (by simpa using hend.1) hc
      | succ k => exact ⟨k, (laterEnd_cons hc src k).mp hend, Nat.lt_of_succ_lt_succ hlt⟩
  | case3 dest src h =>
    rw [strcatCopy]
    · refine iff_of_false nofun ?_
      rintro ⟨k, hend, hlt⟩
      obtain ⟨x, dest, rfl⟩ := List.exists_cons_of_length_pos (Nat.zero_lt_of_lt hlt)
      have hlen := (List.getElem?_eq_some_iff.mp hend.1).1
      match src, hlen with
      | c :: c' :: src, _ => exact h x dest c c' src rfl rfl
    · exact h

/-- **`strcat` comes back** if the search and the copy find a terminator, and the copy stays in the buffer. -/
theorem strcat_returns {dest src : List Byte} :
    (strcat dest src).isSome ↔ ∃ e k, EvenEnd dest e ∧ LaterEnd src k ∧ 2 * e + k + 1 < dest.length := by
  induction dest, src using strcat.induct with
  | case1 src =>
    refine iff_of_false nofun ?_
    rintro ⟨e, k, _, _, hlt⟩
    exact Nat.not_lt_zero _ hlt
  | case2 dest src =>
    rw [strcat_zero, Option.isSome_map, strcatCopy_returns]
    constructor
    · rintro ⟨k, hend, hlt⟩
      exact ⟨0, k, ⟨rfl, nofun⟩, hend, by rw [List.length_cons]; omega⟩
    · rintro ⟨e, k, hfirst, hend, hlt⟩
      refine ⟨k, hend, ?_⟩
      rw [List.length_cons] at hlt
      omega
  | case3 c src hc =>
    rw [strcat_last hc]
    refine iff_of_false nofun ?_
    rintro ⟨e, k, hfirst, _, hlt⟩
    have hlt' : 2 * e + k + 1 < 1 := hlt
    omega
  | case4 c src hc c' dest ih =>
    rw [strcat_skip hc, Option.isSome_map, ih]
    constructor
    · rintro ⟨e, k, hfirst, hend, hlt⟩
      exact ⟨e + 1, k, (evenEnd_cons hc c' dest e).mpr hfirst, hend, by simp only [List.length_cons]; omega⟩
    · rintro ⟨e, k, hfirst, hend, hlt⟩
      cases e with
      | zero => exact absurd (by simpa using hfirst.1) hc
      | succ e =>
        simp only [List.length_cons] at hlt
        exact ⟨e, k, (evenEnd_cons hc c' dest e).mp hfirst, hend, by omega⟩

/-- what has to be so for `strcat`: there is nothing to append, and the call comes back -/
def Appendable (dest : List Byte) (t : CString) : Prop :=
  t.chars = [] ∧ ∃ e k, EvenEnd dest e ∧ LaterEnd t.bytes k ∧ 2 * e + k + 1 < dest.length

/-- **When `strcat` appends.** -/
theorem strcat_iff {dest s : List Byte} (hs : 0 ∉ s) (hd : Text dest s) (t : CString) :
    (∃ r, strcat dest t.bytes = some r ∧ Text r.1 (s ++ t.chars)) ↔ Appendable dest t := by
  constructor
  · rintro ⟨r, hr, htext⟩
    have hsum : 0 ∉ s ++ t.chars := fun h => (List.mem_append.mp h).elim hs t.nonzero
    have hsame : s ++ t.chars = s := text_unique hsum hs htext (strcat_keeps hr hs hd)
    exact ⟨List.append_right_eq_self.mp hsame, strcat_returns.mp (Option.isSome_iff_exists.mpr ⟨r, hr⟩)⟩
  · rintro ⟨hempty, hends⟩
    obtain ⟨r, hr⟩ := Option.isSome_iff_exists.mp (strcat_returns.mpr hends)
    rw [hempty, List.append_nil]
    exact ⟨r, hr, strcat_keeps hr hs hd⟩

/-! ## one call after the other -/

def strcats : (dest : List Byte) → (srcs : List CString) → Option (List Byte)
  | dest, [] => some dest
  | dest, src :: srcs => (strcat dest src.bytes).bind fun r => strcats r.1 srcs

/-- every call finds what it needs in the state that the calls before have left -/
def AllAppendable : List Byte → List CString → Prop
  | _, [] => True
  | dest, t :: ts => Appendable dest t ∧ ∀ r, strcat dest t.bytes = some r → AllAppendable r.1 ts

theorem strcats_keeps {s : List Byte} (hs : 0 ∉ s) {ts : List CString} : ∀ {dest d : List Byte}, Text dest s →
    strcats dest ts = some d → Text d s := by
  induction ts with
  | nil =>
    intro dest d hd h
    cases h
    exact hd
  | cons t ts ih =>
    intro dest d hd h
    obtain ⟨r, hr, h⟩ := Option.bind_eq_some_iff.mp h
    exact ih (strcat_keeps hr hs hd) h

/-- **All pieces are there** after a run of `strcat` exactly if every call met its condition. -/
theorem strcats_iff {s : List Byte} (hs : 0 ∉ s) {ts : List CString} : ∀ {dest : List Byte}, Text dest s →
    ((∃ d, strcats dest ts = some d ∧ Text d (s ++ ts.flatMap CString.chars)) ↔ AllAppendable dest ts) := by
  induction ts with
  | nil =>
    intro dest hd
    refine iff_of_true ⟨dest, rfl, ?_⟩ trivial
    rwa [List.flatMap_nil, List.append_nil]
  | cons t ts ih =>
    intro dest hd
    constructor
    · rintro ⟨d, hrun, htext⟩
      obtain ⟨r, hr, hrest⟩ := Option.bind_eq_some_iff.mp hrun
      -- the first string stays alone, so no piece has had a character
      have hzero : ∀ u ∈ t :: ts, 0 ∉ u.chars := fun u _ => u.nonzero
      have hall : 0 ∉ s ++ (t :: ts).flatMap CString.chars := by
        intro h
        rcases List.mem_append.mp h with h | h
        · exact hs h
        · obtain ⟨u, hu, hmem⟩ := List.mem_flatMap.mp h
          exact hzero u hu hmem
      have hsame := text_unique hall hs htext (strcats_keeps hs hd hrun)
      have hnone := List.append_right_eq_self.mp hsame
      rw [List.flatMap_cons, List.append_eq_nil_iff] at hnone
      have hr' := strcat_keeps hr hs hd
      refine ⟨(strcat_iff hs hd t).mp ⟨r, hr, by rwa [hnone.1, List.append_nil]⟩, fun r' he => ?_⟩
      obtain rfl := Option.some.inj (hr.symm.trans he)
      refine (ih hr').mp ⟨d, hrest, ?_⟩
      rw [hnone.2, List.append_nil]
      exact strcats_keeps hs hr' hrest
    · rintro ⟨happ, hrest⟩
      obtain ⟨r, hr, htext⟩ := (strcat_iff hs hd t).mpr happ
      rw [happ.1, List.append_nil] at htext
      obtain ⟨d, hrun, hd'⟩ := (ih htext).mpr (hrest r hr)
      refine ⟨d, Option.bind_eq_some_iff.mpr ⟨r, hr, hrun⟩, ?_⟩
      rwa [List.flatMap_cons, happ.1, List.nil_append]

/-- **The string copies**, into buffers that are large enough: `strcpy` does what it should, the others under these conditions
only, and pieces come together if all calls met theirs. -/
theorem copy_family_iff (dest : List Byte) (n : Nat) (s t : CString) (ts : List CString) (ht : t.chars.length < dest.length)
    (hn : n ≤ dest.length) :
    (∃ r, strcpy dest t.bytes = some r ∧ Text r.1 t.chars) ∧
    (Copies dest t n ↔ Copyable dest t n) ∧
    ((∃ r, strcat s.bytes t.bytes = some r ∧ Text r.1 (s.chars ++ t.chars)) ↔ Appendable s.bytes t) ∧
    ((∃ r d, strcpy dest t.bytes = some r ∧ strcats r.1 ts = some d ∧ Text d (t.chars ++ ts.flatMap CString.chars)) ↔
      AllAppendable (t.chars ++ 0 :: dest.drop (t.chars.length + 1)) ts) := by
  have hcpy := strcpy_text t ht
  have htext : Text (t.chars ++ 0 :: dest.drop (t.chars.length + 1)) t.chars := ⟨_, (List.append_cons ..).symm⟩
  refine ⟨⟨_, hcpy, htext⟩, strncpy_iff t hn, strcat_iff s.nonzero s.text t, ?_⟩
  rw [← strcats_iff t.nonzero htext]
  constructor
  · rintro ⟨r, d, hr, hrun, hd⟩
    obtain rfl := Option.some.inj (hcpy.symm.trans hr)
    exact ⟨d, hrun, hd⟩
  · rintro ⟨d, hrun, hd⟩
    exact ⟨_, d, hcpy, hrun, hd⟩

def lit (s : List Char) (h : 0 ∉ s.map chr) : CString := ⟨s.map chr, h, []⟩

/-- two characters into four bytes: they come over, but not by `strncpy` -/
theorem copy_family_iff_two : (∃ r, strcpy [0, 0, 0, 0] (lit ['b', 'c'] (by decide)).bytes = some r ∧
      Text r.1 (['b', 'c'].map chr)) ∧ ¬ Copies [0, 0, 0, 0] (lit ['b', 'c'] (by decide)) 2 := by
  have h := copy_family_iff [0, 0, 0, 0] 2 (lit ['a'] (by decide)) (lit ['b', 'c'] (by decide)) []
    (by decide) (by decide)
  refine ⟨h.1, mt h.2.1.mp ?_⟩
  unfold Copyable
  decide

/-! ## int_except.c -/

def pageFaultFirst (err_code : BitVec 32) : CString :=
  if err_code &&& 0x1 ≠ 0 then lit "page-protection, ".toList (by decide +kernel) else lit "non-present, ".toList (by decide +kernel)

def pageFaultPieces (err_code : BitVec 32) : List CString :=
  [if err_code &&& 0x2 ≠ 0 then lit "during writing, ".toList (by decide +kernel)
    else lit "during reading, ".toList (by decide +kernel)] ++
  (if err_code &&& 0x4 ≠ 0 then [lit "by user, ".toList (by decide +kernel)] else []) ++
  (if err_code &&& 0x8 ≠ 0 then [lit "read from reserved field, ".toList (by decide +kernel)] else []) ++
  (if err_code &&& 0x10 ≠ 0 then [lit "instruction fetch, ".toList (by decide +kernel)] else [])

/-- `msg` is static -/
def csPageFaultErrorMsg (msg : List Byte) (err_code : BitVec 32) : Option (List Byte) := do
  let r ← strcpy msg (pageFaultFirst err_code).bytes
  let msg ← strcats r.1 (pageFaultPieces err_code)
  let n ← strlen msg
  let r ← strcpy (msg.drop (n - 2)) (lit " : ".toList (by decide +kernel)).bytes
  return msg.take (n - 2) ++ r.1

theorem strlen_text {s : List Byte} (hs : 0 ∉ s) : ∀ {b : List Byte}, Text b s → strlen b = some s.length := by
  induction s with
  | nil =>
    rintro b ⟨rest, rfl⟩
    rfl
  | cons c s ih =>
    rintro b ⟨rest, rfl⟩
    have hc : c ≠ 0 := fun e => hs (e ▸ List.mem_cons_self ..)
    show strlen (c :: (s ++ [0] ++ rest)) = _
    rw [strlen, if_neg hc, ih (mt (List.mem_cons_of_mem c) hs) ⟨rest, rfl⟩]
    rfl

/-- **The message** says the first piece only, whatever the other bits of the error code are. -/
theorem csPageFaultErrorMsg_text {msg d : List Byte} {err_code : BitVec 32} (hmsg : (pageFaultFirst err_code).chars.length < msg.length)
    (h : csPageFaultErrorMsg msg err_code = some d) :
    Text d ((pageFaultFirst err_code).chars.take ((pageFaultFirst err_code).chars.length - 2) ++ " : ".toList.map chr) := by
  obtain ⟨r, hr, h⟩ := Option.bind_eq_some_iff.mp h
  obtain ⟨b, hb, h⟩ := Option.bind_eq_some_iff.mp h
  obtain ⟨n, hn, h⟩ := Option.bind_eq_some_iff.mp h
  obtain ⟨r', hr', h⟩ := Option.bind_eq_some_iff.mp h
  obtain rfl := Option.some.inj h
  have hnz := (pageFaultFirst err_code).nonzero
  obtain rfl := Option.some.inj ((strcpy_text _ hmsg).symm.trans hr)
  have htext := strcats_keeps hnz ⟨_, (List.append_cons ..).symm⟩ hb
  obtain rfl := Option.some.inj ((strlen_text hnz htext).symm.trans hn)
  have htail := strcpy_text _ (strcpy_room (CString.nonzero _) hr')
  obtain rfl := Option.some.inj (htail.symm.trans hr')
  obtain ⟨rest, rfl⟩ := htext
  rw [List.append_assoc, List.take_append_of_le_length (Nat.sub_le _ 2)]
  exact ⟨_, by rw [List.append_assoc, List.append_assoc]; rfl⟩

/-- the message of a supervisor's read of a page that is not there -/
theorem reading_not_said : ¬ ∃ r d, strcpy (List.replicate 1024 0) (pageFaultFirst 0).bytes = some r ∧
    strcats r.1 (pageFaultPieces 0) = some d ∧
      Text d ((pageFaultFirst 0).chars ++ (pageFaultPieces 0).flatMap CString.chars) := by
  rintro ⟨r, d, hr, hrun, hd⟩
  have hroom : (pageFaultFirst 0).chars.length < (List.replicate 1024 (0 : Byte)).length := by decide +kernel
  obtain rfl := Option.some.inj ((strcpy_text _ hroom).symm.trans hr)
  have hall := (strcats_iff (pageFaultFirst 0).nonzero ⟨_, (List.append_cons ..).symm⟩).mp ⟨d, hrun, hd⟩
  exact absurd hall.1.1 (by decide +kernel)

end Clubcos.Str
