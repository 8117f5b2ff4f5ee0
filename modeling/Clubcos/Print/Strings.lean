import Mathlib.Data.List.TakeWhile
import Clubcos.Print.Numerals
import Clubcos.Print.Reads

/-!
# `%s` with a width and a precision

The blanks in front of a string are all stored at one place, and the string over them.

* `Width`, `Precision`    how they are given: not at all, in the format, or by an argument;
* `stringFormat`          the format of one conversion, and `stringText` what it is to print;
* `parse_stringFormat`    how the format is read;
* `string_text`           what a `Piece.string` that fits leaves in the buffer;
* `string_printed_iff`    **a string is printed as it should be** exactly if it needs no blanks in front.
-/

set_option linter.unusedVariables false

namespace Clubcos
open Word Numeral

/-- A width in the format is an `int`. -/
inductive Width where
  | absent
  | literal (n : Nat) (h : n < 2^31)
  | star (x : BitVec 32)

inductive Precision where
  | absent
  /-- a dot and nothing behind it -/
  | bare
  | literal (n : Nat) (h : n < 2^31)
  | star (x : BitVec 32)

/-! ## what is to be printed -/

/-- in decimal -/
def intLiteral (n : Nat) : List Byte := (numeral 10 n).map (digitChar false)

def Width.format : Width → List Byte
  | .absent => []
  | .literal n _ => intLiteral n
  | .star _ => [chr '*']

def Precision.format : Precision → List Byte
  | .absent => []
  | .bare => [chr '.']
  | .literal n _ => chr '.' :: intLiteral n
  | .star _ => [chr '.', chr '*']

def Width.args : Width → List Arg
  | .star x => [.word x]
  | _ => []

def Precision.args : Precision → List Arg
  | .star x => [.word x]
  | _ => []

/-- `%s` with them -/
def stringFormat (left : Bool) (w : Width) (p : Precision) : List Byte :=
  chr '%' :: ((if left then [chr '-'] else []) ++ (w.format ++ (p.format ++ [chr 's'])))

def stringArgs (w : Width) (p : Precision) (s : List Byte) : List Arg := w.args ++ (p.args ++ [.str (some s)])

/-- how many characters there are to be at least -/
def Width.amount : Width → Nat
  | .absent => 0
  | .literal n _ => n
  | .star x => x.toInt.natAbs

/-- an argument below 0 asks for blanks behind the string -/
def Width.left : Width → Bool
  | .star x => decide (x.toInt < 0)
  | _ => false

/-- how much of the string there is to be at most -/
def Precision.take (s : List Byte) : Precision → List Byte
  | .absent => s
  | .bare => []
  | .literal n _ => s.take n
  | .star x => s.take x.toInt.toNat

def stringText (left : Bool) (w : Width) (p : Precision) (s : List Byte) : List Byte :=
  let blanks := List.replicate (w.amount - (p.take s).length) (chr ' ')
  if left || w.left then p.take s ++ blanks else blanks ++ p.take s

/-- Blanks in front are not needed, and the negative of the width is an `int`. -/
def Honoured (left : Bool) (w : Width) (p : Precision) (s : List Byte) : Prop :=
  if left || w.left then w.amount < 2^31 else w.amount ≤ (p.take s).length

/-! ## how the format is read -/

/-- the width as the format gives it; a 0 is a flag -/
def Width.given : Width → Amount
  | .absent => .given (-1)
  | .literal n _ => .given (if n = 0 then -1 else n)
  | .star _ => .star

def Width.zeropad : Width → Bool
  | .literal n _ => n == 0
  | _ => false

def Precision.given : Precision → Amount
  | .absent => .given (-1)
  | .bare => .given 0
  | .literal n _ => .given n
  | .star _ => .star

def stringConversion (left : Bool) (w : Width) (p : Precision) : Conversion :=
  ⟨⟨w.zeropad, false, false, false, left, false, false⟩, w.given, p.given, none, .s⟩

theorem skip_atoi_digits {ds : List Nat} (hds : ∀ d ∈ ds, d < 10) {rest : List Byte} (hrest : isdigit (peek rest) = false) :
    ∀ v : Nat, skip_atoi (int32 v) (ds.map (digitChar false) ++ rest) =
      (int32 (ds.foldl (fun v d => v * 10 + d) v : Nat), rest) := by
  induction ds with
  | nil =>
    intro v
    cases rest with
    | nil => rfl
    | cons c rest =>
      rw [List.map_nil, List.nil_append, skip_atoi, if_neg (by simpa [peek] using hrest), List.foldl_nil]
  | cons d ds ih =>
    intro v
    obtain ⟨hdigit, hvalue⟩ := isdigit_char (hds d List.mem_cons_self)
    have hstep : int32 (int32 v * 10 + ((digitChar false d).toNat : Int) - 0x30) = int32 ((v * 10 + d : Nat) : Int) := by
      have hsum : int32 v * 10 + ((digitChar false d).toNat : Int) - 0x30 = int32 v * 10 + d := by
        rw [hvalue]
        push_cast
        ring
      rw [hsum]
      unfold int32
      rw [← Int.bmod_add_bmod, Int.bmod_mul_bmod, Int.bmod_add_bmod]
      push_cast
      rfl
    rw [List.map_cons, List.cons_append, skip_atoi, if_pos hdigit, hstep, List.foldl_cons]
    exact ih (fun d hd => hds d (List.mem_cons_of_mem _ hd)) _

theorem skip_atoi_literal {n : Nat} (hn : n < 2^31) {rest : List Byte} (hrest : isdigit (peek rest) = false) :
    skip_atoi 0 (intLiteral n ++ rest) = ((n : Int), rest) := by
  have h := skip_atoi_digits (numeral_lt (b := 10) (by decide) n) hrest 0
  rw [show int32 ((0 : Nat) : Int) = 0 by decide, show List.foldl (fun v d => v * 10 + d) 0 (numeral 10 n) = n from numeral_value 10 n,
    int32_small (by omega) (by omega)] at h
  exact h

/-- the first digit of a literal -/
theorem peek_literal (n : Nat) (rest : List Byte) : ∃ d, d < 10 ∧ peek (intLiteral n ++ rest) = digitChar false d ∧
    (n ≠ 0 → d ≠ 0) := by
  by_cases hn : n = 0
  · exact ⟨0, by decide, by simp [hn, intLiteral, numeral, peek], fun h => absurd hn h⟩
  · obtain ⟨d, ds, hds, hd⟩ := numeral_head 10 hn
    refine ⟨d, numeral_lt (by decide) n d (hds ▸ List.mem_cons_self), ?_, fun _ => hd⟩
    rw [intLiteral, hds]
    rfl

/-- a character that is no flag ends the flags -/
theorem parseFlags_stop {fmt : List Byte} (h : ∀ flags, flag flags (peek fmt) = none) (flags : Flags) :
    parseFlags flags fmt = (flags, fmt) := by
  cases fmt with
  | nil => rfl
  | cons c fmt =>
    rw [parseFlags_cons]
    have hc := h flags
    rw [peek, List.headD_cons] at hc
    rw [hc]

theorem flag_digit {d : Nat} (hd : d < 10) (h0 : d ≠ 0) (flags : Flags) : flag flags (digitChar false d) = none := by
  have hchar : ∀ c ∈ [chr '-', chr '+', chr ' ', chr '#', chr '0'], digitChar false d ≠ c := by
    interval_cases d <;> first | exact absurd rfl h0 | decide
  unfold flag
  rw [if_neg (hchar _ (by simp)), if_neg (hchar _ (by simp)), if_neg (hchar _ (by simp)), if_neg (hchar _ (by simp)),
    if_neg (hchar _ (by simp))]

/-- what is behind the width begins with a dot or with the letter -/
structure BehindWidth (fmt : List Byte) : Prop where
  digit : isdigit (peek fmt) = false
  star : peek fmt ≠ chr '*'
  flag : ∀ flags, flag flags (peek fmt) = none

theorem behindWidth (p : Precision) : BehindWidth (p.format ++ [chr 's']) := by
  have hs : BehindWidth [chr 's'] := ⟨by decide, by decide, fun flags => rfl⟩
  have hdot : ∀ fmt, BehindWidth (chr '.' :: fmt) := fun fmt =>
    ⟨show isdigit (chr '.') = false by decide, show chr '.' ≠ chr '*' by decide, fun flags => rfl⟩
  cases p with
  | absent => exact hs
  | bare => exact hdot _
  | literal n h => exact hdot _
  | star x => exact hdot _

/-- the flags and the width -/
theorem parseWidth_format (flags : Flags) (w : Width) {fmt : List Byte} (h : BehindWidth fmt) :
    ∃ behind, parseFlags flags (w.format ++ fmt) = ({ flags with zeropad := flags.zeropad || w.zeropad }, behind) ∧
      parseWidth behind = (w.given, fmt) := by
  have habsent : parseWidth fmt = (.given (-1), fmt) := by
    unfold parseWidth
    rw [if_neg (by simp [h.digit]), if_neg h.star]
  cases w with
  | absent =>
    refine ⟨fmt, ?_, habsent⟩
    rw [show Width.absent.format ++ fmt = fmt from rfl, parseFlags_stop h.flag]
    simp [Width.zeropad]
  | star x =>
    refine ⟨chr '*' :: fmt, ?_, ?_⟩
    · rw [show (Width.star x).format ++ fmt = chr '*' :: fmt from rfl, parseFlags_stop fun flags => rfl]
      simp [Width.zeropad]
    · rfl
  | literal n hn =>
    by_cases h0 : n = 0
    · subst h0
      refine ⟨fmt, ?_, by rw [habsent]; rfl⟩
      have hzero : (Width.literal 0 hn).format ++ fmt = chr '0' :: fmt := by
        simp only [Width.format, intLiteral, numeral, if_true, List.map_cons, List.map_nil, List.singleton_append]
        rfl
      rw [hzero, parseFlags_cons, show flag flags (chr '0') = some { flags with zeropad := true } from rfl]
      show parseFlags { flags with zeropad := true } fmt = _
      rw [parseFlags_stop h.flag]
      simp [Width.zeropad]
    · obtain ⟨d, hd, hpeek, hne⟩ := peek_literal n fmt
      refine ⟨intLiteral n ++ fmt, ?_, ?_⟩
      · have hflag : ∀ flags, flag flags (peek (intLiteral n ++ fmt)) = none := fun flags => by
          rw [hpeek]
          exact flag_digit hd (hne h0) flags
        rw [show (Width.literal n hn).format ++ fmt = intLiteral n ++ fmt from rfl, parseFlags_stop hflag]
        simp [Width.zeropad, beq_eq_false_iff_ne.mpr h0]
      · unfold parseWidth
        rw [if_pos (by rw [hpeek]; exact (isdigit_char hd).1), skip_atoi_literal hn h.digit]
        simp only [Width.given, if_neg h0]

theorem parsePrecision_format (p : Precision) : parsePrecision (p.format ++ [chr 's']) = (p.given, [chr 's']) := by
  cases p with
  | absent => rfl
  | bare => rfl
  | star x => rfl
  | literal n h =>
    obtain ⟨d, hd, hpeek, _⟩ := peek_literal n [chr 's']
    have htail : (Precision.format (.literal n h) ++ [chr 's']).tail = intLiteral n ++ [chr 's'] := rfl
    have hmax : max (n : Int) 0 = n := max_eq_left (by omega)
    unfold parsePrecision
    rw [if_pos (show peek (Precision.format (.literal n h) ++ [chr 's']) = chr '.' from rfl)]
    simp only [htail]
    rw [if_pos (by rw [hpeek]; exact (isdigit_char hd).1), skip_atoi_literal h (by decide)]
    simp only [hmax]
    rfl

theorem intLiteral_nonzero (n : Nat) : ∀ c ∈ intLiteral n, c ≠ 0 := by
  intro c hc
  obtain ⟨d, hd, rfl⟩ := List.mem_map.mp hc
  exact digitChar_nonzero (numeral_lt (by decide) n d hd)

theorem stringFormat_nonzero (left : Bool) (w : Width) (p : Precision) : ∀ c ∈ stringFormat left w p, c ≠ 0 := by
  have hw : ∀ c ∈ w.format, c ≠ 0 := by
    cases w with
    | absent => simp [Width.format]
    | literal n h => exact intLiteral_nonzero n
    | star x => exact (by decide : ∀ c ∈ [chr '*'], c ≠ 0)
  have hp : ∀ c ∈ p.format, c ≠ 0 := by
    cases p with
    | absent => simp [Precision.format]
    | bare => decide
    | literal n h => exact List.forall_mem_cons.mpr ⟨by decide, intLiteral_nonzero n⟩
    | star x => exact (by decide : ∀ c ∈ [chr '.', chr '*'], c ≠ 0)
  have hl : ∀ c ∈ (if left then [chr '-'] else []), c ≠ 0 := by
    cases left <;> decide
  exact List.forall_mem_cons.mpr ⟨by decide, List.forall_mem_append.mpr ⟨hl, List.forall_mem_append.mpr ⟨hw,
    List.forall_mem_append.mpr ⟨hp, by decide⟩⟩⟩⟩

/-- **The format is read** as the one conversion. -/
theorem parse_stringFormat (left : Bool) (w : Width) (p : Precision) :
    parseFormat (stringFormat left w p) = some [.conversion (stringConversion left w p)] := by
  obtain ⟨behind, hflags, hwidth⟩ := parseWidth_format ⟨false, false, false, false, left, false, false⟩ w (behindWidth p)
  have hleft : parseFlags .none ((if left then [chr '-'] else []) ++ (w.format ++ (p.format ++ [chr 's']))) =
      parseFlags ⟨false, false, false, false, left, false, false⟩ (w.format ++ (p.format ++ [chr 's'])) := by
    cases left with
    | false => rfl
    | true => exact parseFlags_cons .none (chr '-') _
  have hparse : parseConversion ((if left then [chr '-'] else []) ++ (w.format ++ (p.format ++ [chr 's']))) =
      (⟨w.zeropad, false, false, false, left, false, false⟩, w.given, p.given, none, [chr 's']) := by
    unfold parseConversion
    simp only [hleft, hflags, hwidth, parsePrecision_format, Bool.false_or]
    rfl
  have hnext : nextDirective (chr '%') ((if left then [chr '-'] else []) ++ (w.format ++ (p.format ++ [chr 's']))) =
      some (.conversion (stringConversion left w p), []) := by
    unfold nextDirective
    rw [if_pos rfl, hparse]
    rfl
  have hnul : (stringFormat left w p).takeWhile (· ≠ 0) = stringFormat left w p :=
    List.takeWhile_eq_self_iff.mpr fun c hc => decide_eq_true (stringFormat_nonzero left w p c hc)
  unfold parseFormat
  simp only [hnul]
  show (nextDirective (chr '%') _).bind _ = _
  rw [hnext]
  simp [directives]

/-! ## what is stored -/

theorem padString_text (pads : Nat) {o : Out} (h : pads ≤ (o.size - 1).toNat) : ∃ o', padString pads o = .ok o' ∧
    o'.size = o.size - BitVec.ofNat 32 pads ∧ o'.text = o.text := by
  induction pads generalizing o with
  | zero => exact ⟨o, rfl, by simp, rfl⟩
  | succ pads ih =>
    have hne : o.size ≠ 1 := by
      intro e
      rw [e] at h
      exact absurd h (Nat.not_succ_le_zero _)
    have htick := tick_toNat hne
    obtain ⟨o', ho', hsize, htext⟩ := ih (o := o.tick.store (chr ' ')) (by
      show pads ≤ (o.size - 1 - 1).toNat
      omega)
    refine ⟨o', ?_, ?_, ?_⟩
    · rw [padString, if_neg hne, ho']
    · rw [hsize, BitVec.ofNat_add]
      show o.size - 1 - _ = _
      bv_omega
    · rw [htext, text_store]
      rfl

theorem trailBlanks_text (blanks : Nat) (o : Out) (h : blanks < o.size.toNat) :
    ∃ o', trailBlanks blanks o = .ok o' ∧ o'.text = o.text ++ List.replicate blanks (chr ' ') := by
  induction blanks generalizing o with
  | zero => exact ⟨o, rfl, by simp⟩
  | succ blanks ih =>
    have hne : o.size ≠ 1 := by
      intro e
      rw [e] at h
      exact absurd h (by simp)
    obtain ⟨o', ho', htext⟩ := ih ((o.push (chr ' ')).tick) (by
      show blanks < (o.size - 1).toNat
      bv_omega)
    refine ⟨o', ?_, ?_⟩
    · rw [trailBlanks, if_neg hne, ho']
    · rw [htext, List.replicate_succ, List.append_cons]
      exact congrArg (· ++ _) (text_push o (chr ' '))

/-- **The blanks in front of a string** are not in the text. -/
theorem string_text (pads blanks : Nat) (s : List Byte) (o : Out) (h : pads + s.length + blanks < o.size.toNat) :
    (merge ((Piece.string pads s.length s blanks).print o)).text = o.text ++ s ++ List.replicate blanks (chr ' ') := by
  obtain ⟨o₁, h₁, hsize, htext⟩ := padString_text pads (show pads ≤ (o.size - 1).toNat by bv_omega)
  have hleft : o₁.size.toNat = o.size.toNat - pads := by
    rw [hsize]
    bv_omega
  have hcopy : copyString s.length s o₁ = .ok (Out.write { o₁ with size := o₁.size - BitVec.ofNat 32 s.length } s) := by
    rw [copyString, if_neg (by omega)]
    rfl
  obtain ⟨o₃, h₃, htext₃⟩ := trailBlanks_text blanks
    (Out.write { o₁ with size := o₁.size - BitVec.ofNat 32 s.length } s) (by
      rw [size_write]
      show blanks < (o₁.size - BitVec.ofNat 32 s.length).toNat
      bv_omega)
  have hprint : (Piece.string pads s.length s blanks).print o = .ok o₃ := by
    show ((padString pads o).bind (copyString s.length s)).bind (trailBlanks blanks) = _
    rw [h₁]
    show (copyString s.length s o₁).bind (trailBlanks blanks) = _
    rw [hcopy]
    exact h₃
  rw [hprint]
  show o₃.text = _
  rw [htext₃, text_write, ← htext]
  rfl

/-! ## width and precision of a call -/

/-- the width that the call goes on with -/
def Width.int : Width → Int
  | .absent => -1
  | .literal n _ => if n = 0 then -1 else n
  | .star x => if x.toInt < 0 then int32 (-x.toInt) else x.toInt

def Precision.int : Precision → Int
  | .absent => -1
  | .bare => 0
  | .literal n _ => n
  | .star x => max x.toInt 0

def stringFlags (left : Bool) (w : Width) : Flags := ⟨w.zeropad, false, false, false, left || w.left, false, false⟩

theorem fetchWidth_string (left : Bool) (w : Width) (p : Precision) (args : List Arg) :
    (stringConversion left w p).fetchWidth (w.args ++ args) = some (stringFlags left w, w.int, args) := by
  cases w with
  | absent => simp [Conversion.fetchWidth, stringConversion, Width.given, Width.args, stringFlags, Width.left, Width.int]
  | literal n h =>
    simp [Conversion.fetchWidth, stringConversion, Width.given, Width.args, stringFlags, Width.left, Width.int]
  | star x =>
    simp only [Conversion.fetchWidth, stringConversion, Width.given, Width.args, List.singleton_append, vaWord,
      Option.map_some, stringFlags, Width.left, Width.int]
    by_cases hneg : x.toInt < 0 <;> simp [hneg]

theorem fetchPrecision_string (left : Bool) (w : Width) (p : Precision) (args : List Arg) :
    (stringConversion left w p).fetchPrecision (p.args ++ args) = some (p.int, args) := by
  cases p <;> simp [Conversion.fetchPrecision, stringConversion, Precision.given, Precision.args, Precision.int, vaWord]

theorem fetch_string (front : Nat → Byte) (left : Bool) (w : Width) (p : Precision) (s : List Byte) :
    (Directive.conversion (stringConversion left w p)).fetch front (stringArgs w p s) =
      some (stringPiece (stringFlags left w) w.int p.int (some s), []) := by
  unfold Directive.fetch stringArgs
  simp only [fetchWidth_string, Option.bind_some, fetchPrecision_string]
  rfl

theorem width_amount (w : Width) : w.amount ≤ 2^31 ∧ (w.amount < 2^31 → w.int.toNat = w.amount) ∧
    (w.amount = 2^31 → w.int.toNat = 0 ∧ w.left = true) ∧ (w.left = false → -1 ≤ w.int) ∧ w.int < 2^31 := by
  cases w with
  | absent => decide
  | literal n h =>
    simp only [Width.amount, Width.int, Width.left]
    split <;> omega
  | star x =>
    have h1 : x.toInt < 2^31 := BitVec.toInt_lt
    have h2 : -2^31 ≤ x.toInt := BitVec.le_toInt x
    simp only [Width.amount, Width.int, Width.left]
    by_cases hmin : x.toInt = -2^31
    · rw [hmin]
      decide
    · rw [int32_small (by omega) (by omega)]
      split <;> simp <;> omega

theorem precision_take {s : List Byte} (hs : s.length < 2^32) (p : Precision) :
    p.take s = s.take (p.int % 2^32).toNat := by
  cases p with
  | absent =>
    rw [List.take_of_length_le]
    · rfl
    · show s.length ≤ 2^32 - 1
      omega
  | bare => rfl
  | literal n h =>
    have hn : ((n : Int) % 2^32).toNat = n := by omega
    rw [Precision.int, hn]
    rfl
  | star x =>
    have h1 : x.toInt < 2^31 := BitVec.toInt_lt
    have hn : (max x.toInt 0 % 2^32).toNat = x.toInt.toNat := by omega
    rw [Precision.int, hn]
    rfl

theorem strnlen_eq {s : List Byte} (hs : 0 ∉ s) : ∀ k, strnlen s k = (s.take k).length := by
  induction s with
  | nil => simp [strnlen]
  | cons c s ih =>
    intro k
    obtain ⟨hc, hs⟩ := not_or.mp (fun h => hs (List.mem_cons.mpr h))
    cases k with
    | zero => simp [strnlen]
    | succ k =>
      rw [strnlen, if_pos ⟨Ne.symm hc, Nat.succ_pos k⟩, Nat.add_sub_cancel, ih hs, List.take_succ_cons, List.length_cons]

/-- the blanks behind the string, which are all that the text has -/
def Width.behind (left : Bool) (w : Width) (len : Nat) : Nat := if left || w.left then w.int.toNat - len else 0

theorem stringPiece_eq (left : Bool) (w : Width) {p : Precision} {s : List Byte} (hs : 0 ∉ s) (hmem : s.length < 2^32)
    (hlen : (p.take s).length < 2^31) : ∃ pads, pads + w.behind left (p.take s).length ≤ w.amount - (p.take s).length ∧
      stringPiece (stringFlags left w) w.int p.int (some s) =
        .string pads (p.take s).length (p.take s) (w.behind left (p.take s).length) := by
  obtain ⟨hle, hint, hmin, hpos, hmax⟩ := width_amount w
  have hsize : strnlen s (p.int % 2^32).toNat = (p.take s).length := by rw [strnlen_eq hs, precision_take hmem]
  have hlen32 : int32 (p.take s).length = (p.take s).length := int32_small (by omega) (by omega)
  have htake : s.take (p.take s).length = p.take s := by
    rw [precision_take hmem, List.length_take, List.take_eq_take_iff]
    omega
  have hcount : ∀ m n : Int, (countDown m n).1 = (n - m).toNat := fun m n => by
    unfold countDown
    split
    · rfl
    · simp
      omega
  unfold stringPiece Width.behind
  simp only [Option.getD_some, hsize, hlen32, Int.toNat_natCast, htake, u32_of_lt (show (p.take s).length < 2^32 by omega)]
  cases hl : (left || w.left) with
  | true =>
    refine ⟨0, ?_, ?_⟩
    · rw [if_pos rfl]
      rcases Nat.lt_or_eq_of_le hle with h | h
      · rw [hint h]
        omega
      · rw [(hmin h).1]
        omega
    · have e : (w.int - (p.take s).length).toNat = w.int.toNat - (p.take s).length := by omega
      simp only [stringFlags, hl, if_true, hcount, e]
  | false =>
    obtain ⟨hl₁, hl₂⟩ := Bool.or_eq_false_iff.mp hl
    have hlt : w.amount < 2^31 := Nat.lt_of_le_of_ne hle fun e => by
      rw [(hmin e).2] at hl₂
      cases hl₂
    have hge := hpos hl₂
    refine ⟨(w.int - (p.take s).length).toNat, ?_, ?_⟩
    · rw [if_neg (by decide), ← hint hlt]
      omega
    · -- once the blanks are counted down, there are none behind
      have hnone : ((countDown (p.take s).length w.int).2 - (p.take s).length).toNat = 0 := by
        unfold countDown
        split
        · simp only []
          rw [int32_small (by omega) (by omega)]
          omega
        · simp only []
          rw [int32_small (by omega) (by omega)]
          omega
      simp only [stringFlags, hl, Bool.false_eq_true, if_false, hcount, hnone]

/-! ## the call -/

theorem stringText_length (left : Bool) (w : Width) (p : Precision) (s : List Byte) :
    (stringText left w p s).length = (p.take s).length + (w.amount - (p.take s).length) := by
  unfold stringText
  split
  · simp
  · simp
    omega

/-- **A string is printed as it should be**, if the buffer has room for that, exactly if no blanks are needed in front. -/
theorem string_printed_iff (front buf : Nat → Byte) {size : BitVec 32} {left : Bool} {w : Width} {p : Precision}
    {s : List Byte} (hs : 0 ∉ s) (hmem : s.length + 1 + size.toNat ≤ 2^32)
    (hroom : (stringText left w p s).length < size.toNat) :
    ∃ r, vsnprintf front buf size (stringFormat left w p) (stringArgs w p s) = some r ∧
      (r.Holds (stringText left w p s) ↔ Honoured left w p s) := by
  have htotal := stringText_length left w p s
  have hshort : (p.take s).length ≤ s.length := by
    rw [precision_take (show s.length < 2^32 by omega), List.length_take]
    omega
  have hlen : (p.take s).length < 2^31 := by omega
  obtain ⟨hle, hint, hmin, _, _⟩ := width_amount w
  obtain ⟨pads, hpads, hpiece⟩ := stringPiece_eq left w hs (show s.length < 2^32 by omega) hlen
  by_cases h1 : size = 1
  · -- there is room for the empty text only
    subst h1
    have hsmall : (p.take s).length = 0 ∧ w.amount = 0 := by
      have hone : (1 : BitVec 32).toNat = 1 := rfl
      omega
    have hempty : stringText left w p s = [] := List.length_eq_zero_iff.mp (by omega)
    refine ⟨_, rfl, iff_of_true ?_ ?_⟩
    · rw [hempty]
      exact ⟨rfl, Function.update_self 0 (0 : Byte) buf⟩
    · unfold Honoured
      split <;> omega
  · have hfetch := fetch_string front left w p s
    rw [hpiece] at hfetch
    refine ⟨_, vsnprintf_one (by bv_omega) (parse_stringFormat left w p) hfetch, ?_⟩
    have htext := string_text pads (w.behind left (p.take s).length) (p.take s)
      (.start buf size) (by show _ < size.toNat; omega)
    have hstr := congrArg List.length htext
    rw [text_length] at hstr
    simp only [text_start, List.nil_append, List.length_append, List.length_replicate] at htext hstr
    rw [finish_holds (by omega), htext]
    unfold stringText Honoured Width.behind at *
    cases hl : (left || w.left) with
    | true =>
      simp only [if_true]
      rw [List.append_cancel_left_eq, List.replicate_inj]
      constructor
      · rintro ⟨e, _⟩
        refine Nat.lt_of_le_of_ne hle fun hne => ?_
        rw [(hmin hne).1] at e
        omega
      · intro hlt
        exact ⟨by rw [hint hlt], Or.inr rfl⟩
    | false =>
      simp only [Bool.false_eq_true, if_false, List.replicate_zero, List.append_nil]
      constructor
      · intro h
        have hlen' := congrArg List.length h
        rw [List.length_append, List.length_replicate] at hlen'
        omega
      · intro h
        rw [Nat.sub_eq_zero_of_le h]
        rfl

/-- two characters in three places, behind which the blank is put -/
theorem string_printed_iff_left : ∃ r, vsnprintf (fun _ => 0) (fun _ => 0) 80
    (stringFormat true (.literal 3 (by decide)) .absent) (stringArgs (.literal 3 (by decide)) .absent (['a', 'b'].map chr)) =
      some r ∧ r.Holds (['a', 'b', ' '].map chr) := by
  obtain ⟨r, hr, hiff⟩ := @string_printed_iff (fun _ => 0) (fun _ => 0) 80 true (.literal 3 (by decide)) .absent
    (['a', 'b'].map chr) (by decide) (by decide) (by decide)
  exact ⟨r, hr, hiff.mpr (show 3 < 2^31 by decide)⟩

def padCall : Option Printed :=
  vsnprintf (fun _ => 0) (fun _ => 0) 80 (['%', '3', 's'].map chr) [.str (some (['a', 'b'].map chr))]

theorem padCall_some : padCall.isSome := by decide +kernel

theorem padCall_text : (padCall.get padCall_some).text = ['a', 'b'].map chr := by decide +kernel

/-- **The blank in front is overwritten** by the string. -/
theorem pad_overwritten : ∃ r, vsnprintf (fun _ => 0) (fun _ => 0) 80 (stringFormat false (.literal 3 (by decide)) .absent)
    (stringArgs (.literal 3 (by decide)) .absent (['a', 'b'].map chr)) = some r ∧ r.text = ['a', 'b'].map chr ∧
      ¬ r.Holds (stringText false (.literal 3 (by decide)) .absent (['a', 'b'].map chr)) := by
  have hformat : stringFormat false (.literal 3 (by decide)) .absent = ['%', '3', 's'].map chr := by
    simp [stringFormat, Width.format, Precision.format, intLiteral, numeral]
    rfl
  refine ⟨padCall.get padCall_some, ?_, padCall_text, fun h => ?_⟩
  · rw [hformat]
    exact (Option.some_get padCall_some).symm
  · rw [Printed.Holds, padCall_text] at h
    exact absurd h.1 (by decide)

end Clubcos
