import Mathlib.Tactic.SplitIfs
import Clubcos.Print.Bounds

/-!
# The format, read byte by byte

`directives` takes the format apart as a list that ends; here every byte is read at its place, and a read behind the `'\0'` is one.

* `fmtAt`            `fmt[i]`, `none` behind the `'\0'`;
* `readConversion`   the format behind a `'%'`, up to the letter;
* `formatLoop`       the loop, with the rounds that it makes; where it goes on behind an unknown letter is a parameter;
* `ReadsAs`          a read at some place is what the function on lists makes of the bytes from there on;
* `formatLoop_printDirectives`   **the loop prints the directives** of a format that has them.
-/

set_option linter.unusedVariables false

namespace Clubcos
open Word

variable {α : Type}

/-- the byte at `i` of a format whose `'\0'` stands behind `s` -/
def fmtAt (s : List Byte) (i : Nat) : Option Byte := (s ++ [0])[i]?

theorem fmtAt_lt {s : List Byte} {i : Nat} {c : Byte} (h : fmtAt s i = some c) : i < s.length + 1 := by
  have hlt := (List.getElem?_eq_some_iff.mp h).1
  rwa [List.length_append] at hlt

/-- `flags |= ...` -/
def flag (flags : Flags) (c : Byte) : Option Flags :=
  if c = chr '-' then some { flags with left := true }
  else if c = chr '+' then some { flags with plus := true }
  else if c = chr ' ' then some { flags with space := true }
  else if c = chr '#' then some { flags with special := true }
  else if c = chr '0' then some { flags with zeropad := true }
  else none

def readFlags (s : List Byte) (flags : Flags) (i : Nat) : Option (Flags × Nat) :=
  match h : fmtAt s i with
  | none => none
  | some c =>
    match flag flags c with
    | some flags => readFlags s flags (i + 1)
    | none => some (flags, i)
termination_by s.length + 1 - i
decreasing_by
  have hlt := fmtAt_lt h
  omega

def readAtoi (s : List Byte) (n : Int) (i : Nat) : Option (Int × Nat) :=
  match h : fmtAt s i with
  | none => none
  | some c => if isdigit c then readAtoi s (int32 (n * 10 + c.toNat - 0x30)) (i + 1) else some (n, i)
termination_by s.length + 1 - i
decreasing_by
  have hlt := fmtAt_lt h
  omega

def readWidth (s : List Byte) (i : Nat) : Option (Amount × Nat) :=
  (fmtAt s i).bind fun c =>
    if isdigit c then (readAtoi s 0 i).map fun (n, i) => (.given n, i)
    else if c = chr '*' then some (.star, i + 1)
    else some (.given (-1), i)

/-- the byte behind the length is read if there is a length only -/
def readPrecision (s : List Byte) (i : Nat) : Option (Amount × Nat) :=
  (fmtAt s i).bind fun c =>
    if c = chr '.' then
      (fmtAt s (i + 1)).bind fun c =>
        if isdigit c then (readAtoi s 0 (i + 1)).map fun (n, i) => (.given (max n 0), i)
        else if c = chr '*' then some (.star, i + 2)
        else if is_length c then
          (fmtAt s (i + 2)).map fun c => if c = chr 's' then (.given 0, i + 2) else (.given 0, i + 1)
        else some (.given 0, i + 1)
    else some (.given (-1), i)

def readLength (s : List Byte) (i : Nat) : Option (Option Byte × Nat) :=
  (fmtAt s i).map fun c => if is_length c then (some c, i + 1) else (none, i)

def readConversion (s : List Byte) (i : Nat) : Option ((Flags × Amount × Amount × Option Byte) × Nat) :=
  (readFlags s .none i).bind fun (flags, i) =>
    (readWidth s i).bind fun (width, i) =>
      (readPrecision s i).bind fun (precision, i) =>
        (readLength s i).map fun (length, i) => ((flags, width, precision, length), i)

/-- One round at the byte `c`, with the place where the next one is made.  Behind the letter at `i` of an unknown
conversion that is `skip i`. -/
def readRound (skip : Nat → Nat) (s : List Byte) (i : Nat) (c : Byte) : Option (Directive × Nat) :=
  if c = chr '%' then
    (readConversion s (i + 1)).bind fun ((flags, width, precision, length), i) =>
      (fmtAt s i).map fun c =>
        match letterOf flags c with
        | some (flags, letter) => (.conversion ⟨flags, width, precision, length, letter⟩, i + 1)
        | none => (.conversion ⟨flags, width, precision, length, .unknown⟩, skip i)
  else some (.char c, i + 1)

/-- a round of the loop: where it begins, what it does, and where the next one does -/
structure Round where
  pos : Nat
  directive : Directive
  next : Nat

/-- why a loop does not come to its end -/
inductive Fault where
  /-- a byte behind the `'\0'` is read -/
  | overrun
  /-- a conversion does not find its arguments -/
  | args
  /-- the rounds are not enough -/
  | rounds
deriving DecidableEq

def formatLoop (skip : Nat → Nat) (front : Nat → Byte) (s : List Byte) :
    (rounds : Nat) → Nat → List Arg → Out → Except Fault (Out × List Round)
  | 0, _, _, _ => .error .rounds
  | rounds + 1, i, args, o =>
    match fmtAt s i with
    | none => .error .overrun
    | some c =>
      if c = 0 then .ok (o, [])
      else match readRound skip s i c with
        | none => .error .overrun
        | some (d, j) =>
          match d.fetch front args with
          | none => .error .args
          | some (p, args) =>
            match p.print o with
            | .error o => .ok (o, [⟨i, d, j⟩])
            | .ok o => (formatLoop skip front s rounds j args o).map fun (o, rs) => (o, ⟨i, d, j⟩ :: rs)

/-! ## reads and lists -/

/-- `p` is what `r` says of the bytes from some place on -/
def ReadsAs (s : List Byte) (p : Option (α × Nat)) (r : α × List Byte) : Prop :=
  ∃ j, p = some (r.1, j) ∧ j ≤ s.length ∧ s.drop j = r.2

section
variable {s : List Byte} {i : Nat}

theorem fmtAt_peek (h : i ≤ s.length) : fmtAt s i = some (peek (s.drop i)) := by
  unfold fmtAt
  rcases Nat.lt_or_eq_of_le h with h | rfl
  · rw [List.getElem?_append_left h, List.drop_eq_getElem_cons h, List.getElem?_eq_getElem h]
    rfl
  · rw [List.getElem?_append_right (Nat.le_refl _), List.drop_length]
    simp [peek]

theorem fmtAt_behind (h : s.length < i) : fmtAt s i = none := by
  unfold fmtAt
  apply List.getElem?_eq_none
  simp only [List.length_append, List.length_singleton]
  omega

theorem drop_tail (s : List Byte) (i : Nat) : s.drop (i + 1) = (s.drop i).tail := by
  rw [List.tail_drop]

/-- a byte that is not the `'\0'` has another one behind it -/
theorem lt_of_peek (h : i ≤ s.length) (hc : peek (s.drop i) ≠ 0) : i + 1 ≤ s.length := by
  rcases Nat.lt_or_eq_of_le h with h | rfl
  · exact h
  · rw [List.drop_length] at hc
    exact absurd rfl hc

theorem ReadsAs.intro {p : Option (α × Nat)} {a : α} {j : Nat} {fmt : List Byte} (hp : p = some (a, j)) (hj : j ≤ s.length)
    (hd : s.drop j = fmt) : ReadsAs s p (a, fmt) := ⟨j, hp, hj, hd⟩

theorem parseFlags_cons (flags : Flags) (c : Byte) (fmt : List Byte) : parseFlags flags (c :: fmt) =
    match flag flags c with
    | some flags => parseFlags flags fmt
    | none => (flags, c :: fmt) := by
  simp only [parseFlags, flag]
  split_ifs <;> rfl

theorem readFlags_reads {fmt : List Byte} : ∀ {i : Nat} (flags : Flags), i ≤ s.length → s.drop i = fmt →
    ReadsAs s (readFlags s flags i) (parseFlags flags fmt) := by
  induction fmt with
  | nil =>
    intro i flags hi hd
    refine .intro ?_ hi hd
    unfold readFlags
    rw [fmtAt_peek hi, hd]
    rfl
  | cons c fmt ih =>
    intro i flags hi hd
    have hlt : i + 1 ≤ s.length := by
      have hlen := congrArg List.length hd
      rw [List.length_drop, List.length_cons] at hlen
      omega
    have hrest : s.drop (i + 1) = fmt := by rw [drop_tail, hd, List.tail_cons]
    have hc : fmtAt s i = some c := by rw [fmtAt_peek hi, hd, peek, List.headD_cons]
    rw [parseFlags_cons]
    unfold readFlags
    rw [hc]
    simp only []
    cases flag flags c with
    | none => exact .intro rfl hi hd
    | some flags => exact ih flags hlt hrest

theorem readAtoi_reads {fmt : List Byte} : ∀ {i : Nat} (n : Int), i ≤ s.length → s.drop i = fmt →
    ReadsAs s (readAtoi s n i) (skip_atoi n fmt) := by
  induction fmt with
  | nil =>
    intro i n hi hd
    refine .intro ?_ hi hd
    unfold readAtoi
    rw [fmtAt_peek hi, hd]
    rfl
  | cons c fmt ih =>
    intro i n hi hd
    have hlt : i + 1 ≤ s.length := by
      have hlen := congrArg List.length hd
      rw [List.length_drop, List.length_cons] at hlen
      omega
    have hrest : s.drop (i + 1) = fmt := by rw [drop_tail, hd, List.tail_cons]
    have hc : fmtAt s i = some c := by rw [fmtAt_peek hi, hd, peek, List.headD_cons]
    unfold readAtoi skip_atoi
    rw [hc]
    simp only []
    cases isdigit c with
    | false => exact .intro rfl hi hd
    | true => exact ih _ hlt hrest

theorem readWidth_reads (hi : i ≤ s.length) : ReadsAs s (readWidth s i) (parseWidth (s.drop i)) := by
  unfold readWidth parseWidth
  rw [fmtAt_peek hi, Option.bind_some]
  by_cases hdigit : isdigit (peek (s.drop i))
  · obtain ⟨j, hj, hle, hd⟩ := readAtoi_reads 0 hi rfl
    rw [if_pos hdigit, if_pos hdigit, hj, Option.map_some]
    exact .intro rfl hle hd
  · rw [if_neg hdigit, if_neg hdigit]
    by_cases hstar : peek (s.drop i) = chr '*'
    · rw [if_pos hstar, if_pos hstar]
      refine .intro rfl (lt_of_peek hi ?_) (drop_tail s i)
      rw [hstar]
      decide
    · rw [if_neg hstar, if_neg hstar]
      exact .intro rfl hi rfl

theorem readLength_reads (hi : i ≤ s.length) : ReadsAs s (readLength s i) (parseLength (s.drop i)) := by
  unfold readLength parseLength
  rw [fmtAt_peek hi, Option.map_some]
  by_cases hlength : is_length (peek (s.drop i))
  · rw [if_pos hlength, if_pos hlength]
    refine .intro rfl (lt_of_peek hi fun e => ?_) (drop_tail s i)
    rw [e] at hlength
    exact absurd hlength (by decide)
  · rw [if_neg hlength, if_neg hlength]
    exact .intro rfl hi rfl

theorem readPrecision_reads (hi : i ≤ s.length) : ReadsAs s (readPrecision s i) (parsePrecision (s.drop i)) := by
  unfold readPrecision parsePrecision
  rw [fmtAt_peek hi, Option.bind_some]
  by_cases hdot : peek (s.drop i) = chr '.'
  · have hi₁ : i + 1 ≤ s.length := lt_of_peek hi (by rw [hdot]; decide)
    rw [if_pos hdot, if_pos hdot, fmtAt_peek hi₁, Option.bind_some]
    simp only [← drop_tail]
    by_cases hdigit : isdigit (peek (s.drop (i + 1)))
    · obtain ⟨j, hj, hle, hd⟩ := readAtoi_reads 0 hi₁ rfl
      rw [if_pos hdigit, if_pos hdigit, hj, Option.map_some]
      exact .intro rfl hle hd
    · rw [if_neg hdigit, if_neg hdigit]
      by_cases hstar : peek (s.drop (i + 1)) = chr '*'
      · rw [if_pos hstar, if_pos hstar]
        exact .intro rfl (lt_of_peek hi₁ (by rw [hstar]; decide)) rfl
      · rw [if_neg hstar, if_neg hstar]
        cases hlength : is_length (peek (s.drop (i + 1))) with
        | false => exact .intro rfl hi₁ rfl
        | true =>
          have hi₂ : i + 2 ≤ s.length := lt_of_peek hi₁ fun e => by
            rw [e] at hlength
            exact absurd hlength (by decide)
          rw [if_pos rfl, fmtAt_peek hi₂, Option.map_some, Bool.true_and]
          by_cases hs : peek (s.drop (i + 2)) = chr 's'
          · rw [if_pos hs, if_pos (by rw [hs]; decide)]
            exact .intro rfl hi₂ rfl
          · rw [if_neg hs, if_neg (by rwa [beq_iff_eq])]
            exact .intro rfl hi₁ rfl
  · rw [if_neg hdot, if_neg hdot]
    exact .intro rfl hi rfl

/-- **No part of a conversion is read past the `'\0'`**, wherever the format ends. -/
theorem readConversion_reads (hi : i ≤ s.length) : ∃ flags width precision length j,
    parseConversion (s.drop i) = (flags, width, precision, length, s.drop j) ∧
      readConversion s i = some ((flags, width, precision, length), j) ∧ i ≤ j ∧ j ≤ s.length := by
  obtain ⟨j₁, e₁, h₁, d₁⟩ := readFlags_reads .none hi rfl
  rcases p₁ : parseFlags .none (s.drop i) with ⟨flags, f₁⟩
  rw [p₁] at e₁ d₁
  obtain rfl : s.drop j₁ = f₁ := d₁
  obtain ⟨j₂, e₂, h₂, d₂⟩ := readWidth_reads h₁
  rcases p₂ : parseWidth (s.drop j₁) with ⟨width, f₂⟩
  rw [p₂] at e₂ d₂
  obtain rfl : s.drop j₂ = f₂ := d₂
  obtain ⟨j₃, e₃, h₃, d₃⟩ := readPrecision_reads h₂
  rcases p₃ : parsePrecision (s.drop j₂) with ⟨precision, f₃⟩
  rw [p₃] at e₃ d₃
  obtain rfl : s.drop j₃ = f₃ := d₃
  obtain ⟨j₄, e₄, h₄, d₄⟩ := readLength_reads h₃
  rcases p₄ : parseLength (s.drop j₃) with ⟨length, f₄⟩
  rw [p₄] at e₄ d₄
  obtain rfl : s.drop j₄ = f₄ := d₄
  have hparse : parseConversion (s.drop i) = (flags, width, precision, length, s.drop j₄) := by
    unfold parseConversion
    simp only [p₁, p₂, p₃, p₄]
  refine ⟨flags, width, precision, length, j₄, hparse, ?_, ?_, h₄⟩
  · unfold readConversion
    simp only [e₁, e₂, e₃, e₄, Option.bind_some, Option.map_some]
  · -- what is left is a part of what there was
    have hsuffix := (parseConversion_suffix (s.drop i)).length_le
    rw [hparse] at hsuffix
    simp only [List.length_drop] at hsuffix
    omega

/-! ## rounds -/

/-- an unknown letter, or none at all -/
def Directive.unknown : Directive → Bool
  | .char _ => false
  | .conversion v =>
    match v.letter with
    | .unknown => true
    | _ => false

theorem letterOf_known {flags flags' : Flags} {c : Byte} {letter : Letter} (h : letterOf flags c = some (flags', letter)) :
    c ≠ 0 ∧ ∀ width precision length, (Directive.conversion ⟨flags', width, precision, length, letter⟩).unknown = false := by
  have hc : c ≠ 0 := by
    rintro rfl
    exact absurd h nofun
  refine ⟨hc, fun width precision length => ?_⟩
  unfold letterOf at h
  split_ifs at h <;> cases h <;> rfl

/-- a round that is the same wherever the loop goes on behind unknown letters -/
structure KnownRound (s : List Byte) (i : Nat) (c : Byte) (d : Directive) (j : Nat) : Prop where
  known : d.unknown = false
  next : i < j ∧ j ≤ s.length
  read : ∀ skip, readRound skip s i c = some (d, j)
  list : nextDirective c (s.drop (i + 1)) = some (d, s.drop j)

/-- a conversion whose letter, at `j`, is unknown or the `'\0'` -/
structure UnknownRound (s : List Byte) (i : Nat) (c : Byte) (v : Conversion) (j : Nat) : Prop where
  percent : c = chr '%'
  unknown : v.letter = .unknown
  next : i < j ∧ j ≤ s.length
  letter : letterOf v.flags (peek (s.drop j)) = none
  parse : parseConversion (s.drop (i + 1)) = (v.flags, v.width, v.precision, v.length, s.drop j)
  read : ∀ skip, readRound skip s i c = some (.conversion v, skip j)
  list : nextDirective c (s.drop (i + 1)) = if j + 2 ≤ s.length then some (.conversion v, s.drop (j + 2)) else none

/-- what follows the letter is the same for the loop over the string and for the list -/
theorem readRound_conversion {flags : Flags} {width precision : Amount} {length : Option Byte} {j : Nat}
    (hread : readConversion s (i + 1) = some ((flags, width, precision, length), j)) (hj : j ≤ s.length) (skip : Nat → Nat) :
    readRound skip s i (chr '%') = some (match letterOf flags (peek (s.drop j)) with
      | some (flags, letter) => (.conversion ⟨flags, width, precision, length, letter⟩, j + 1)
      | none => (.conversion ⟨flags, width, precision, length, .unknown⟩, skip j)) := by
  unfold readRound
  rw [if_pos rfl, hread, Option.bind_some]
  show Option.map _ (fmtAt s j) = _
  rw [fmtAt_peek hj, Option.map_some]

theorem nextDirective_conversion {fmt rest : List Byte} {flags : Flags} {width precision : Amount} {length : Option Byte} :
    parseConversion fmt = (flags, width, precision, length, rest) →
    nextDirective (chr '%') fmt = match letterOf flags (peek rest) with
      | some (flags, letter) => some (.conversion ⟨flags, width, precision, length, letter⟩, rest.tail)
      | none =>
        match rest with
        | _ :: _ :: fmt => some (.conversion ⟨flags, width, precision, length, .unknown⟩, fmt)
        | _ => none := by
  intro hparse
  unfold nextDirective
  rw [if_pos rfl]
  exact hparse ▸ rfl

theorem readRound_cases (hi : i ≤ s.length) {c : Byte} (hc : peek (s.drop i) = c) (hne : c ≠ 0) :
    (∃ d j, KnownRound s i c d j) ∨ ∃ v j, UnknownRound s i c v j := by
  have hi₁ : i + 1 ≤ s.length := lt_of_peek hi (hc ▸ hne)
  by_cases hpercent : c = chr '%'
  · obtain ⟨flags, width, precision, length, j, hparse, hread, hij, hj⟩ := readConversion_reads hi₁
    have hround := readRound_conversion hread hj
    have hlist := nextDirective_conversion hparse
    rw [hpercent]
    cases hletter : letterOf flags (peek (s.drop j)) with
    | some r =>
      obtain ⟨flags', letter⟩ := r
      obtain ⟨hne', hknown⟩ := letterOf_known hletter
      refine Or.inl ⟨_, j + 1, hknown width precision length, ⟨by omega, lt_of_peek hj hne'⟩, fun skip => ?_, ?_⟩
      · rw [hround, hletter]
      · rw [hlist, hletter, drop_tail]
    | none =>
      refine Or.inr ⟨⟨flags, width, precision, length, .unknown⟩, j, rfl, rfl, ⟨by omega, hj⟩, hletter, hparse,
        fun skip => ?_, ?_⟩
      · rw [hround, hletter]
      · rw [hlist, hletter]
        by_cases h2 : j + 2 ≤ s.length
        · rw [if_pos h2, List.drop_eq_getElem_cons (show j < s.length by omega),
            List.drop_eq_getElem_cons (show j + 1 < s.length by omega)]
        · have hlen : (s.drop j).length ≤ 1 := by
            rw [List.length_drop]
            omega
          rw [if_neg h2]
          generalize s.drop j = rest at hlen ⊢
          rcases rest with _ | ⟨c, _ | ⟨c', fmt⟩⟩
          · rfl
          · rfl
          · exact absurd (Nat.le_of_succ_le_succ hlen) (Nat.not_succ_le_zero _)
  · refine Or.inl ⟨.char c, i + 1, rfl, ⟨Nat.lt_succ_self i, hi₁⟩, fun skip => ?_, ?_⟩
    · unfold readRound
      rw [if_neg hpercent]
    · unfold nextDirective
      rw [if_neg hpercent]

/-! ## the loop -/

variable {skip : Nat → Nat} {front : Nat → Byte} {args : List Arg} {o : Out}

theorem formatLoop_end (h : fmtAt s i = some 0) (rounds : Nat) :
    formatLoop skip front s (rounds + 1) i args o = .ok (o, []) := by
  unfold formatLoop
  rw [h]
  exact if_pos rfl

theorem formatLoop_behind (h : s.length < i) (rounds : Nat) {r : Out × List Round} :
    formatLoop skip front s rounds i args o ≠ .ok r := by
  cases rounds with
  | zero => exact nofun
  | succ rounds =>
    unfold formatLoop
    rw [fmtAt_behind h]
    exact nofun

theorem formatLoop_round {c : Byte} {d : Directive} {j : Nat} {p : Piece} {args' : List Arg} (hc : fmtAt s i = some c)
    (hne : c ≠ 0) (hr : readRound skip s i c = some (d, j)) (hf : d.fetch front args = some (p, args')) (rounds : Nat) :
    formatLoop skip front s (rounds + 1) i args o = match p.print o with
      | .error o => .ok (o, [⟨i, d, j⟩])
      | .ok o => (formatLoop skip front s rounds j args' o).map fun (o, rs) => (o, ⟨i, d, j⟩ :: rs) := by
  rw [formatLoop, hc]
  simp only [hr, hf]
  rw [if_neg hne]

theorem formatLoop_args {c : Byte} {d : Directive} {j : Nat} (hc : fmtAt s i = some c) (hne : c ≠ 0)
    (hr : readRound skip s i c = some (d, j)) (hf : d.fetch front args = none) (rounds : Nat) :
    formatLoop skip front s (rounds + 1) i args o = .error .args := by
  rw [formatLoop, hc]
  simp only [hr, hf]
  rw [if_neg hne]

theorem map_eq_ok {ε β : Type} {e : Except ε α} {f : α → β} {b : β} : e.map f = .ok b ↔ ∃ a, e = .ok a ∧ f a = b := by
  cases e with
  | error e => exact iff_of_false nofun fun ⟨_, h, _⟩ => nomatch h
  | ok a =>
    constructor
    · intro h
      exact ⟨a, rfl, Except.ok.inj h⟩
    · rintro ⟨_, h, rfl⟩
      cases h
      rfl

theorem formatLoop_head {rounds : Nat} {c : Byte} {d : Directive} {j : Nat} {o' : Out} {rs : List Round}
    (hc : fmtAt s i = some c) (hne : c ≠ 0) (hr : readRound skip s i c = some (d, j))
    (h : formatLoop skip front s rounds i args o = .ok (o', rs)) : ∃ rest, rs = ⟨i, d, j⟩ :: rest ∧
      (rest ≠ [] → ∃ rounds' args' o₁, formatLoop skip front s rounds' j args' o₁ = .ok (o', rest)) := by
  cases rounds with
  | zero => cases h
  | succ rounds =>
    cases hf : d.fetch front args with
    | none =>
      rw [formatLoop_args hc hne hr hf] at h
      cases h
    | some pa =>
      rw [formatLoop_round hc hne hr (show _ = some (pa.1, pa.2) from hf)] at h
      cases hp : pa.1.print o with
      | error o' =>
        rw [hp] at h
        cases h
        exact ⟨[], rfl, fun h => absurd rfl h⟩
      | ok o' =>
        rw [hp] at h
        obtain ⟨r, hloop, e⟩ := map_eq_ok.mp h
        cases e
        exact ⟨r.2, rfl, fun _ => ⟨rounds, pa.2, o', hloop⟩⟩

/-- the rounds go forward -/
theorem formatLoop_pos (hskip : ∀ j, j ≤ s.length → j ≤ skip j) {rs : List Round} : ∀ {rounds i : Nat} {args : List Arg}
    {o o' : Out}, formatLoop skip front s rounds i args o = .ok (o', rs) → ∀ x ∈ rs, i ≤ x.pos := by
  induction rs with
  | nil => simp
  | cons x rs ih =>
    intro rounds i args o o' h
    have hi : i ≤ s.length := Nat.le_of_not_lt fun hlt => formatLoop_behind hlt rounds h
    have hne : peek (s.drop i) ≠ 0 := by
      intro e
      have hc : fmtAt s i = some 0 := by rw [fmtAt_peek hi, e]
      cases rounds with
      | zero => cases h
      | succ rounds =>
        rw [formatLoop_end hc] at h
        cases h
    obtain ⟨d, j, hij, hr⟩ : ∃ d j, i ≤ j ∧ readRound skip s i (peek (s.drop i)) = some (d, j) := by
      rcases readRound_cases hi rfl hne with ⟨d, j, hk⟩ | ⟨v, j, hu⟩
      · exact ⟨d, j, Nat.le_of_lt hk.next.1, hk.read skip⟩
      · exact ⟨.conversion v, skip j, Nat.le_trans (Nat.le_of_lt hu.next.1) (hskip j hu.next.2), hu.read skip⟩
    obtain ⟨rest, e, hrest⟩ := formatLoop_head (fmtAt_peek hi) hne hr h
    cases e
    intro y hy
    rcases List.mem_cons.mp hy with rfl | hy
    · exact Nat.le_refl i
    · obtain ⟨rounds', args', o₁, hloop⟩ := hrest (List.ne_nil_of_mem hy)
      exact Nat.le_trans hij (ih hloop y hy)

/-- **The loop ends**, in at most as many rounds as the format has bytes, the `'\0'` among them. -/
theorem formatLoop_rounds (hskip : ∀ j, j ≤ s.length → j ≤ skip j) {rounds : Nat} : ∀ {i : Nat} {args : List Arg} {o : Out},
    0 < rounds → s.length < i + rounds → formatLoop skip front s rounds i args o ≠ .error .rounds := by
  induction rounds with
  | zero => exact fun h => absurd h (Nat.lt_irrefl 0)
  | succ rounds ih =>
    intro i args o _ hlen
    rcases Nat.lt_or_ge s.length i with hlt | hi
    · unfold formatLoop
      rw [fmtAt_behind hlt]
      exact nofun
    · by_cases hne : peek (s.drop i) = 0
      · rw [formatLoop_end (by rw [fmtAt_peek hi, hne])]
        exact nofun
      · obtain ⟨d, j, hij, hr⟩ : ∃ d j, i < j ∧ readRound skip s i (peek (s.drop i)) = some (d, j) := by
          rcases readRound_cases hi rfl hne with ⟨d, j, hk⟩ | ⟨v, j, hu⟩
          · exact ⟨d, j, hk.next.1, hk.read skip⟩
          · exact ⟨.conversion v, skip j, Nat.lt_of_lt_of_le hu.next.1 (hskip j hu.next.2), hu.read skip⟩
        cases hf : d.fetch front args with
        | none =>
          rw [formatLoop_args (fmtAt_peek hi) hne hr hf]
          exact nofun
        | some pa =>
          rw [formatLoop_round (fmtAt_peek hi) hne hr (show _ = some (pa.1, pa.2) from hf)]
          cases pa.1.print o with
          | error o' => exact nofun
          | ok o' =>
            have hle : i + 1 ≤ s.length := lt_of_peek hi hne
            intro h
            cases hloop : formatLoop skip front s rounds j pa.2 o' with
            | ok r =>
              simp only [hloop] at h
              cases h
            | error e =>
              simp only [hloop] at h
              cases h
              exact ih (by omega) (by omega) hloop

theorem notMem_drop (hs : 0 ∉ s) (hi : i < s.length) : peek (s.drop i) ≠ 0 := by
  rw [List.drop_eq_getElem_cons hi]
  exact fun e => hs (e ▸ List.getElem_mem hi)

/-- **The loop prints the directives** of the format from `i` on. -/
theorem formatLoop_printDirectives (hs : 0 ∉ s) (rounds : Nat) : ∀ {i steps : Nat} {ds : List Directive} {args : List Arg}
    {o o' : Out}, i ≤ s.length → s.length < i + rounds → directives steps (s.drop i) = some ds →
      printDirectives front ds args o = some o' → ∃ rs, formatLoop (· + 2) front s rounds i args o = .ok (o', rs) := by
  induction rounds with
  | zero =>
    intro i steps ds args o o' hi hlen hds hprint
    omega
  | succ rounds ih =>
    intro i steps ds args o o' hi hlen hds hprint
    rcases Nat.lt_or_eq_of_le hi with hlt | rfl
    · have hne := notMem_drop hs hlt
      have hcons : s.drop i = peek (s.drop i) :: s.drop (i + 1) := by
        rw [List.drop_eq_getElem_cons hlt]
        rfl
      cases steps with
      | zero =>
        rw [hcons] at hds
        cases hds
      | succ steps =>
        rw [hcons] at hds
        obtain ⟨⟨d, fmt⟩, hnext, hds⟩ := Option.bind_eq_some_iff.mp hds
        obtain ⟨ds', hds', rfl⟩ := Option.map_eq_some_iff.mp hds
        -- a directive that is there ends inside the format
        obtain ⟨j, hij, hj, rfl, hr⟩ : ∃ j, i < j ∧ j ≤ s.length ∧ s.drop j = fmt ∧
            readRound (· + 2) s i (peek (s.drop i)) = some (d, j) := by
          rcases readRound_cases hi rfl hne with ⟨d', j, hk⟩ | ⟨v, j, hu⟩
          · rw [hk.list] at hnext
            cases hnext
            exact ⟨j, hk.next.1, hk.next.2, rfl, hk.read _⟩
          · rw [hu.list] at hnext
            split at hnext
            · rename_i hj
              cases hnext
              exact ⟨j + 2, by have := hu.next; omega, hj, rfl, hu.read _⟩
            · cases hnext
        obtain ⟨⟨p, args'⟩, hf, hprint⟩ := Option.bind_eq_some_iff.mp hprint
        rw [formatLoop_round (fmtAt_peek hi) hne hr hf]
        cases hp : p.print o with
        | error o₁ =>
          simp only [hp] at hprint
          cases hprint
          exact ⟨_, rfl⟩
        | ok o₁ =>
          simp only [hp] at hprint
          obtain ⟨rs, hloop⟩ := ih hj (by omega) hds' hprint
          simp only [hloop]
          exact ⟨_, rfl⟩
    · have hend : fmtAt s s.length = some 0 := by
        rw [fmtAt_peek (Nat.le_refl _), List.drop_length]
        rfl
      rw [List.drop_length] at hds
      have hds' : ds = [] := by cases steps <;> exact (Option.some.inj hds).symm
      rw [hds'] at hprint
      cases hprint
      exact ⟨[], formatLoop_end hend rounds⟩

end

end Clubcos
