import Clubcos.Print.Model

/-!
# Formats and their arguments

* `directives_enough`   a format is read in as many steps as it has characters;
* `digitLoop_enough`    a number has no more digits than bits, so that `tmp` holds them;
* `Matches`             the arguments are those that the conversions take;
* `pieces_some`         **then every step has its piece**, whatever the buffer.
-/

set_option linter.unusedVariables false

namespace Clubcos
open Word

/-! ## the format is read to its end -/

theorem parseFlags_suffix (fmt : List Byte) : ∀ flags, (parseFlags flags fmt).2 <:+ fmt := by
  induction fmt with
  | nil => exact fun flags => List.suffix_refl []
  | cons c fmt ih =>
    intro flags
    have hrest : ∀ flags, (parseFlags flags fmt).2 <:+ c :: fmt := fun flags =>
      (ih flags).trans (List.suffix_cons c fmt)
    unfold parseFlags
    repeat' split
    all_goals first | exact hrest _ | exact List.suffix_refl _

theorem skip_atoi_suffix (s : List Byte) : ∀ i, (skip_atoi i s).2 <:+ s := by
  induction s with
  | nil => exact fun i => List.suffix_refl []
  | cons c s ih =>
    intro i
    unfold skip_atoi
    split
    · exact (ih _).trans (List.suffix_cons c s)
    · exact List.suffix_refl _

theorem parseWidth_suffix (fmt : List Byte) : (parseWidth fmt).2 <:+ fmt := by
  unfold parseWidth
  split
  · exact skip_atoi_suffix fmt 0
  · split
    · exact List.tail_suffix fmt
    · exact List.suffix_refl fmt

theorem parsePrecision_suffix (fmt : List Byte) : (parsePrecision fmt).2 <:+ fmt := by
  have htail := List.tail_suffix fmt
  unfold parsePrecision
  split
  · simp only []
    split
    · exact (skip_atoi_suffix fmt.tail 0).trans htail
    · split
      · exact (List.tail_suffix fmt.tail).trans htail
      · split
        · exact (List.tail_suffix fmt.tail).trans htail
        · exact htail
  · exact List.suffix_refl fmt

theorem parseLength_suffix (fmt : List Byte) : (parseLength fmt).2 <:+ fmt := by
  unfold parseLength
  split
  · exact List.tail_suffix fmt
  · exact List.suffix_refl fmt

theorem parseConversion_suffix (fmt : List Byte) : (parseConversion fmt).2.2.2.2 <:+ fmt :=
  (parseLength_suffix _).trans
    ((parsePrecision_suffix _).trans ((parseWidth_suffix _).trans (parseFlags_suffix fmt .none)))

theorem nextDirective_suffix {c : Byte} {fmt rest : List Byte} {d : Directive}
    (h : nextDirective c fmt = some (d, rest)) : rest <:+ fmt := by
  have hsuffix := parseConversion_suffix fmt
  unfold nextDirective at h
  split at h
  · rcases hp : parseConversion fmt with ⟨flags, width, precision, length, behind⟩
    simp only [hp] at h hsuffix
    split at h
    · cases h
      exact (List.tail_suffix behind).trans hsuffix
    · split at h
      · rename_i c₁ c₂ rest' _
        cases h
        exact ((List.suffix_cons c₂ rest).trans (List.suffix_cons c₁ _)).trans hsuffix
      · cases h
  · cases h
    exact List.suffix_refl fmt

/-- each round reads a character at least -/
theorem directives_enough {steps : Nat} : ∀ {fmt : List Byte} {ds : List Directive} {steps' : Nat},
    directives steps fmt = some ds → fmt.length ≤ steps' → directives steps' fmt = some ds := by
  induction steps with
  | zero =>
    intro fmt ds steps' h hle
    cases fmt with
    | nil =>
      cases steps' <;> exact h
    | cons c fmt => cases h
  | succ steps ih =>
    intro fmt ds steps' h hle
    cases fmt with
    | nil =>
      cases steps' <;> exact h
    | cons c fmt =>
      obtain ⟨steps', rfl⟩ := Nat.exists_eq_succ_of_ne_zero (Nat.ne_of_gt (Nat.lt_of_lt_of_le (Nat.succ_pos _) hle))
      obtain ⟨⟨d, rest⟩, hnext, h⟩ := Option.bind_eq_some_iff.mp h
      obtain ⟨ds', h', rfl⟩ := Option.map_eq_some_iff.mp h
      have hrest : rest.length ≤ steps' :=
        Nat.le_trans (nextDirective_suffix hnext).length_le (Nat.le_of_succ_le_succ hle)
      rw [directives, hnext, Option.bind_some]
      show (directives steps' rest).map _ = _
      rw [ih h' hrest, Option.map_some]

/-! ## digits -/

theorem tdiv_natAbs_lt {base num : Int} (hb : 2 ≤ base) {r : Nat} (h : num.natAbs < 2^(r + 1)) :
    (num.tdiv base).natAbs < 2^r := by
  rw [Int.natAbs_tdiv]
  have hbase : 2 ≤ base.natAbs := by omega
  refine Nat.div_lt_of_lt_mul (Nat.lt_of_lt_of_le h ?_)
  rw [Nat.pow_succ, Nat.mul_comm]
  exact Nat.mul_le_mul_right _ hbase

/-- a number of `r` bits has at most `r` digits -/
theorem digitLoop_enough {dig : Int → Byte} {base : Int} (hb : 2 ≤ base) {r : Nat} :
    ∀ {rounds : Nat} {num : Int}, num.natAbs < 2^r → r ≤ rounds →
      digitLoop dig base (rounds + 1) num = digitLoop dig base (r + 1) num := by
  induction r with
  | zero =>
    intro rounds num h hr
    have hnum : num = 0 := by
      rw [Nat.pow_zero] at h
      omega
    rw [hnum]
    unfold digitLoop
    rw [Int.zero_tdiv, if_pos rfl, if_pos rfl]
  | succ r ih =>
    intro rounds num h hr
    obtain ⟨rounds, rfl⟩ := Nat.exists_eq_succ_of_ne_zero (Nat.ne_of_gt (Nat.lt_of_lt_of_le (Nat.succ_pos r) hr))
    show _ :: (if num.tdiv base = 0 then [] else digitLoop dig base (rounds + 1) (num.tdiv base)) =
      _ :: if num.tdiv base = 0 then [] else digitLoop dig base (r + 1) (num.tdiv base)
    rw [ih (tdiv_natAbs_lt hb h) (Nat.le_of_succ_le_succ hr)]

/-! ## the arguments -/

inductive ArgType where
  | word
  | str
  | ptr
deriving DecidableEq

def Arg.type : Arg → ArgType
  | .word _ => .word
  | .str _ => .str
  | .ptr => .ptr

def Amount.takes : Amount → List ArgType
  | .given _ => []
  | .star => [.word]

def Letter.takes : Letter → List ArgType
  | .c | .p | .d | .u | .o | .X | .x => [.word]
  | .s => [.str]
  | .n => [.ptr]
  | .percent | .unknown => []

def Directive.takes : Directive → List ArgType
  | .char _ => []
  | .conversion v => v.width.takes ++ (v.precision.takes ++ v.letter.takes)

/-- the format can be read, and the arguments begin with those of its conversions -/
def Matches (fmt : List Byte) (args : List Arg) : Prop :=
  ∃ steps ds, directives steps (fmt.takeWhile (· ≠ 0)) = some ds ∧ ds.flatMap Directive.takes <+: args.map Arg.type

section
variable {args : List Arg} {rest : List ArgType}

theorem vaWord_some (h : [ArgType.word] ++ rest <+: args.map Arg.type) :
    ∃ num args', vaWord args = some (num, args') ∧ rest <+: args'.map Arg.type := by
  match args, h with
  | .word num :: args, h => exact ⟨num, args, rfl, (List.prefix_cons_inj _).mp h⟩
  | .str s :: args, h => exact absurd (List.cons_prefix_cons.mp h).1 nofun
  | .ptr :: args, h => exact absurd (List.cons_prefix_cons.mp h).1 nofun

theorem vaStr_some (h : [ArgType.str] ++ rest <+: args.map Arg.type) :
    ∃ str args', vaStr args = some (str, args') ∧ rest <+: args'.map Arg.type := by
  match args, h with
  | .word num :: args, h => exact absurd (List.cons_prefix_cons.mp h).1 nofun
  | .str s :: args, h => exact ⟨s, args, rfl, (List.prefix_cons_inj _).mp h⟩
  | .ptr :: args, h => exact absurd (List.cons_prefix_cons.mp h).1 nofun

theorem vaPtr_some (h : [ArgType.ptr] ++ rest <+: args.map Arg.type) :
    ∃ args', vaPtr args = some args' ∧ rest <+: args'.map Arg.type := by
  match args, h with
  | .word num :: args, h => exact absurd (List.cons_prefix_cons.mp h).1 nofun
  | .str s :: args, h => exact absurd (List.cons_prefix_cons.mp h).1 nofun
  | .ptr :: args, h => exact ⟨args, rfl, (List.prefix_cons_inj _).mp h⟩

theorem fetchWidth_some {v : Conversion} (h : v.width.takes ++ rest <+: args.map Arg.type) :
    ∃ flags width args', v.fetchWidth args = some (flags, width, args') ∧ rest <+: args'.map Arg.type := by
  unfold Conversion.fetchWidth
  cases hw : v.width with
  | given n =>
    rw [hw] at h
    exact ⟨v.flags, n, args, rfl, h⟩
  | star =>
    rw [hw] at h
    obtain ⟨num, args', e, h'⟩ := vaWord_some h
    simp only [e, Option.map_some]
    split <;> exact ⟨_, _, args', rfl, h'⟩

theorem fetchPrecision_some {v : Conversion} (h : v.precision.takes ++ rest <+: args.map Arg.type) :
    ∃ precision args', v.fetchPrecision args = some (precision, args') ∧ rest <+: args'.map Arg.type := by
  unfold Conversion.fetchPrecision
  cases hp : v.precision with
  | given n =>
    rw [hp] at h
    exact ⟨n, args, rfl, h⟩
  | star =>
    rw [hp] at h
    obtain ⟨num, args', e, h'⟩ := vaWord_some h
    exact ⟨max num.toInt 0, args', by rw [e, Option.map_some], h'⟩

theorem letterFetch_some (front : Nat → Byte) (flags : Flags) (width precision : Int) {letter : Letter}
    (h : letter.takes ++ rest <+: args.map Arg.type) :
    ∃ p args', letter.fetch front flags width precision args = some (p, args') ∧ rest <+: args'.map Arg.type := by
  cases letter with
  | percent | unknown => exact ⟨_, args, rfl, h⟩
  | s =>
    obtain ⟨str, args', e, h'⟩ := vaStr_some h
    exact ⟨_, args', by rw [Letter.fetch, e, Option.map_some], h'⟩
  | n =>
    obtain ⟨args', e, h'⟩ := vaPtr_some h
    exact ⟨_, args', by rw [Letter.fetch, e, Option.map_some], h'⟩
  | c | p | d | u | o | X | x =>
    obtain ⟨num, args', e, h'⟩ := vaWord_some h
    exact ⟨_, args', by rw [Letter.fetch, e, Option.map_some], h'⟩

theorem fetch_some (front : Nat → Byte) {d : Directive} (h : d.takes ++ rest <+: args.map Arg.type) :
    ∃ p args', d.fetch front args = some (p, args') ∧ rest <+: args'.map Arg.type := by
  cases d with
  | char c => exact ⟨.text [c], args, rfl, h⟩
  | conversion v =>
    unfold Directive.takes at h
    simp only [List.append_assoc] at h
    obtain ⟨flags, width, args₁, e₁, h⟩ := fetchWidth_some h
    obtain ⟨precision, args₂, e₂, h⟩ := fetchPrecision_some h
    obtain ⟨p, args', e₃, h⟩ := letterFetch_some front flags width precision h
    refine ⟨p, args', ?_, h⟩
    show (v.fetchWidth args).bind _ = _
    rw [e₁, Option.bind_some]
    show (v.fetchPrecision args₁).bind _ = _
    rw [e₂, Option.bind_some]
    exact e₃

end

/-! ## the pieces of a call -/

def piecesOf (front : Nat → Byte) : List Directive → List Arg → Option (List Piece)
  | [], _ => some []
  | d :: ds, args => (d.fetch front args).bind fun (p, args) => (piecesOf front ds args).map (p :: ·)

/-- the pieces of all steps, as if the buffer had no end -/
def pieces (front : Nat → Byte) (fmt : List Byte) (args : List Arg) : Option (List Piece) :=
  (parseFormat fmt).bind fun ds => piecesOf front ds args

theorem piecesOf_some (front : Nat → Byte) {ds : List Directive} : ∀ {args : List Arg},
    ds.flatMap Directive.takes <+: args.map Arg.type → ∃ ps, piecesOf front ds args = some ps := by
  induction ds with
  | nil => exact fun _ => ⟨[], rfl⟩
  | cons d ds ih =>
    intro args h
    rw [List.flatMap_cons] at h
    obtain ⟨p, args', e, h⟩ := fetch_some front h
    obtain ⟨ps, eps⟩ := ih h
    refine ⟨p :: ps, ?_⟩
    rw [piecesOf, e, Option.bind_some]
    show (piecesOf front ds args').map _ = _
    rw [eps, Option.map_some]

/-- **The steps of a format that matches its arguments** all have their pieces. -/
theorem pieces_some (front : Nat → Byte) {fmt : List Byte} {args : List Arg} (h : Matches fmt args) :
    ∃ ps, pieces front fmt args = some ps := by
  obtain ⟨steps, ds, hds, hargs⟩ := h
  obtain ⟨ps, hps⟩ := piecesOf_some front hargs
  have hparse : parseFormat fmt = some ds := directives_enough hds (Nat.le_refl _)
  exact ⟨ps, by rw [pieces, hparse, Option.bind_some, hps]⟩

end Clubcos
