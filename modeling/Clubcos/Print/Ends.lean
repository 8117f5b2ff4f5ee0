import Mathlib.Data.List.TakeWhile
import Clubcos.Print.Reads

/-!
# The end of a format

Behind an unknown letter the loop goes on two bytes later: the one behind the letter is not looked at.  If that is the `'\0'`, or
the letter itself is, the loop does not find the end of the format.

* `vsnprintfRounds`       a call, with the rounds that it makes;
* `promised`              where the loop is to go on: behind the letter, and not behind the `'\0'`;
* `shown`                 the characters and conversions that are come to, each at its place;
* `LoneOnly`              no letter is unknown, unless a `'%'` that ends the format is all that is behind it;
* `vsnprintf_ends_iff`    **a call ends, with the text behind unknown letters**, exactly then.
-/

set_option linter.unusedVariables false

namespace Clubcos
open Word

/-- a call for the format `s` -/
def vsnprintfRounds (skip : Nat → Nat) (front buf : Nat → Byte) (size : BitVec 32) (s : List Byte) (args : List Arg) :
    Except Fault (Printed × List Round) :=
  if size = 0 then .ok (⟨buf, [], [], 0⟩, [])
  else if size = 1 then .ok (⟨Function.update buf 0 0, [0], [], 0⟩, [])
  else (formatLoop skip front s (s.length + 1) 0 args (.start buf size)).map fun (o, rs) => (o.finish, rs)

/-- `fmt++` in the default branch, and `fmt++` in the loop -/
def skipped (j : Nat) : Nat := j + 2

/-- behind the letter at `j`; a `'\0'` is the end -/
def promised (s : List Byte) (j : Nat) : Nat := min (j + 1) s.length

/-- the rounds that print, where they begin and what they print -/
def shown (rs : List Round) : List (Nat × Directive) :=
  (rs.filter fun r => ¬ r.directive.unknown).map fun r => (r.pos, r.directive)

def LoneOnly (s : List Byte) (rs : List Round) : Prop :=
  ∀ x ∈ rs.find? fun r => r.directive.unknown, s.drop x.next = [chr '%']

theorem notMem_takeWhile (fmt : List Byte) : (0 : Byte) ∉ fmt.takeWhile (· ≠ 0) := fun hm => by
  have := List.mem_takeWhile_imp hm
  simp at this

theorem vsnprintf_rounds {front buf : Nat → Byte} {size : BitVec 32} {fmt : List Byte} {args : List Arg} {r : Printed}
    (h : vsnprintf front buf size fmt args = some r) :
    ∃ rs, vsnprintfRounds skipped front buf size (fmt.takeWhile (· ≠ 0)) args = .ok (r, rs) := by
  unfold vsnprintf at h
  unfold vsnprintfRounds
  by_cases h0 : size = 0
  · rw [if_pos h0] at h ⊢
    cases h
    exact ⟨[], rfl⟩
  · rw [if_neg h0] at h ⊢
    by_cases h1 : size = 1
    · rw [if_pos h1] at h ⊢
      cases h
      exact ⟨[], rfl⟩
    · rw [if_neg h1] at h ⊢
      obtain ⟨ds, hds, h⟩ := Option.bind_eq_some_iff.mp h
      obtain ⟨o, hprint, rfl⟩ := Option.map_eq_some_iff.mp h
      obtain ⟨rs, hloop⟩ := formatLoop_printDirectives (notMem_takeWhile fmt)
        ((fmt.takeWhile (· ≠ 0)).length + 1) (Nat.zero_le _) (by omega) hds hprint
      exact ⟨rs, by rw [show skipped = (· + 2) from rfl, hloop]; rfl⟩

/-! ## unknown letters -/

theorem mem_shown {rs : List Round} {i : Nat} {d : Directive} (h : (i, d) ∈ shown rs) :
    d.unknown = false ∧ ∃ x ∈ rs, x.pos = i := by
  obtain ⟨x, hx, e⟩ := List.mem_map.mp h
  cases e
  obtain ⟨hx, hknown⟩ := List.mem_filter.mp hx
  exact ⟨by simpa using hknown, x, hx, rfl⟩

theorem shown_cons {x : Round} (hx : x.directive.unknown = false) (rs : List Round) :
    shown (x :: rs) = (x.pos, x.directive) :: shown rs := by
  unfold shown
  rw [List.filter_cons_of_pos (by simp [hx]), List.map_cons]

theorem shown_unknown {x : Round} (hx : x.directive.unknown = true) (rs : List Round) : shown (x :: rs) = shown rs := by
  unfold shown
  rw [List.filter_cons_of_neg (by simp [hx])]

theorem loneOnly_nil (s : List Byte) : LoneOnly s [] := by
  unfold LoneOnly
  simp

theorem loneOnly_cons {s : List Byte} {x : Round} (hx : x.directive.unknown = false) (rs : List Round) :
    LoneOnly s (x :: rs) ↔ LoneOnly s rs := by
  unfold LoneOnly
  rw [List.find?_cons_of_neg (by simp [hx])]

theorem loneOnly_unknown {s : List Byte} {x : Round} (hx : x.directive.unknown = true) (rs : List Round) :
    LoneOnly s (x :: rs) ↔ s.drop x.next = [chr '%'] := by
  unfold LoneOnly
  rw [List.find?_cons_of_pos (by simp [hx])]
  simp

section
variable {front : Nat → Byte} {s : List Byte}

theorem conversion_unknown {v : Conversion} (h : v.letter = .unknown) : (Directive.conversion v).unknown = true := by
  unfold Directive.unknown
  simp only [h]

/-- an unknown conversion takes the arguments of its stars and prints nothing -/
theorem unknown_fetch {v : Conversion} (h : v.letter = .unknown) {args args' : List Arg} {p : Piece}
    (hf : (Directive.conversion v).fetch front args = some (p, args')) : p = .text [] := by
  obtain ⟨⟨flags, width, args₁⟩, _, hf⟩ := Option.bind_eq_some_iff.mp hf
  obtain ⟨⟨precision, args₂⟩, _, hf⟩ := Option.bind_eq_some_iff.mp hf
  rw [h] at hf
  cases hf
  rfl

theorem formatLoop_unknown {skip : Nat → Nat} {i : Nat} {c : Byte} {v : Conversion} {j : Nat} (hu : UnknownRound s i c v j)
    (hc : fmtAt s i = some c) (hne : c ≠ 0) {args args' : List Arg} {p : Piece}
    (hf : (Directive.conversion v).fetch front args = some (p, args')) (o : Out) (rounds : Nat) :
    formatLoop skip front s (rounds + 1) i args o =
      (formatLoop skip front s rounds (skip j) args' o).map fun (o, rs) => (o, ⟨i, .conversion v, skip j⟩ :: rs) := by
  rw [formatLoop_round hc hne (hu.read skip) hf, unknown_fetch hu.unknown hf]
  rfl

/-- a `'%'` is not the letter of an unknown conversion -/
theorem UnknownRound.not_percent {i : Nat} {c : Byte} {v : Conversion} {j : Nat} (hu : UnknownRound s i c v j) :
    peek (s.drop (i + 1)) ≠ chr '%' := by
  intro h
  obtain ⟨c', fmt, hcons⟩ : ∃ c' fmt, s.drop (i + 1) = c' :: fmt := by
    cases hd : s.drop (i + 1) with
    | nil =>
      rw [hd] at h
      exact absurd h (by decide)
    | cons c' fmt => exact ⟨c', fmt, rfl⟩
  rw [hcons] at h
  obtain rfl : c' = chr '%' := h
  have hself : parseConversion (chr '%' :: fmt) = (.none, .given (-1), .given (-1), none, chr '%' :: fmt) := rfl
  have hparse := hu.parse
  rw [hcons, hself] at hparse
  have hletter := hu.letter
  rw [← (Prod.mk.inj (Prod.mk.inj (Prod.mk.inj (Prod.mk.inj hparse).2).2).2).2] at hletter
  exact absurd hletter nofun

/-- a `'%'` at the end of the format is an unfinished conversion -/
theorem lone_unknown {i : Nat} (hi : i + 1 = s.length) (hc : peek (s.drop i) = chr '%') :
    ∃ v, UnknownRound s i (chr '%') v s.length := by
  rcases readRound_cases (by omega) hc (by decide) with ⟨d, j, hk⟩ | ⟨v, j, hu⟩
  · have hlist := hk.list
    rw [hi, List.drop_length] at hlist
    exact absurd hlist nofun
  · obtain rfl : j = s.length := by
      have := hu.next
      omega
    exact ⟨v, hu⟩

end

/-! ## both loops -/

theorem skipped_le (j : Nat) : j ≤ skipped j := Nat.le_add_right j 2

theorem promised_le {s : List Byte} {j : Nat} (h : j ≤ s.length) : j ≤ promised s j := by
  unfold promised
  omega

section
variable {front : Nat → Byte} {s : List Byte} (hs : 0 ∉ s)
include hs

/-- **Behind an unknown letter** the loop goes on as is promised only if a `'%'` is left. -/
theorem unknown_ends {i : Nat} {c : Byte} {v : Conversion} {j : Nat} (hu : UnknownRound s i c v j) {rounds : Nat}
    (hrounds : s.length < i + 1 + rounds) {args : List Arg} {o o' : Out} {rs : List Round}
    (hp : formatLoop (promised s) front s rounds (promised s j) args o = .ok (o', rs)) :
    (∀ o₁ rs', formatLoop skipped front s rounds (skipped j) args o = .ok (o₁, rs') → shown rs' = shown rs →
      s.drop (promised s j) = [chr '%']) ∧
    (s.drop (promised s j) = [chr '%'] →
      ∃ rs', formatLoop skipped front s rounds (skipped j) args o = .ok (o', rs') ∧ shown rs' = shown rs) := by
  have hij := hu.next
  constructor
  · intro o₁ rs' hcode hshown
    have hj : j + 2 ≤ s.length := Nat.le_of_not_lt fun hlt => formatLoop_behind hlt rounds hcode
    have hnext : promised s j = j + 1 := Nat.min_eq_left (by omega)
    rw [hnext] at hp ⊢
    have hne := notMem_drop hs (show j + 1 < s.length by omega)
    have hpos := formatLoop_pos (fun j _ => skipped_le j) hcode
    rcases readRound_cases (show j + 1 ≤ s.length by omega) rfl hne with ⟨d, j₂, hk⟩ | ⟨v₂, q, hu₂⟩
    · -- what is behind the letter is printed, but the loop goes on behind it
      obtain ⟨rest, e, _⟩ := formatLoop_head (fmtAt_peek (by omega)) hne (hk.read _) hp
      have hmem : (j + 1, d) ∈ shown rs' := by
        rw [hshown, e, shown_cons hk.known]
        exact List.mem_cons_self
      obtain ⟨_, x, hx, e⟩ := mem_shown hmem
      have := hpos x hx
      unfold skipped at this
      omega
    · rcases Nat.lt_or_eq_of_le hj with hlt | hend
      · -- the byte behind the `'%'` is printed, which is a part of a conversion
        have hne₂ := notMem_drop hs hlt
        have hchar : readRound skipped s (j + 2) (peek (s.drop (j + 2))) =
            some (.char (peek (s.drop (j + 2))), j + 3) := if_neg hu₂.not_percent
        obtain ⟨rest', e', _⟩ := formatLoop_head (fmtAt_peek hj) hne₂ hchar hcode
        obtain ⟨rest, e, hrest⟩ := formatLoop_head (fmtAt_peek (by omega)) hne (hu₂.read _) hp
        have hmem : (j + 2, Directive.char (peek (s.drop (j + 2)))) ∈ shown rest := by
          rw [← shown_unknown (x := ⟨j + 1, .conversion v₂, promised s q⟩) (conversion_unknown hu₂.unknown) rest, ← e,
            ← hshown, e', shown_cons rfl]
          exact List.mem_cons_self
        obtain ⟨_, x, hx, ex⟩ := mem_shown hmem
        obtain ⟨rounds', args', o₂, hloop⟩ := hrest (List.ne_nil_of_mem hx)
        have hge := formatLoop_pos (fun j hj => promised_le hj) hloop x hx
        have hq := hu₂.next
        unfold promised at hge
        omega
      · rw [List.drop_eq_getElem_cons (show j + 1 < s.length by omega), show j + 1 + 1 = s.length from hend,
          List.drop_length]
        rw [List.drop_eq_getElem_cons (show j + 1 < s.length by omega)] at hu₂
        exact congrArg (fun c => [c]) hu₂.percent
  · intro hlone
    have hlen := congrArg List.length hlone
    rw [List.length_drop, List.length_singleton] at hlen
    have hnext : promised s j = j + 1 := by
      unfold promised at hlen ⊢
      omega
    rw [hnext] at hp hlone hlen
    obtain ⟨rounds, rfl⟩ : ∃ r, rounds = r + 2 := ⟨rounds - 2, by omega⟩
    have hend : fmtAt s s.length = some 0 := by
      rw [fmtAt_peek (Nat.le_refl _), List.drop_length]
      rfl
    have hc : peek (s.drop (j + 1)) = chr '%' := by rw [hlone]; rfl
    obtain ⟨v₂, hu₂⟩ := lone_unknown (s := s) (i := j + 1) (by omega) hc
    have hat : fmtAt s (j + 1) = some (chr '%') := by rw [fmtAt_peek (by omega), hc]
    have hstop : promised s s.length = s.length := Nat.min_eq_right (Nat.le_succ _)
    cases hf : (Directive.conversion v₂).fetch front args with
    | none =>
      rw [formatLoop_args hat (by decide) (hu₂.read _) hf] at hp
      cases hp
    | some pa =>
      rw [formatLoop_unknown hu₂ hat (by decide) (show _ = some (pa.1, pa.2) from hf), hstop, formatLoop_end hend] at hp
      cases hp
      refine ⟨[], ?_, ?_⟩
      · rw [skipped, show j + 2 = s.length by omega]
        exact formatLoop_end hend _
      · rw [shown_unknown (conversion_unknown hu₂.unknown)]

/-- The loop from `i` on, beside the promised one. -/
theorem formatLoop_ends (rounds : Nat) : ∀ {i : Nat} (args : List Arg) (o : Out), i ≤ s.length → s.length < i + rounds →
    formatLoop (promised s) front s rounds i args o ≠ .error .args →
      ∃ o' rs, formatLoop (promised s) front s rounds i args o = .ok (o', rs) ∧
        (∀ o₁ rs', formatLoop skipped front s rounds i args o = .ok (o₁, rs') → shown rs' = shown rs → LoneOnly s rs) ∧
        (LoneOnly s rs →
          ∃ rs', formatLoop skipped front s rounds i args o = .ok (o', rs') ∧ shown rs' = shown rs) := by
  induction rounds with
  | zero =>
    intro i args o hi hlen
    omega
  | succ rounds ih =>
    intro i args o hi hlen hargs
    rcases Nat.lt_or_eq_of_le hi with hlt | rfl
    · have hne := notMem_drop hs hlt
      have hc := fmtAt_peek hi
      rcases readRound_cases hi rfl hne with ⟨d, j, hk⟩ | ⟨v, j, hu⟩
      · cases hf : d.fetch front args with
        | none => exact absurd (formatLoop_args hc hne (hk.read _) hf _) hargs
        | some pa =>
          have hround := fun skip => @formatLoop_round s i skip front args o _ d j pa.1 pa.2 hc hne (hk.read skip) hf rounds
          rw [hround] at hargs ⊢
          rw [hround]
          have hnone : LoneOnly s [⟨i, d, j⟩] := (loneOnly_cons hk.known []).mpr (loneOnly_nil s)
          cases hp : pa.1.print o with
          | error o₁ => exact ⟨o₁, [⟨i, d, j⟩], rfl, fun _ _ _ _ => hnone, fun _ => ⟨[⟨i, d, j⟩], rfl, rfl⟩⟩
          | ok o₁ =>
            simp only [hp] at hargs ⊢
            obtain ⟨o', rs, hloop, honly, hends⟩ := ih pa.2 o₁ hk.next.2
              (by have := hk.next.1; omega) fun e => hargs (by rw [e]; rfl)
            refine ⟨o', ⟨i, d, j⟩ :: rs, map_eq_ok.mpr ⟨_, hloop, rfl⟩, ?_⟩
            rw [loneOnly_cons hk.known, shown_cons hk.known]
            constructor
            · intro o₂ rs' hcode hshown
              obtain ⟨r, hloop', e⟩ := map_eq_ok.mp hcode
              cases e
              rw [shown_cons hk.known] at hshown
              exact honly r.1 r.2 hloop' (List.cons.inj hshown).2
            · intro hlone
              obtain ⟨rs', hcode, hshown⟩ := hends hlone
              refine ⟨⟨i, d, j⟩ :: rs', map_eq_ok.mpr ⟨_, hcode, rfl⟩, ?_⟩
              rw [shown_cons hk.known, hshown]
      · have hij := hu.next
        cases hf : (Directive.conversion v).fetch front args with
        | none => exact absurd (formatLoop_args hc hne (hu.read _) hf _) hargs
        | some pa =>
          have hround : ∀ skip, formatLoop skip front s (rounds + 1) i args o =
              (formatLoop skip front s rounds (skip j) pa.2 o).map fun (o, rs) => (o, ⟨i, .conversion v, skip j⟩ :: rs) :=
            fun skip => formatLoop_unknown hu hc hne hf o rounds
          rw [hround] at hargs ⊢
          rw [hround]
          have hle : promised s j ≤ s.length := Nat.min_le_right _ _
          have hgt : i < promised s j := Nat.lt_of_lt_of_le hij.1 (promised_le hij.2)
          obtain ⟨o', rs, hloop, _⟩ := ih pa.2 o hle (by omega) fun e => hargs (by rw [e]; rfl)
          obtain ⟨honly, hends⟩ := unknown_ends hs hu (by omega) hloop
          have hx := conversion_unknown hu.unknown
          refine ⟨o', ⟨i, .conversion v, promised s j⟩ :: rs, map_eq_ok.mpr ⟨_, hloop, rfl⟩, ?_⟩
          rw [loneOnly_unknown hx, shown_unknown hx]
          constructor
          · intro o₂ rs' hcode hshown
            obtain ⟨r, hloop', e⟩ := map_eq_ok.mp hcode
            cases e
            rw [shown_unknown hx] at hshown
            exact honly r.1 r.2 hloop' hshown
          · intro hlone
            obtain ⟨rs', hcode, hshown⟩ := hends hlone
            refine ⟨_, map_eq_ok.mpr ⟨_, hcode, rfl⟩, ?_⟩
            rw [shown_unknown hx, hshown]
    · have hend : fmtAt s s.length = some 0 := by
        rw [fmtAt_peek (Nat.le_refl _), List.drop_length]
        rfl
      exact ⟨o, [], formatLoop_end hend rounds, fun _ _ _ _ => loneOnly_nil s, fun _ => ⟨[], formatLoop_end hend rounds, rfl⟩⟩

end

/-- **A call ends, with the text behind unknown letters**, exactly if no conversion that it comes to is unfinished or has an
unknown letter, unless only a `'%'` is left behind the first of them. -/
theorem vsnprintf_ends_iff (front buf : Nat → Byte) (size : BitVec 32) (fmt : List Byte) (args : List Arg)
    (hargs : vsnprintfRounds (promised (fmt.takeWhile (· ≠ 0))) front buf size (fmt.takeWhile (· ≠ 0)) args ≠
      .error .args) :
    ∃ r rs, vsnprintfRounds (promised (fmt.takeWhile (· ≠ 0))) front buf size (fmt.takeWhile (· ≠ 0)) args = .ok (r, rs) ∧
      ((∃ rs', vsnprintfRounds skipped front buf size (fmt.takeWhile (· ≠ 0)) args = .ok (r, rs') ∧
        shown rs' = shown rs) ↔ LoneOnly (fmt.takeWhile (· ≠ 0)) rs) := by
  have hs := notMem_takeWhile fmt
  generalize fmt.takeWhile (· ≠ 0) = s at hargs hs
  unfold vsnprintfRounds at *
  by_cases h0 : size = 0
  · simp only [h0, if_true]
    exact ⟨_, [], rfl, iff_of_true ⟨[], rfl, rfl⟩ (loneOnly_nil s)⟩
  · simp only [h0, if_false] at hargs ⊢
    by_cases h1 : size = 1
    · simp only [h1, if_true]
      exact ⟨_, [], rfl, iff_of_true ⟨[], rfl, rfl⟩ (loneOnly_nil s)⟩
    · simp only [h1, if_false] at hargs ⊢
      obtain ⟨o, rs, hloop, honly, hends⟩ := formatLoop_ends hs (s.length + 1) args (.start buf size)
        (Nat.zero_le _) (by omega) fun e => hargs (by rw [e]; rfl)
      refine ⟨o.finish, rs, map_eq_ok.mpr ⟨_, hloop, rfl⟩, ?_⟩
      constructor
      · rintro ⟨rs', hcode, hshown⟩
        obtain ⟨r, hloop', e⟩ := map_eq_ok.mp hcode
        obtain rfl : r.2 = rs' := (Prod.mk.inj e).2
        exact honly r.1 r.2 hloop' hshown
      · intro hlone
        obtain ⟨rs', hcode, hshown⟩ := hends hlone
        exact ⟨rs', map_eq_ok.mpr ⟨_, hcode, rfl⟩, hshown⟩

/-! ## calls -/

def faultOf {α : Type} : Except Fault α → Option Fault
  | .error e => some e
  | .ok _ => none

theorem faultOf_some {α : Type} {e : Except Fault α} {f : Fault} (h : faultOf e = some f) : e = .error f := by
  cases e with
  | error e => exact congrArg Except.error (Option.some.inj h)
  | ok a => cases h

/-- a call takes no more rounds than its format has bytes, wherever it ends -/
theorem vsnprintfRounds_rounds (front buf : Nat → Byte) (size : BitVec 32) (s : List Byte) (args : List Arg) :
    vsnprintfRounds skipped front buf size s args ≠ .error .rounds := by
  unfold vsnprintfRounds
  split
  · exact nofun
  · split
    · exact nofun
    · intro h
      cases hloop : formatLoop skipped front s (s.length + 1) 0 args (.start buf size) with
      | ok r =>
        rw [hloop] at h
        cases h
      | error e =>
        rw [hloop] at h
        cases h
        exact formatLoop_rounds (fun j _ => skipped_le j) (Nat.succ_pos _) (by omega) hloop

theorem vsnprintf_ends_iff_number :
    ∃ r rs, vsnprintfRounds (promised numberFormat) (fun _ => 0) (fun _ => 0) 80 numberFormat [.word 123] = .ok (r, rs) ∧
      ((∃ rs', vsnprintfRounds skipped (fun _ => 0) (fun _ => 0) 80 numberFormat [.word 123] = .ok (r, rs') ∧
        shown rs' = shown rs) ↔ LoneOnly numberFormat rs) := by
  have hargs : faultOf (vsnprintfRounds (promised numberFormat) (fun _ => 0) (fun _ => 0) 80 numberFormat [.word 123]) ≠
      some .args := by decide +kernel
  exact vsnprintf_ends_iff (fun _ => 0) (fun _ => 0) 80 numberFormat [.word 123] fun h => hargs (by
    rw [show numberFormat.takeWhile (· ≠ 0) = numberFormat from rfl] at h
    rw [h]
    rfl)

/-- an unknown letter with a text behind it -/
def unknownFormat : List Byte := ['%', 'y', 'a', 'b'].map chr

theorem unknownCall_some : (vsnprintf (fun _ => 0) (fun _ => 0) 80 unknownFormat []).isSome := by decide +kernel

/-- **A format that ends in a conversion** is read behind its `'\0'`, and the first character behind an unknown letter is not
printed. -/
theorem unfinished_overruns : vsnprintfRounds skipped (fun _ => 0) (fun _ => 0) 80 [chr '%'] [] = .error .overrun ∧
    ∃ r rs, vsnprintfRounds skipped (fun _ => 0) (fun _ => 0) 80 unknownFormat [] = .ok (r, rs) ∧ r.ret = 1 ∧
      r.buf 0 = chr 'b' := by
  have hfault : faultOf (vsnprintfRounds skipped (fun _ => 0) (fun _ => 0) 80 [chr '%'] []) = some .overrun := by
    decide +kernel
  obtain ⟨rs, hrs⟩ := vsnprintf_rounds (Option.some_get unknownCall_some).symm
  exact ⟨faultOf_some hfault, _, rs, hrs, by decide +kernel, by decide +kernel⟩

end Clubcos
