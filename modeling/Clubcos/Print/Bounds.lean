import Clubcos.Lib.Machine
import Clubcos.Print.Format
import Clubcos.Print.Stores

/-!
# The end of the buffer

`size` counts what is left of the buffer, down to the byte of the `'\0'`.  Two paths of snprintf.c go wrong at the end:
`number` leaves 0 where it is cut off, and the blanks behind a string are stored before `size` is tested.

* `Piece.Safe`          when a step keeps to the buffer, before it is made;
* `counter_kept`        the counter is right until a number is cut off;
* `vsnprintf_contained_iff`   **whole calls**;
* `number_overruns`, `blanks_overrun`   one call for each of the paths.
-/

set_option linter.unusedVariables false

namespace Clubcos
open Word

section
variable {n : Nat}

/-! ## safe steps -/

/-- the counter is right: it counts no more than the bytes that are left -/
def Out.Counts (n : Nat) (o : Out) : Prop := o.size ≠ 0 ∧ o.str + o.size.toNat ≤ n

/-- Before the step: the counter is right and tested before every store, or the text of the step is shorter than what is
left of the buffer.  And no `'\0'` is among what the step puts into the text. -/
def Piece.Safe (n : Nat) (o : Out) (p : Piece) : Prop :=
  (p.Tested ∧ o.Counts n ∨ o.str + (p.textOf o.size).length < n) ∧ 0 ∉ p.stored o.size

theorem safe_iff (hn : n < 2^32) {o : Out} (h : o.Clean n) (p : Piece) :
    (merge (p.print o)).Clean n ↔ p.Safe n o := by
  rw [print_clean, clean_write]
  have hroom := h.room
  unfold Piece.Safe
  rw [← and_assoc]
  refine and_congr_left fun _ => ?_
  have htested : ∀ t : List Byte, o.Inside n ∧ o.str + (t.take (o.size - 1).toNat).length < n ↔
      o.Counts n ∨ o.str + t.length < n := by
    intro t
    rw [List.length_take]
    unfold Out.Counts
    by_cases hzero : o.size = 0
    · have hlets : (o.size - 1).toNat = 2^32 - 1 := by
        rw [hzero]
        rfl
      rw [hlets]
      constructor
      · rintro ⟨_, hlt⟩
        exact Or.inr (by omega)
      · rintro (⟨hne, _⟩ | hlt)
        · exact absurd hzero hne
        · exact ⟨h.toInside, by omega⟩
    · have hlets : (o.size - 1).toNat + 1 = o.size.toNat := by bv_omega
      constructor
      · rintro ⟨_, hlt⟩
        by_cases hcount : o.str + o.size.toNat ≤ n
        · exact Or.inl ⟨hzero, hcount⟩
        · exact Or.inr (by omega)
      · rintro (⟨_, hcount⟩ | hlt)
        · exact ⟨h.toInside, by omega⟩
        · exact ⟨h.toInside, by omega⟩
  cases p with
  | string pads len s blanks => exact ⟨fun h' => Or.inr h'.2, fun h' => ⟨h.toInside, h'.resolve_left fun h' => h'.1⟩⟩
  | text t => exact (htested _).trans (or_congr_left (iff_of_eq (true_and _)).symm)
  | number lead hex rest => exact (htested _).trans (or_congr_left (iff_of_eq (true_and _)).symm)
  | count => exact (htested _).trans (or_congr_left (iff_of_eq (true_and _)).symm)

/-! ## where the counter is lost -/

/-- the counter stays right, unless a test fails and leaves 0 -/
def CountKept (n : Nat) : Except Out Out → Prop
  | .ok o => o.Counts n
  | .error o => o.Counts n ∨ o.size = 0

theorem CountKept.bind {e : Except Out Out} {f : Out → Except Out Out} (h : CountKept n e)
    (hf : ∀ o, o.Counts n → CountKept n (f o)) : CountKept n (e.bind f) := by
  cases e with
  | error o => exact h
  | ok o => exact hf o h

theorem CountKept.merge {e : Except Out Out} (h : CountKept n e) :
    (Clubcos.merge e).Counts n ∨ (Clubcos.merge e).size = 0 := by
  cases e with
  | error o => exact h
  | ok o => exact Or.inl h

theorem counts_push {o : Out} (h : o.Counts n) (hne : o.size ≠ 1) (c : Byte) : (o.tick.push c).Counts n := by
  obtain ⟨hzero, hle⟩ := h
  refine ⟨?_, ?_⟩
  · show o.size - 1 ≠ 0
    bv_omega
  · show o.str + 1 + (o.size - 1).toNat ≤ n
    bv_omega

theorem tick_zero {o : Out} (h : o.size = 1) : o.tick.size = 0 := by
  show o.size - 1 = 0
  rw [h]
  rfl

theorem putAll_keeps {t : List Byte} {o : Out} (h : o.Counts n) : CountKept n (putAll t o) := by
  induction t generalizing o with
  | nil => exact h
  | cons c t ih =>
    show CountKept n ((put c o).bind (putAll t))
    unfold put
    by_cases hone : o.size = 1
    · rw [if_pos hone]
      exact Or.inr (tick_zero hone)
    · rw [if_neg hone]
      exact ih (counts_push h hone c)

theorem padString_keeps {pads : Nat} {o : Out} (h : o.Counts n) : CountKept n (padString pads o) := by
  induction pads generalizing o with
  | zero => exact h
  | succ pads ih =>
    unfold padString
    by_cases hone : o.size = 1
    · rw [if_pos hone]
      exact Or.inr (tick_zero hone)
    · rw [if_neg hone]
      have hpush := counts_push h hone (chr ' ')
      exact ih ⟨hpush.1, Nat.le_trans (Nat.add_le_add_right (Nat.le_succ _) _) hpush.2⟩

theorem copyString_keeps {len : Nat} {str : List Byte} (hlen : str.length ≤ len) {o : Out} (h : o.Counts n) :
    CountKept n (copyString len str o) := by
  unfold copyString
  by_cases hle : o.size.toNat ≤ len
  · rw [if_pos hle]
    exact Or.inl h
  · rw [if_neg hle]
    obtain ⟨_, hcount⟩ := h
    show Out.Counts n (Out.write { o with size := o.size - BitVec.ofNat 32 len } str)
    unfold Out.Counts
    rw [size_write, write_str]
    show o.size - BitVec.ofNat 32 len ≠ 0 ∧ o.str + str.length + (o.size - BitVec.ofNat 32 len).toNat ≤ n
    constructor <;> bv_omega

theorem trailBlanks_keeps {blanks : Nat} {o : Out} (h : o.Counts n) : CountKept n (trailBlanks blanks o) := by
  induction blanks generalizing o with
  | zero => exact h
  | succ blanks ih =>
    unfold trailBlanks
    by_cases hone : o.size = 1
    · rw [if_pos hone]
      exact Or.inr (tick_zero hone)
    · rw [if_neg hone]
      exact ih (counts_push h hone (chr ' '))

theorem hexPrefix_keeps (hex : Bool) {o : Out} (h : o.Counts n) : CountKept n (hexPrefix hex o) := by
  unfold hexPrefix
  cases hex with
  | false => exact h
  | true =>
    rw [if_pos rfl]
    by_cases h2 : o.size ≤ 2
    · rw [if_pos h2]
      exact Or.inl h
    · rw [if_neg h2]
      obtain ⟨_, hcount⟩ := h
      refine ⟨?_, ?_⟩
      · show o.size - 2 ≠ 0
        bv_omega
      · show o.str + 2 + (o.size - 2).toNat ≤ n
        bv_omega

/-- no more is copied than counted -/
def Piece.Copies : Piece → Prop
  | .string _ len s _ => s.length ≤ len
  | _ => True

theorem int32_toNat_le (k : Nat) : (int32 k).toNat ≤ u32 k := by
  unfold int32 Int.bmod u32
  simp only []
  split <;> omega

theorem string_copies (flags : Flags) (width precision : Int) (str : Option (List Byte)) :
    (stringPiece flags width precision str).Copies :=
  Nat.le_trans (List.length_take_le _ _) (int32_toNat_le _)

theorem fetch_copies {front : Nat → Byte} {d : Directive} {args args' : List Arg} {p : Piece}
    (h : d.fetch front args = some (p, args')) : p.Copies := by
  cases d with
  | char c =>
    cases h
    trivial
  | conversion v =>
    obtain ⟨⟨flags, width, args₁⟩, _, h⟩ := Option.bind_eq_some_iff.mp h
    obtain ⟨⟨precision, args₂⟩, _, h⟩ := Option.bind_eq_some_iff.mp h
    cases hl : v.letter with
    | s =>
      simp only [hl] at h
      obtain ⟨⟨str, args₃⟩, _, e⟩ := Option.map_eq_some_iff.mp h
      cases e
      exact string_copies flags width precision str
    | percent | unknown =>
      simp only [hl] at h
      cases h
      trivial
    | p =>
      simp only [hl] at h
      obtain ⟨_, _, e⟩ := Option.map_eq_some_iff.mp h
      cases e
      split <;> trivial
    | c | d | u | o | X | x | n =>
      simp only [hl] at h
      obtain ⟨_, _, e⟩ := Option.map_eq_some_iff.mp h
      cases e
      trivial

/-- a step leaves the counter right, or a number is cut off and leaves 0 -/
theorem Out.Counts.step {o o' : Out} {p : Piece} (h : o.Counts n) (hp : p.Copies) (hs : p.print o = .ok o') :
    o'.Counts n ∨ o'.size = 0 ∧ ∃ lead hex rest, p = .number lead hex rest := by
  cases p with
  | text t =>
    have hkeeps := putAll_keeps (t := t) h
    rw [show putAll t o = .ok o' from hs] at hkeeps
    exact Or.inl hkeeps
  | string pads len str blanks =>
    have hkeeps : CountKept n ((Piece.string pads len str blanks).print o) :=
      ((padString_keeps h).bind fun _ => copyString_keeps hp).bind fun _ => trailBlanks_keeps
    rw [hs] at hkeeps
    exact Or.inl hkeeps
  | number lead hex rest =>
    have hkeeps : CountKept n (((putAll lead o).bind (hexPrefix hex)).bind (putAll rest)) :=
      ((putAll_keeps h).bind fun _ => hexPrefix_keeps hex).bind fun _ => putAll_keeps
    unfold Piece.print at hs
    simp only [] at hs
    split at hs
    · cases hs
    · obtain rfl := Except.ok.inj hs
      exact hkeeps.merge.imp_right fun hzero => ⟨hzero, lead, hex, rest, rfl⟩
  | count =>
    obtain rfl := Except.ok.inj hs
    exact Or.inl h

/-- the stores that have been made stay -/
theorem clean_of_print {p : Piece} {o : Out} (h : (merge (p.print o)).Clean n) : o.Clean n := by
  obtain ⟨hinside, hroom, _⟩ := clean_write.mp ((print_clean p o).mp h)
  exact ⟨hinside, by omega⟩

/-! ## whole calls -/

/-- the piece is stored, and the call goes on -/
def Out.step (o : Out) (p : Piece) : Option Out := (p.print o).toOption

/-- **The counter is right until a number is cut off**, in every call. -/
theorem counter_kept {front : Nat → Byte} {ds : List Directive} : ∀ {args : List Arg} {ps : List Piece} (o : Out),
    piecesOf front ds args = some ps → Machine.Along Out.step (fun o p o' => o.Counts n →
      o'.Counts n ∨ o'.size = 0 ∧ ∃ lead hex rest, p = .number lead hex rest) o ps := by
  induction ds with
  | nil =>
    intro args ps o h
    cases h
    trivial
  | cons d ds ih =>
    intro args ps o h
    obtain ⟨⟨p, args'⟩, e, h⟩ := Option.bind_eq_some_iff.mp h
    obtain ⟨ps', h', rfl⟩ := Option.map_eq_some_iff.mp h
    intro o' hs
    refine ⟨fun hc => hc.step (fetch_copies e) ?_, ih o' h'⟩
    unfold Out.step at hs
    cases hp : p.print o with
    | error o₁ =>
      rw [hp] at hs
      cases hs
    | ok o₁ =>
      rw [hp] at hs
      rw [Option.some.inj hs]

def printPieces : List Piece → Out → Out
  | [], o => o
  | p :: ps, o =>
    match p.print o with
    | .error o => o
    | .ok o => printPieces ps o

theorem clean_of_pieces {ps : List Piece} {o : Out} (h : (printPieces ps o).Clean n) : o.Clean n := by
  induction ps generalizing o with
  | nil => exact h
  | cons p ps ih =>
    apply clean_of_print (p := p)
    unfold printPieces at h
    cases hp : p.print o with
    | error o' =>
      rw [hp] at h
      exact h
    | ok o' =>
      rw [hp] at h
      exact ih h

/-- **The steps keep to the buffer** exactly if each is safe in the state that it meets. -/
theorem pieces_clean (hn : n < 2^32) {ps : List Piece} {o : Out} (h : o.Clean n) :
    (printPieces ps o).Clean n ↔ Machine.Met Out.step (fun o p => Piece.Safe n o p) o ps := by
  induction ps generalizing o with
  | nil => exact iff_of_true h trivial
  | cons p ps ih =>
    have hsafe := safe_iff hn h p
    unfold printPieces Machine.Met Out.step
    cases hp : p.print o with
    | error o' =>
      rw [hp] at hsafe
      exact hsafe.trans ⟨fun hs => ⟨hs, nofun⟩, fun hs => hs.1⟩
    | ok o' =>
      rw [hp] at hsafe
      have hsafe : o'.Clean n ↔ p.Safe n o := hsafe
      constructor
      · intro h'
        have hclean := clean_of_pieces h'
        refine ⟨hsafe.mp hclean, fun o'' e => ?_⟩
        obtain rfl : o' = o'' := Option.some.inj e
        exact (ih hclean).mp h'
      · rintro ⟨hs, hrest⟩
        exact (ih (hsafe.mpr hs)).mpr (hrest o' rfl)

end

theorem printDirectives_eq (front : Nat → Byte) {ds : List Directive} : ∀ {args : List Arg} {ps : List Piece} (o : Out),
    piecesOf front ds args = some ps → printDirectives front ds args o = some (printPieces ps o) := by
  induction ds with
  | nil =>
    intro args ps o h
    cases h
    rfl
  | cons d ds ih =>
    intro args ps o h
    obtain ⟨⟨p, args'⟩, e, h⟩ := Option.bind_eq_some_iff.mp h
    obtain ⟨ps', h', rfl⟩ := Option.map_eq_some_iff.mp h
    rw [printDirectives, e, Option.bind_some]
    unfold printPieces
    simp only []
    cases p.print o with
    | error o' => rfl
    | ok o' => exact ih o' h'

/-- The call stores into `buf[0..size-1]` only, and what it leaves there is a string whose length it returns. -/
structure Contained (size : BitVec 32) (r : Printed) : Prop where
  inside : ∀ i ∈ r.stores, i < size.toNat
  string : size ≠ 0 → r.ret < size.toNat ∧ r.buf r.ret = 0 ∧ ∀ i < r.ret, r.buf i ≠ 0

theorem finish_contained {size : BitVec 32} (hsize : size ≠ 0) (o : Out) :
    Contained size o.finish ↔ o.Clean size.toNat := by
  have hstr : ∀ i < o.str, o.finish.buf i = o.buf i := fun i hi => Function.update_of_ne (Nat.ne_of_lt hi) _ _
  have hlast : o.finish.buf o.str = 0 := Function.update_self _ _ _
  constructor
  · intro h
    have hroom : o.str < size.toNat := h.inside o.str (List.mem_append_right _ List.mem_cons_self)
    have hret : o.finish.ret = o.str := u32_of_lt (Nat.lt_trans hroom size.isLt)
    obtain ⟨_, _, htext⟩ := h.string hsize
    rw [hret] at htext
    refine ⟨⟨fun i hi => h.inside i (List.mem_append_left _ hi), fun i hi => ?_⟩, hroom⟩
    rw [← hstr i hi]
    exact htext i hi
  · intro h
    have hret : o.finish.ret = o.str := u32_of_lt (Nat.lt_trans h.room size.isLt)
    refine ⟨((clean_store (c := 0)).mpr h).stores, fun _ => ?_⟩
    rw [hret]
    refine ⟨h.room, hlast, fun i hi => ?_⟩
    rw [hstr i hi]
    exact h.text i hi

/-- **`vsnprintf` keeps to its buffer** if and only if each of its steps is safe in the state that it meets. -/
theorem vsnprintf_contained_iff (front buf : Nat → Byte) (size : BitVec 32) {fmt : List Byte} {args : List Arg}
    (h : Matches fmt args) : ∃ ps r, pieces front fmt args = some ps ∧ vsnprintf front buf size fmt args = some r ∧
      (Contained size r ↔ size.toNat ≤ 1 ∨
        Machine.Met Out.step (fun o p => Piece.Safe size.toNat o p) (.start buf size) ps) := by
  obtain ⟨ps, hps⟩ := pieces_some front h
  refine ⟨ps, ?_⟩
  unfold vsnprintf
  by_cases h0 : size = 0
  · rw [if_pos h0]
    refine ⟨_, hps, rfl, iff_of_true ⟨nofun, fun hne => absurd h0 hne⟩ (Or.inl ?_)⟩
    rw [h0]
    decide
  · rw [if_neg h0]
    by_cases h1 : size = 1
    · rw [if_pos h1]
      refine ⟨_, hps, rfl, iff_of_true ⟨fun i hi => ?_, fun _ => ⟨?_, ?_, nofun⟩⟩ (Or.inl ?_)⟩
      · rw [List.mem_singleton.mp hi, h1]
        decide
      · show 0 < size.toNat
        rw [h1]
        decide
      · exact Function.update_self 0 (0 : Byte) buf
      · rw [h1]
        decide
    · rw [if_neg h1]
      obtain ⟨ds, hds, hpieces⟩ := Option.bind_eq_some_iff.mp hps
      have hgt : ¬ size.toNat ≤ 1 := by bv_omega
      have hstart : (Out.start buf size).Clean size.toNat := by
        refine ⟨⟨nofun, nofun⟩, ?_⟩
        show 0 < size.toNat
        omega
      refine ⟨(printPieces ps (.start buf size)).finish, hps, ?_, ?_⟩
      · rw [hds, Option.bind_some, printDirectives_eq front _ hpieces, Option.map_some]
      · rw [finish_contained h0, pieces_clean size.isLt hstart]
        exact (or_iff_right hgt).symm

/-- a number and a character behind it -/
def numberFormat : List Byte := ['%', 'd', '!'].map chr

theorem number_matches : Matches numberFormat [.word 123] := ⟨3, _, rfl, by decide⟩

/-- with room for the digits and their `'\0'`, the character is left out -/
theorem vsnprintf_contained_iff_number : ∃ r, vsnprintf (fun _ => 0) (fun _ => 0) 4 numberFormat [.word 123] = some r ∧
    Contained 4 r := by
  obtain ⟨ps, r, hps, hr, h⟩ := vsnprintf_contained_iff (fun _ => 0) (fun _ => 0) 4 number_matches
  refine ⟨r, hr, h.mpr (Or.inr ?_)⟩
  cases hps
  exact ⟨⟨Or.inl ⟨trivial, by decide, by decide⟩, by decide⟩, nofun⟩

theorem numberCall_some : (vsnprintf (fun _ => 0) (fun _ => 0) 3 numberFormat [.word 123]).isSome := by decide +kernel

/-- **A number that is cut off** takes the counter to 0, and the character behind it overruns the buffer. -/
theorem number_overruns : Matches numberFormat [.word 123] ∧
    ∃ r, vsnprintf (fun _ => 0) (fun _ => 0) 3 numberFormat [.word 123] = some r ∧ 3 ∈ r.stores ∧ ¬ Contained 3 r := by
  have hstore : 3 ∈ ((vsnprintf (fun _ => 0) (fun _ => 0) 3 numberFormat [.word 123]).get numberCall_some).stores := by
    decide +kernel
  refine ⟨⟨3, _, rfl, by decide⟩, _, (Option.some_get numberCall_some).symm, hstore, fun h => ?_⟩
  exact absurd (h.inside 3 hstore) (by decide)

/-- a string with blanks behind it -/
def blanksFormat : List Byte := ['%', '-', '3', 's'].map chr

theorem blanksCall_some : (vsnprintf (fun _ => 0) (fun _ => 0) 3 blanksFormat
    [.str (some (['a', 'b'].map chr))]).isSome := by decide +kernel

/-- **The blanks behind a string** that reach the end of the buffer leave no room for the `'\0'`. -/
theorem blanks_overrun : ∃ r, vsnprintf (fun _ => 0) (fun _ => 0) 3 blanksFormat [.str (some (['a', 'b'].map chr))] =
    some r ∧ ¬ Contained 3 r := by
  have hstore : 3 ∈ ((vsnprintf (fun _ => 0) (fun _ => 0) 3 blanksFormat
      [.str (some (['a', 'b'].map chr))]).get blanksCall_some).stores := by
    decide +kernel
  refine ⟨_, (Option.some_get blanksCall_some).symm, fun h => ?_⟩
  exact absurd (h.inside 3 hstore) (by decide)

end Clubcos
