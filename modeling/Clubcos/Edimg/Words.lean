import Clubcos.Edimg.Model

/-!
# The words of a script

`main` packs its arguments, and the words of the files that they name, one behind the other: a byte with the length, the
word, a zero.  `main` and the commands go from word to word by these lengths; the commands read them as `char`, which has a
sign, and go back behind a word of more than 127 bytes.

* `addArg`, `addFile`, `prepare`   the script as `main` builds it;
* `scriptWords`                    the words that the interpreter comes to, by steps of either kind;
* `splitWords`, `wordsOf`          what the words of a file, and of an argument, are;
* `Adds`                           a step that puts the records of some words behind the script, or stops;
* `prepare_words`                  **the interpreter comes to the words given, in order, up to the first empty one**, and a
                                   script that fits is built;
* `commentLoop`                    the loop of `main` over a comment, `closing` by the words;
* `closing_split`                  where that loop ends, the words are those of a comment;
* `comment_skipped`                **a comment is skipped with the comments inside it**, and one that is not closed is an error.
-/

set_option linter.unusedVariables false

namespace Clubcos.Edimg
open Bytes Word

def SIZ_SCRIPT : Nat := 64 * 1024

/-! ## the script as it is built -/

/-- the loops that copy a word to the offset `q`; the end of the script is tested behind the store (`late` is 1) or in
front of it -/
def copyLoop (code late : Nat) : (q : Nat) → List (BitVec 8) → Except Halt Nat
  | q, [] => .ok q
  | q, _ :: p => if SIZ_SCRIPT - 4 ≤ q + late then .error (.errend code) else copyLoop code late (q + 1) p

/-- the loop over an argument copies its zero too, and ends there without the test -/
def copyArg (q : Nat) (p : List (BitVec 8)) : Except Halt Nat := (copyLoop 2 1 q p).map (· + 1)

/-- an argument; its zero is counted -/
def addArg (script p : List (BitVec 8)) : Except Halt (List (BitVec 8)) :=
  let r := script.length + 1
  (copyArg r p).bind fun q =>
    if 255 + 1 < q - r then .error (.errend 3)
    else .ok (script ++ (BitVec.ofNat 8 (q - r - 1) :: p ++ [0]))

def copyWord (q : Nat) (p : List (BitVec 8)) : Except Halt Nat := copyLoop 6 0 q p

/-- a word of a file -/
def addWord (script p : List (BitVec 8)) : Except Halt (List (BitVec 8)) :=
  let r := script.length + 1
  (copyWord r p).bind fun q =>
    if 255 < q - r then .error (.errend 7) else .ok (script ++ (BitVec.ofNat 8 (q - r) :: p ++ [0]))

def blank (c : BitVec 8) : Bool := decide (c ≤ 0x20)

/-- the first word of a file -/
def firstWord (p : List (BitVec 8)) : List (BitVec 8) := (p.dropWhile blank).takeWhile fun c => !blank c

/-- what is behind it -/
def otherWords (p : List (BitVec 8)) : List (BitVec 8) := (p.dropWhile blank).dropWhile fun c => !blank c

/-- the loop over the words of a file -/
def fileLoop : (rounds : Nat) → (script p : List (BitVec 8)) → Except Halt (List (BitVec 8))
  | 0, _, _ => .error .running
  | rounds + 1, script, p =>
    if p.dropWhile blank = [] then .ok script
    else (addWord script (firstWord p)).bind fun script => fileLoop rounds script (otherWords p)

def addFile (host : Path → Option (List (BitVec 8))) (script : List (BitVec 8)) (path : Path) :
    Except Halt (List (BitVec 8)) :=
  match host path with
  | none => .error (.errend 4)
  | some file => if SIZ_FILEBUF ≤ file.length then .error (.errend 5) else fileLoop (file.length + 1) script file

/-- an argument that begins with `'@'` names a file -/
def filePath : List (BitVec 8) → Option Path
  | [] => none
  | c :: path => if c = 0x40 then some path else none

def prepareLoop (host : Path → Option (List (BitVec 8))) :
    (script : List (BitVec 8)) → List (List (BitVec 8)) → Except Halt (List (BitVec 8))
  | script, [] => .ok script
  | script, arg :: argv =>
    ((filePath arg).elim (addArg script arg) (addFile host script)).bind fun script => prepareLoop host script argv

def prepare (host : Path → Option (List (BitVec 8))) (argv : List (List (BitVec 8))) : Except Halt (List (BitVec 8)) :=
  (prepareLoop host [] argv).map fun script => script ++ [0]

/-! ## the script as it is read -/

/-- the string behind the length -/
def wordAt (script : List (BitVec 8)) (p : Nat) : List (BitVec 8) := (script.drop (p + 1)).takeWhile fun c => c != 0

/-- what `*p` is in `p += *p + 2`: `main` reads it through `UCHAR *`, the commands through `const char *` -/
def lengthByte (signed : Bool) (b : BitVec 8) : Int := if signed then b.toInt else b.toNat

/-- the words that `p += *p + 2` leads to, before a length that is zero; `signed` says which of the steps the commands make.
There is no result if a step leaves the script, or if they never end -/
def scriptWords (script : List (BitVec 8)) (signed : Nat → Bool) :
    (rounds : Nat) → (p : Int) → Option (List (List (BitVec 8)))
  | 0, _ => none
  | rounds + 1, p =>
    if p < 0 ∨ script.length ≤ p then none
    else
      let b := script.getD p.toNat 0
      if b = 0 then some []
      else (scriptWords script signed rounds (p + (lengthByte (signed rounds) b + 2))).map (wordAt script p.toNat :: ·)

/-- from a word of 200 bytes a command goes back -/
example : lengthByte true (BitVec.ofNat 8 200) + 2 = -54 := by decide

/-! ## the words that are meant -/

def splitWords (file : List (BitVec 8)) : List (List (BitVec 8)) := (file.splitOnP blank).filter fun w => !w.isEmpty

def wordsOf (host : Path → Option (List (BitVec 8))) (arg : List (BitVec 8)) : List (List (BitVec 8)) :=
  (filePath arg).elim [arg] fun path => splitWords ((host path).getD [])

def wordRecord (w : List (BitVec 8)) : List (BitVec 8) := BitVec.ofNat 8 w.length :: w ++ [0]

/-- what the script says when its words are these -/
def records (ws : List (List (BitVec 8))) : List (BitVec 8) := ws.flatMap wordRecord

theorem wordRecord_length (w : List (BitVec 8)) : (wordRecord w).length = w.length + 2 := by simp [wordRecord]

theorem records_cons (w : List (BitVec 8)) (ws : List (List (BitVec 8))) :
    records (w :: ws) = wordRecord w ++ records ws := List.flatMap_cons

theorem records_append (ws ws' : List (List (BitVec 8))) : records (ws ++ ws') = records ws ++ records ws' :=
  List.flatMap_append

/-! ## the words of a file -/

theorem splitWords_nil : splitWords [] = [] := by simp [splitWords]

theorem splitWords_blank {c : BitVec 8} (h : blank c = true) (file : List (BitVec 8)) :
    splitWords (c :: file) = splitWords file := by
  rw [splitWords, List.splitOnP_cons_eq_if_modifyHead, if_pos h]
  rfl

theorem splitWords_dropWhile (file : List (BitVec 8)) : splitWords (file.dropWhile blank) = splitWords file := by
  induction file with
  | nil => rfl
  | cons c file ih =>
    by_cases h : blank c = true
    · rw [List.dropWhile_cons_of_pos h, ih, splitWords_blank h]
    · rw [List.dropWhile_cons_of_neg h]

/-- a word in front -/
theorem splitWords_word {w rest : List (BitVec 8)} (hw : w ≠ []) (h : ∀ c ∈ w, blank c = false)
    (hrest : ∀ c ∈ rest.head?, blank c = true) : splitWords (w ++ rest) = w :: splitWords rest := by
  cases rest with
  | nil =>
    rw [List.append_nil, splitWords, List.splitOnP_eq_singleton h]
    simp [splitWords_nil, hw]
  | cons c rest =>
    have hc : blank c = true := hrest c rfl
    rw [splitWords_blank hc, splitWords, List.splitOnP_append_cons_of_forall_mem h c hc]
    simp [splitWords, hw]

theorem firstWord_append (p : List (BitVec 8)) : firstWord p ++ otherWords p = p.dropWhile blank :=
  List.takeWhile_append_dropWhile

theorem firstWord_ne {p : List (BitVec 8)} (h : p.dropWhile blank ≠ []) : firstWord p ≠ [] := by
  have hhead := List.head_dropWhile_not blank h
  rw [firstWord]
  cases e : p.dropWhile blank with
  | nil => exact absurd e h
  | cons c q =>
    simp only [e, List.head_cons] at hhead
    simp [hhead]

theorem firstWord_blank (p : List (BitVec 8)) : ∀ c ∈ firstWord p, blank c = false := by
  intro c hc
  have hall : (firstWord p).all (fun c => !blank c) = true := List.all_takeWhile
  simpa using List.all_eq_true.mp hall c hc

theorem splitWords_next {p : List (BitVec 8)} (h : p.dropWhile blank ≠ []) :
    splitWords p = firstWord p :: splitWords (otherWords p) := by
  rw [← splitWords_dropWhile, ← firstWord_append]
  refine splitWords_word (firstWord_ne h) (firstWord_blank p) ?_
  intro c hc
  have hhead := List.head?_dropWhile_not (fun c => !blank c) (p.dropWhile blank)
  have hc' : ((p.dropWhile blank).dropWhile fun c => !blank c).head? = some c := hc
  rw [hc'] at hhead
  simpa using hhead

theorem splitWords_none {p : List (BitVec 8)} (h : p.dropWhile blank = []) : splitWords p = [] := by
  rw [← splitWords_dropWhile, h, splitWords_nil]

theorem otherWords_length {p : List (BitVec 8)} (h : p.dropWhile blank ≠ []) : (otherWords p).length < p.length := by
  have happend := congrArg List.length (firstWord_append p)
  have hfirst := List.length_pos_iff.mpr (firstWord_ne h)
  have hdrop := (List.dropWhile_sublist blank (l := p)).length_le
  rw [List.length_append] at happend
  omega

theorem splitWords_blank_mem {n : Nat} {p : List (BitVec 8)} (hn : p.length < n) :
    ∀ w ∈ splitWords p, ∀ c ∈ w, blank c = false := by
  induction n generalizing p with
  | zero => omega
  | succ n ih =>
    by_cases h : p.dropWhile blank = []
    · simp [splitWords_none h]
    · have hlen := otherWords_length h
      rw [splitWords_next h]
      intro w hw
      rcases List.mem_cons.mp hw with rfl | hw
      · exact firstWord_blank p
      · exact ih (by omega) w hw

/-! ## building the script -/

theorem copyLoop_cases (code late q : Nat) (p : List (BitVec 8)) :
    copyLoop code late q p = .ok (q + p.length) ∨ copyLoop code late q p = .error (.errend code) := by
  induction p generalizing q with
  | nil => exact .inl rfl
  | cons c p ih =>
    rw [copyLoop]
    split
    · exact .inr rfl
    · have hlen : q + (c :: p).length = q + 1 + p.length := by
        rw [List.length_cons]
        omega
      rw [hlen]
      exact ih (q + 1)

theorem copyLoop_fits (code : Nat) {late q : Nat} {p : List (BitVec 8)} (hl : late ≤ 1)
    (h : q + p.length < SIZ_SCRIPT - 4) : copyLoop code late q p = .ok (q + p.length) := by
  induction p generalizing q with
  | nil => rfl
  | cons c p ih =>
    rw [List.length_cons] at h
    rw [copyLoop, if_neg (by omega), ih (by omega), List.length_cons]
    congr 1
    omega

/-- a step that puts the records of `ws` behind the script, or stops; it does not stop when `can` holds and they fit -/
structure Adds (can : Prop) (f : List (BitVec 8) → Except Halt (List (BitVec 8))) (ws : List (List (BitVec 8))) :
    Prop where
  ok : ∀ script t, f script = .ok t → t = script ++ records ws ∧ ∀ w ∈ ws, w.length ≤ 255
  fits : can → ∀ script, (∀ w ∈ ws, w.length ≤ 255) → (script ++ records ws).length < SIZ_SCRIPT - 4 →
    f script = .ok (script ++ records ws)

theorem records_one (w : List (BitVec 8)) : records [w] = wordRecord w := by simp [records]

/-- a word is copied, its length is tested, and its record is there -/
theorem adds_word (code code' : Nat) {late : Nat} {p : List (BitVec 8)} {f : List (BitVec 8) → Except Halt (List (BitVec 8))}
    (hl : late ≤ 1) (hf : ∀ script, f script = (copyLoop code late (script.length + 1) p).bind fun _ =>
      if 255 < p.length then .error (.errend code') else .ok (script ++ wordRecord p)) : Adds True f [p] where
  ok script t h := by
    rw [hf] at h
    rcases copyLoop_cases code late (script.length + 1) p with e | e
    · simp only [e, Except.bind] at h
      split at h
      · cases h
      · cases h
        rw [records_one]
        simp only [List.mem_singleton, forall_eq]
        exact ⟨trivial, by omega⟩
    · simp only [e, Except.bind] at h
      cases h
  fits _ script hw h := by
    have hp := hw p (by simp)
    rw [records_one, List.length_append, wordRecord_length] at h
    rw [hf, copyLoop_fits code hl (by omega), records_one]
    simp only [Except.bind]
    rw [if_neg (by omega)]

theorem addArg_adds (p : List (BitVec 8)) : Adds True (fun script => addArg script p) [p] := by
  refine adds_word 2 3 (le_refl 1) fun script => ?_
  simp only [addArg, copyArg]
  rcases copyLoop_cases 2 1 (script.length + 1) p with e | e
  · have hlen : script.length + 1 + p.length + 1 - (script.length + 1) = p.length + 1 := by omega
    simp only [e, Except.map, Except.bind, hlen, Nat.add_sub_cancel, Nat.add_lt_add_iff_right]
    rfl
  · simp only [e, Except.map, Except.bind]

theorem addWord_adds (p : List (BitVec 8)) : Adds True (fun script => addWord script p) [p] := by
  refine adds_word 6 7 (Nat.zero_le 1) fun script => ?_
  simp only [addWord, copyWord]
  rcases copyLoop_cases 6 0 (script.length + 1) p with e | e
  · simp only [e, Except.bind, Nat.add_sub_cancel_left]
    rfl
  · simp only [e, Except.bind]

theorem Adds.weaken {can can' : Prop} {f : List (BitVec 8) → Except Halt (List (BitVec 8))}
    {ws : List (List (BitVec 8))} (h : Adds can f ws) (hc : can' → can) : Adds can' f ws :=
  ⟨h.ok, fun h' => h.fits (hc h')⟩

/-- one step behind the other -/
theorem Adds.bind {can can' : Prop} {f g : List (BitVec 8) → Except Halt (List (BitVec 8))}
    {ws ws' : List (List (BitVec 8))} (hf : Adds can f ws) (hg : Adds can' g ws') :
    Adds (can ∧ can') (fun script => (f script).bind g) (ws ++ ws') where
  ok script t h := by
    cases e : f script with
    | error e' =>
      simp only [e] at h
      cases h
    | ok u =>
      simp only [e] at h
      obtain ⟨rfl, h1⟩ := hf.ok script u e
      obtain ⟨rfl, h2⟩ := hg.ok _ t h
      rw [records_append, List.append_assoc]
      refine ⟨rfl, fun w hw => ?_⟩
      exact (List.mem_append.mp hw).elim (h1 w) (h2 w)
  fits hc script hw h := by
    rw [records_append, ← List.append_assoc] at h ⊢
    have h1 := hf.fits hc.1 script (fun w hw' => hw w (List.mem_append_left _ hw'))
      (by rw [List.length_append] at h; omega)
    have h2 := hg.fits hc.2 _ (fun w hw' => hw w (List.mem_append_right _ hw')) h
    simp only [h1]
    exact h2

theorem adds_nil : Adds True (fun script => .ok script) [] where
  ok script t h := by
    cases h
    simp [records]
  fits _ script _ _ := by simp [records]

theorem fileLoop_adds {n : Nat} {p : List (BitVec 8)} (hn : p.length < n) :
    Adds True (fun script => fileLoop n script p) (splitWords p) := by
  induction n generalizing p with
  | zero => omega
  | succ n ih =>
    by_cases h : p.dropWhile blank = []
    · simp only [fileLoop, if_pos h, splitWords_none h]
      exact adds_nil
    · have hlen := otherWords_length h
      simp only [fileLoop, if_neg h, splitWords_next h]
      exact ((addWord_adds (firstWord p)).bind (ih (p := otherWords p) (by omega))).weaken fun _ => ⟨trivial, trivial⟩

/-- the file that an argument names is there, and not too long -/
def Readable (host : Path → Option (List (BitVec 8))) (arg : List (BitVec 8)) : Prop :=
  ∀ path, filePath arg = some path → ∃ file, host path = some file ∧ file.length < SIZ_FILEBUF

theorem addFile_adds (host : Path → Option (List (BitVec 8))) (path : Path) :
    Adds (∃ file, host path = some file ∧ file.length < SIZ_FILEBUF) (fun script => addFile host script path)
      (splitWords ((host path).getD [])) := by
  cases hfile : host path with
  | none =>
    refine ⟨fun script t h => ?_, ?_⟩
    · simp only [addFile, hfile] at h
      cases h
    · rintro ⟨file, e, -⟩
      cases e
  | some file =>
    have hloop := fileLoop_adds (n := file.length + 1) (p := file) (by omega)
    refine ⟨fun script t h => ?_, ?_⟩
    · simp only [addFile, hfile] at h
      split at h
      · cases h
      · exact hloop.ok script t h
    · rintro ⟨_, ⟨⟩, hlen⟩ script hw h
      simp only [addFile, hfile, if_neg (Nat.not_le.mpr hlen)]
      exact hloop.fits trivial script hw h

theorem prepareLoop_adds (host : Path → Option (List (BitVec 8))) (argv : List (List (BitVec 8))) :
    Adds (∀ arg ∈ argv, Readable host arg) (fun script => prepareLoop host script argv)
      (argv.flatMap (wordsOf host)) := by
  induction argv with
  | nil => exact adds_nil.weaken fun _ => trivial
  | cons arg argv ih =>
    have harg : Adds (Readable host arg)
        (fun script => (filePath arg).elim (addArg script arg) (addFile host script)) (wordsOf host arg) := by
      cases hpath : filePath arg with
      | none =>
        simp only [wordsOf, hpath]
        exact (addArg_adds arg).weaken fun _ => trivial
      | some path =>
        simp only [wordsOf, hpath]
        exact (addFile_adds host path).weaken fun h => h path hpath
    rw [List.flatMap_cons]
    exact (harg.bind ih).weaken fun h => ⟨h arg List.mem_cons_self, fun a ha => h a (List.mem_cons_of_mem _ ha)⟩

/-! ## reading the script -/

/-- the steps that go to the end of a word of this length -/
def Steps (signed : Nat → Bool) (len : Nat) : Prop := len ≤ 127 ∨ len ≤ 255 ∧ ∀ i, signed i = false

theorem lengthByte_eq {signed : Nat → Bool} {len : Nat} (h : Steps signed len) (i : Nat) :
    lengthByte (signed i) (BitVec.ofNat 8 len) = len := by
  have hnat : (BitVec.ofNat 8 len).toNat = len := by
    rw [BitVec.toNat_ofNat]
    exact Nat.mod_eq_of_lt (by rcases h with h | ⟨h, -⟩ <;> omega)
  unfold lengthByte
  rcases h with h | ⟨-, hs⟩
  · rw [BitVec.toInt_eq_toNat_of_lt (by omega), hnat, ite_self]
  · rw [hs i, if_neg Bool.false_ne_true, hnat]

theorem scriptWords_records (pre : List (BitVec 8)) {signed : Nat → Bool} {ws : List (List (BitVec 8))}
    (hlen : ∀ w ∈ ws, Steps signed w.length) (hzero : ∀ w ∈ ws, 0 ∉ w) {rounds : Nat} (hrounds : ws.length < rounds) :
    scriptWords (pre ++ records ws ++ [0]) signed rounds pre.length = some (ws.takeWhile fun w => !w.isEmpty) := by
  induction ws generalizing pre rounds with
  | nil =>
    obtain ⟨n, rfl⟩ : ∃ n, rounds = n + 1 := ⟨rounds - 1, by omega⟩
    have hinside : ¬ ((pre.length : Int) < 0 ∨ ((pre ++ records [] ++ [0]).length : Int) ≤ pre.length) := by
      simp only [records, List.flatMap_nil, List.append_nil, List.length_append, List.length_singleton]
      omega
    rw [scriptWords, if_neg hinside]
    simp [records]
  | cons w ws ih =>
    obtain ⟨n, rfl⟩ : ∃ n, rounds = n + 1 := ⟨rounds - 1, by omega⟩
    have hstep := lengthByte_eq (hlen w List.mem_cons_self) n
    have hscript : pre ++ records (w :: ws) ++ [0] = pre ++ wordRecord w ++ records ws ++ [0] := by
      rw [records_cons, ← List.append_assoc pre]
    have hfirst : (pre ++ records (w :: ws) ++ [0]).getD pre.length 0 = BitVec.ofNat 8 w.length := by
      simp [records_cons, wordRecord, List.getD_eq_getElem?_getD]
    have hinside : ¬ ((pre.length : Int) < 0 ∨ ((pre ++ records (w :: ws) ++ [0]).length : Int) ≤ pre.length) := by
      simp only [List.length_append, List.length_singleton]
      omega
    rw [scriptWords, if_neg hinside, Int.toNat_natCast, hfirst]
    cases w with
    | nil => simp
    | cons c w =>
      have hne : BitVec.ofNat 8 (c :: w).length ≠ 0 := by
        intro e
        have hle : (c :: w).length ≤ 255 := (hlen (c :: w) List.mem_cons_self).elim (fun h => by omega) And.left
        have e' := congrArg BitVec.toNat e
        rw [BitVec.toNat_ofNat, Nat.mod_eq_of_lt (by omega)] at e'
        simp at e'
      have hword : wordAt (pre ++ records ((c :: w) :: ws) ++ [0]) pre.length = c :: w := by
        have hall : ∀ b ∈ c :: w, (b != 0) = true := by
          intro b hb
          have hb0 : b ≠ 0 := fun e => hzero (c :: w) List.mem_cons_self (e ▸ hb)
          simpa using hb0
        have hdrop : (pre ++ records ((c :: w) :: ws) ++ [0]).drop (pre.length + 1) =
            (c :: w) ++ 0 :: (records ws ++ [0]) := by
          simp [records_cons, wordRecord, List.drop_append]
        rw [wordAt, hdrop, List.takeWhile_append_of_pos hall]
        simp
      have hnext : (pre.length : Int) + ((c :: w).length + 2) = (pre ++ wordRecord (c :: w)).length := by
        rw [List.length_append, wordRecord_length]
        omega
      have hrounds' : ws.length < n := by
        rw [List.length_cons] at hrounds
        omega
      have hrest := ih (pre ++ wordRecord (c :: w)) (fun w hw => hlen w (List.mem_cons_of_mem _ hw))
        (fun w hw => hzero w (List.mem_cons_of_mem _ hw)) hrounds'
      rw [hscript] at hword ⊢
      simp only [hne, if_false, hword, hstep, hnext, hrest]
      rfl

theorem wordsOf_zero {host : Path → Option (List (BitVec 8))} {arg : List (BitVec 8)} (h : 0 ∉ arg) :
    ∀ w ∈ wordsOf host arg, 0 ∉ w := by
  intro w hw h0
  cases hpath : filePath arg with
  | none =>
    simp only [wordsOf, hpath, Option.elim, List.mem_singleton] at hw
    exact h (hw ▸ h0)
  | some path =>
    simp only [wordsOf, hpath, Option.elim] at hw
    have hblank := splitWords_blank_mem (Nat.lt_succ_self _) w hw 0 h0
    simp [blank] at hblank

theorem records_length (ws : List (List (BitVec 8))) : ws.length ≤ (records ws).length := by
  induction ws with
  | nil => exact Nat.zero_le _
  | cons w ws ih =>
    rw [records_cons, List.length_append, wordRecord_length, List.length_cons]
    omega

/-- **The interpreter comes to the words that were given**, in order and up to the first empty one, with steps of both kinds
if they have up to 127 bytes and with those of `main` in any case; and a script that fits is built. -/
theorem prepare_words {host : Path → Option (List (BitVec 8))} {argv : List (List (BitVec 8))}
    (hargv : ∀ arg ∈ argv, 0 ∉ arg) :
    (∀ script signed, prepare host argv = .ok script →
      (∀ w ∈ argv.flatMap (wordsOf host), w.length ≤ 127) ∨ (∀ i, signed i = false) →
      scriptWords script signed script.length 0 = some ((argv.flatMap (wordsOf host)).takeWhile fun w => !w.isEmpty)) ∧
    ((∀ arg ∈ argv, Readable host arg) → (∀ w ∈ argv.flatMap (wordsOf host), w.length ≤ 255) →
      (records (argv.flatMap (wordsOf host))).length < SIZ_SCRIPT - 4 → ∃ script, prepare host argv = .ok script) := by
  have hadds := prepareLoop_adds host argv
  constructor
  · intro script signed h hsteps
    rw [prepare] at h
    cases e : prepareLoop host [] argv with
    | error e' =>
      rw [e] at h
      cases h
    | ok t =>
      rw [e] at h
      cases h
      obtain ⟨rfl, hlen⟩ := hadds.ok [] t e
      have hzero : ∀ w ∈ argv.flatMap (wordsOf host), 0 ∉ w := by
        intro w hw
        obtain ⟨arg, harg, hw⟩ := List.mem_flatMap.mp hw
        exact wordsOf_zero (hargv arg harg) w hw
      have hstep : ∀ w ∈ argv.flatMap (wordsOf host), Steps signed w.length := by
        intro w hw
        exact hsteps.imp (fun h => h w hw) fun h => ⟨hlen w hw, h⟩
      refine scriptWords_records [] hstep hzero ?_
      have hle := records_length (argv.flatMap (wordsOf host))
      simp only [List.nil_append, List.length_append, List.length_singleton]
      omega
  · intro hread hlen hfits
    have hloop := hadds.fits hread [] hlen hfits
    exact ⟨_, by rw [prepare, hloop]; rfl⟩

/-- an argument, a file with two words and a comment, and an empty argument -/
def smallHost (path : Path) : Option (List (BitVec 8)) :=
  if path = [0x66] then some [0x20, 0x63, 0x70, 0x0a, 0x2f, 0x2a, 0x0a, 0x0a] else none

theorem prepare_words_small :
    (∀ script signed, prepare smallHost [[0x61], [0x40, 0x66], [], [0x62]] = .ok script →
      scriptWords script signed script.length 0 = some [[0x61], [0x63, 0x70], [0x2f, 0x2a]]) ∧
    ∃ script, prepare smallHost [[0x61], [0x40, 0x66], [], [0x62]] = .ok script := by
  have hargv : ∀ arg ∈ ([[0x61], [0x40, 0x66], [], [0x62]] : List (List (BitVec 8))), 0 ∉ arg := by decide
  have hwords := @prepare_words smallHost _ hargv
  refine ⟨fun script signed h => hwords.1 script signed h (.inl (by decide)), hwords.2 ?_ (by decide) (by decide)⟩
  intro arg harg path hpath
  have hfile : ∀ arg ∈ ([[0x61], [0x40, 0x66], [], [0x62]] : List (List (BitVec 8))), filePath arg = none ∨
      filePath arg = some [0x66] := by decide
  rcases hfile arg harg with e | e
  · rw [e] at hpath
    cases hpath
  · rw [e] at hpath
    cases hpath
    exact ⟨_, rfl, by decide⟩

/-! ## comments -/

/-- the loop of `cmdmatch`, up to the zero at the end of `cmd` -/
def matchLoop : (script cmd : List (BitVec 8)) → Bool
  | s, [] => s.headD 0 == 0
  | s, c :: cmd => s.headD 0 == c && matchLoop s.tail cmd

def cmdmatch (script : List (BitVec 8)) (p : Nat) (cmd : List (BitVec 8)) : Bool := matchLoop (script.drop (p + 1)) cmd

def commentOpen : List (BitVec 8) := [0x2f, 0x2a]

def commentClose : List (BitVec 8) := [0x2a, 0x2f]

/-- the loop of `main` over a comment, from the word that opens it; the result is where the script goes on -/
def commentLoop (script : List (BitVec 8)) : (rounds : Nat) → (p i : Nat) → Except Halt Nat
  | 0, _, _ => .error .running
  | rounds + 1, p, i =>
    let p := p + (script.getD p 0).toNat + 2
    if script.getD p 0 = 0 then .error (.errend 9)
    else
      let i := if cmdmatch script p commentOpen then i + 1 else i
      let i := if cmdmatch script p commentClose then i - 1 else i
      if 0 < i then commentLoop script rounds p i else .ok (p + (script.getD p 0).toNat + 2)

/-- words in which every comment that is opened is closed -/
inductive Nested : List (List (BitVec 8)) → Prop
  | nil : Nested []
  | word {w : List (BitVec 8)} {ws : List (List (BitVec 8))} (hw : w ≠ []) (ho : w ≠ commentOpen) (hc : w ≠ commentClose)
      (h : Nested ws) : Nested (w :: ws)
  | comment {ws ws' : List (List (BitVec 8))} (h : Nested ws) (h' : Nested ws') :
      Nested (commentOpen :: ws ++ commentClose :: ws')

theorem matchLoop_word {w cmd rest : List (BitVec 8)} (hw : 0 ∉ w) (hcmd : 0 ∉ cmd) :
    matchLoop (w ++ 0 :: rest) cmd = decide (w = cmd) := by
  induction cmd generalizing w with
  | nil =>
    cases w with
    | nil => rfl
    | cons c w =>
      have hc : c ≠ 0 := fun e => hw (e ▸ List.mem_cons_self)
      simpa [matchLoop] using hc
  | cons a cmd ih =>
    have ha : a ≠ 0 := fun e => hcmd (e ▸ List.mem_cons_self)
    cases w with
    | nil =>
      simp only [matchLoop, List.nil_append, List.headD_cons, reduceCtorEq, decide_false, Bool.and_eq_false_imp, beq_iff_eq]
      intro e
      exact absurd e.symm ha
    | cons c w =>
      have hih := ih (fun h => hw (List.mem_cons_of_mem c h)) fun h => hcmd (List.mem_cons_of_mem a h)
      rw [List.cons_append, matchLoop, List.headD_cons, List.tail_cons, hih]
      by_cases e : c = a <;> simp [e]

/-- a word that the interpreter has come to -/
structure AtWord (script : List (BitVec 8)) (p : Nat) (w : List (BitVec 8)) (next : Nat) : Prop where
  length : (script.getD p 0).toNat = w.length
  next : next = p + w.length + 2
  text : ∀ cmd, 0 ∉ cmd → cmdmatch script p cmd = decide (w = cmd)

theorem atWord (pre : List (BitVec 8)) {w : List (BitVec 8)} (ws : List (List (BitVec 8))) (hlen : w.length ≤ 255) (hw : 0 ∉ w) :
    AtWord (pre ++ records (w :: ws) ++ [0]) pre.length w (pre ++ wordRecord w).length where
  length := by
    have hfirst : (pre ++ records (w :: ws) ++ [0]).getD pre.length 0 = BitVec.ofNat 8 w.length := by
      simp [records_cons, wordRecord, List.getD_eq_getElem?_getD]
    rw [hfirst, BitVec.toNat_ofNat]
    exact Nat.mod_eq_of_lt (by omega)
  next := by
    rw [List.length_append, wordRecord_length]
    omega
  text cmd hcmd := by
    have hdrop : (pre ++ records (w :: ws) ++ [0]).drop (pre.length + 1) = w ++ 0 :: (records ws ++ [0]) := by
      simp [records_cons, wordRecord, List.drop_append]
    rw [cmdmatch, hdrop]
    exact matchLoop_word hw hcmd

/-- what is left of the words behind the one that closes the comment; an empty word is the end of the script -/
def closing : (i : Nat) → List (List (BitVec 8)) → Option (List (List (BitVec 8)))
  | _, [] => none
  | i, w :: ws =>
    if w = [] then none
    else
      let i := if w = commentOpen then i + 1 else i
      let i := if w = commentClose then i - 1 else i
      if 0 < i then closing i ws else some ws

theorem closing_nested {ws : List (List (BitVec 8))} (h : Nested ws) {i : Nat} (hi : 0 < i) (rest : List (List (BitVec 8))) :
    closing i (ws ++ rest) = closing i rest := by
  induction h generalizing i rest with
  | nil => rfl
  | word hw ho hc h ih =>
    rw [List.cons_append, closing, if_neg hw]
    simp only [if_neg ho, if_neg hc, if_pos hi]
    exact ih hi rest
  | @comment ws ws' h h' ih ih' =>
    have hopen : ∀ ws, closing i (commentOpen :: ws) = closing (i + 1) ws := by
      intro ws
      rw [closing, if_neg (by decide)]
      simp [commentOpen, commentClose]
    have hclose : ∀ ws, closing (i + 1) (commentClose :: ws) = closing i ws := by
      intro ws
      rw [closing, if_neg (by decide)]
      simp [commentOpen, commentClose, hi]
    rw [List.cons_append, List.cons_append, List.append_assoc, hopen, ih (by omega), List.cons_append, hclose, ih' hi]

theorem getD_end (pre : List (BitVec 8)) : (pre ++ records [] ++ [0]).getD pre.length 0 = 0 := by
  simp [records, List.getD_eq_getElem?_getD]

/-- the loop over a comment, by the words -/
theorem commentLoop_closing {script pre o : List (BitVec 8)} {ws : List (List (BitVec 8))}
    (hscript : script = pre ++ records (o :: ws) ++ [0]) (hlen : ∀ w ∈ o :: ws, w.length ≤ 255)
    (hzero : ∀ w ∈ o :: ws, 0 ∉ w) (rounds : Nat) (hrounds : ws.length < rounds) (i : Nat) :
    commentLoop script rounds pre.length i = (closing i ws).elim (.error (.errend 9)) fun rest =>
      .ok (script.length - (records rest ++ [0]).length) := by
  induction ws generalizing pre o rounds i with
  | nil =>
    obtain ⟨n, rfl⟩ : ∃ n, rounds = n + 1 := ⟨rounds - 1, by omega⟩
    have ho := atWord pre [] (hlen o List.mem_cons_self) (hzero o List.mem_cons_self)
    rw [← hscript] at ho
    have hend := getD_end (pre ++ wordRecord o)
    rw [show pre ++ wordRecord o ++ records [] ++ [0] = script by rw [hscript, records_cons, ← List.append_assoc pre]] at hend
    rw [commentLoop]
    simp only [ho.length, ← ho.next, hend, if_true]
    rfl
  | cons w ws ih =>
    obtain ⟨n, rfl⟩ : ∃ n, rounds = n + 1 := ⟨rounds - 1, by omega⟩
    have ho := atWord pre (w :: ws) (hlen o List.mem_cons_self) (hzero o List.mem_cons_self)
    rw [← hscript] at ho
    have hlen' : ∀ w' ∈ w :: ws, w'.length ≤ 255 := fun w' h => hlen w' (List.mem_cons_of_mem _ h)
    have hzero' : ∀ w' ∈ w :: ws, 0 ∉ w' := fun w' h => hzero w' (List.mem_cons_of_mem _ h)
    have hscript' : script = pre ++ wordRecord o ++ records (w :: ws) ++ [0] := by
      rw [hscript, records_cons, ← List.append_assoc pre]
    have hw := atWord (pre ++ wordRecord o) ws (hlen' w List.mem_cons_self) (hzero' w List.mem_cons_self)
    rw [← hscript'] at hw
    rw [commentLoop, closing]
    simp only [ho.length, ← ho.next]
    by_cases e : w = []
    · have h0 : script.getD (pre ++ wordRecord o).length 0 = 0 := by
        apply BitVec.eq_of_toNat_eq
        rw [hw.length, e]
        rfl
      rw [if_pos h0, if_pos e]
      rfl
    · have h0 : script.getD (pre ++ wordRecord o).length 0 ≠ 0 := by
        intro h0
        have h0' := hw.length
        rw [h0] at h0'
        exact e (List.length_eq_zero_iff.mp h0'.symm)
      have hopen := hw.text commentOpen (by decide)
      have hclose := hw.text commentClose (by decide)
      rw [if_neg h0, if_neg e]
      simp only [hopen, hclose, decide_eq_true_eq, hw.length, ← hw.next]
      generalize (if w = commentClose then (if w = commentOpen then i + 1 else i) - 1
        else if w = commentOpen then i + 1 else i) = i'
      by_cases hi : 0 < i'
      · rw [if_pos hi, if_pos hi]
        exact ih hscript' hlen' hzero' n (by rw [List.length_cons] at hrounds; omega) i'
      · have hsum : script.length = (pre ++ wordRecord o ++ wordRecord w).length + (records ws ++ [0]).length := by
          rw [hscript', records_cons, ← List.length_append]
          simp
        rw [if_neg hi, if_neg hi, Option.elim, hsum, Nat.add_sub_cancel]

/-- Where the loop ends, the words up to there are a comment without its `commentOpen`; the ones behind it are left, or they
have the rest of the comments to close. -/
theorem closing_split {n : Nat} : ∀ {ws rest : List (List (BitVec 8))} {i : Nat}, ws.length < n →
    closing (i + 1) ws = some rest → ∃ inner tail, Nested inner ∧ ws = inner ++ commentClose :: tail ∧
      (i = 0 ∧ tail = rest ∨ 0 < i ∧ closing i tail = some rest) := by
  induction n with
  | zero => exact fun h => absurd h (Nat.not_lt_zero _)
  | succ n ih =>
    intro ws rest i hn h
    cases ws with
    | nil => cases h
    | cons w ws =>
      rw [List.length_cons] at hn
      rw [closing] at h
      by_cases hw : w = []
      · rw [if_pos hw] at h
        cases h
      rw [if_neg hw] at h
      by_cases ho : w = commentOpen
      · -- a comment inside, and then the rest of this one
        have hoc : w ≠ commentClose := by
          rw [ho]
          decide
        simp only [if_pos ho, if_neg hoc, Nat.succ_pos, if_true] at h
        obtain ⟨inner, tail, hinner, rfl, htail⟩ := ih (i := i + 1) (by omega) h
        have hrest : closing (i + 1) tail = some rest := htail.elim (fun e => absurd e.1 (Nat.succ_ne_zero i)) And.right
        rw [List.length_append, List.length_cons] at hn
        obtain ⟨inner', tail', hinner', rfl, htail'⟩ := ih (by omega) hrest
        refine ⟨commentOpen :: inner ++ commentClose :: inner', tail', .comment hinner hinner', ?_, htail'⟩
        simp [ho]
      · by_cases hc : w = commentClose
        · simp only [if_neg ho, if_pos hc, Nat.add_sub_cancel] at h
          refine ⟨[], ws, .nil, by rw [hc]; rfl, ?_⟩
          by_cases hi : 0 < i
          · rw [if_pos hi] at h
            exact .inr ⟨hi, h⟩
          · rw [if_neg hi, Option.some_inj] at h
            exact .inl ⟨by omega, h⟩
        · simp only [if_neg ho, if_neg hc, Nat.succ_pos, if_true] at h
          obtain ⟨inner, tail, hinner, rfl, htail⟩ := ih (by omega) h
          exact ⟨w :: inner, tail, .word hw ho hc hinner, rfl, htail⟩

/-- **A comment is skipped as a whole**, with the comments inside it, to the record behind it; a comment that is not closed
in front of the first empty word is an error. -/
theorem comment_skipped {pre : List (BitVec 8)} {ws : List (List (BitVec 8))} (hlen : ∀ w ∈ ws, w.length ≤ 255)
    (hzero : ∀ w ∈ ws, 0 ∉ w) :
    (∀ inner rest, Nested inner → ws = inner ++ commentClose :: rest →
      commentLoop (pre ++ records (commentOpen :: ws) ++ [0]) (ws.length + 1) pre.length 1 =
        .ok (pre ++ records (commentOpen :: inner ++ [commentClose])).length) ∧
    ((¬ ∃ inner rest, Nested inner ∧ ws = inner ++ commentClose :: rest) →
      commentLoop (pre ++ records (commentOpen :: ws) ++ [0]) (ws.length + 1) pre.length 1 = .error (.errend 9)) := by
  have hlen' : ∀ w ∈ commentOpen :: ws, w.length ≤ 255 := List.forall_mem_cons.mpr ⟨by decide, hlen⟩
  have hzero' : ∀ w ∈ commentOpen :: ws, 0 ∉ w := List.forall_mem_cons.mpr ⟨by decide, hzero⟩
  rw [commentLoop_closing rfl hlen' hzero' (ws.length + 1) (Nat.lt_succ_self _) 1]
  constructor
  · intro inner rest h e
    have hclosing : closing 1 ws = some rest := by
      rw [e, closing_nested h Nat.one_pos, closing, if_neg (by decide)]
      simp [commentOpen, commentClose]
    have hsplit : pre ++ records (commentOpen :: ws) ++ [0] =
        pre ++ records (commentOpen :: inner ++ [commentClose]) ++ (records rest ++ [0]) := by
      simp [e, records]
    rw [hclosing, Option.elim, hsplit, List.length_append, Nat.add_sub_cancel]
  · intro h
    cases hclosing : closing 1 ws with
    | none => rfl
    | some rest =>
      obtain ⟨inner, tail, hinner, e, -⟩ := closing_split (i := 0) (Nat.lt_succ_self _) hclosing
      exact absurd ⟨inner, tail, hinner, e⟩ h

/-- a comment with another one inside, and one that is not closed -/
theorem comment_skipped_small :
    commentLoop ([] ++ records (commentOpen :: [[0x61], commentOpen, [0x62], commentClose, commentClose, [0x63]]) ++ [0]) 7 0 1 =
      .ok 22 ∧
    commentLoop ([] ++ records (commentOpen :: [commentOpen, [0x61]]) ++ [0]) 3 0 1 = .error (.errend 9) := by
  refine ⟨(@comment_skipped [] _ (by decide) (by decide)).1 [[0x61], commentOpen, [0x62], commentClose] [[0x63]] ?_ rfl,
    (@comment_skipped [] _ (by decide) (by decide)).2 ?_⟩
  · exact .word (by decide) (by decide) (by decide) (.comment (.word (by decide) (by decide) (by decide) .nil) .nil)
  · rintro ⟨inner, rest, -, e⟩
    have hmem : commentClose ∈ [commentOpen, [0x61]] := by
      rw [e]
      simp
    exact absurd hmem (by decide)

end Clubcos.Edimg
