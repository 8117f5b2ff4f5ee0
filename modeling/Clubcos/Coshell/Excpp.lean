import Mathlib.Data.List.DropRight
import Clubcos.Terminal.Array

/-!
# tools/excpp/excpp.py

The lines of an .excp file go to a .c file; those between `#@sort` and `#@endsort` are sorted as byte strings.

* `excpp`             the script, from the lines that are read to the lines that are written;
* `sortLines_sorted`, `sortLines_perm`   what the sort of the script is;
* `excpp_sorted`      what becomes of the first block that is to be sorted.
-/

set_option linter.unusedVariables false

namespace Clubcos

abbrev Line : Type := List Byte

/-- `'\n'` and `'\r'` -/
def isNewline (b : Byte) : Bool := b = 0x0a ∨ b = 0x0d

def rstrip (line : Line) : Line := line.rdropWhile isNewline

/-- `#@sort` -/
def sortLine : Line := [0x23, 0x40, 0x73, 0x6f, 0x72, 0x74]

/-- `#@endsort` -/
def endSortLine : Line := [0x23, 0x40, 0x65, 0x6e, 0x64, 0x73, 0x6f, 0x72, 0x74]

/-- the line behind `//` -/
def comment (line : Line) : Line := 0x2f :: 0x2f :: line

/-- strings compare byte by byte, and a prefix comes first -/
def lineLe : (a b : Line) → Bool
  | [], _ => true
  | _ :: _, [] => false
  | a :: as, b :: bs => decide (a.toNat < b.toNat) || decide (a.toNat = b.toNat) && lineLe as bs

/-- `sort_list.sort()` -/
def sortLines (lines : List Line) : List Line := lines.mergeSort lineLe

structure Excpp where
  sortList : List Line
  outputList : List Line
  ifSorting : Bool

def Excpp.line (s : Excpp) (line : Line) : Excpp :=
  let line := rstrip line
  if s.ifSorting then
    if line = endSortLine then
      { s with outputList := s.outputList ++ sortLines s.sortList ++ [comment endSortLine], sortList := [], ifSorting := false }
    else { s with sortList := s.sortList ++ [line] }
  else if line = sortLine then { s with outputList := s.outputList ++ [comment sortLine], ifSorting := true }
  else { s with outputList := s.outputList ++ [line] }

def excpp (input : List Line) : List Line := (input.foldl Excpp.line ⟨[], [], false⟩).outputList

/-! ## the order of the lines -/

theorem lineLe_cons {a b : Byte} {as bs : Line} :
    lineLe (a :: as) (b :: bs) = true ↔ a.toNat < b.toNat ∨ a.toNat = b.toNat ∧ lineLe as bs = true := by
  simp [lineLe]

theorem lineLe_total : ∀ a b : Line, (lineLe a b || lineLe b a) = true
  | [], _ => rfl
  | _ :: _, [] => rfl
  | a :: as, b :: bs => by
    have ih := lineLe_total as bs
    rw [Bool.or_eq_true] at ih ⊢
    rw [lineLe_cons, lineLe_cons]
    rcases Nat.lt_trichotomy a.toNat b.toNat with h | h | h
    · exact Or.inl (Or.inl h)
    · exact ih.imp (fun h' => Or.inr ⟨h, h'⟩) fun h' => Or.inr ⟨h.symm, h'⟩
    · exact Or.inr (Or.inl h)

theorem lineLe_trans : ∀ a b c : Line, lineLe a b = true → lineLe b c = true → lineLe a c = true
  | [], _, _, _, _ => rfl
  | _ :: _, [], _, h, _ => absurd h Bool.false_ne_true
  | _ :: _, _ :: _, [], _, h => absurd h Bool.false_ne_true
  | a :: as, b :: bs, c :: cs, h1, h2 => by
    have ih := lineLe_trans as bs cs
    rw [lineLe_cons] at h1 h2 ⊢
    rcases h1 with h1 | ⟨h1, h1'⟩
    · left
      omega
    · rcases h2 with h2 | ⟨h2, h2'⟩
      · left
        omega
      · exact Or.inr ⟨h1.trans h2, ih h1' h2'⟩

theorem sortLines_sorted (lines : List Line) : (sortLines lines).Pairwise fun a b => lineLe a b = true :=
  List.pairwise_mergeSort lineLe_trans lineLe_total lines

theorem sortLines_perm (lines : List Line) : (sortLines lines).Perm lines := List.mergeSort_perm lines lineLe

/-! ## a block that is sorted -/

theorem rstrip_cons {b : Byte} (hb : isNewline b = false) (line rest : Line) :
    rstrip (line ++ b :: rest) = line ++ b :: rstrip rest := by
  induction rest using List.reverseRecOn with
  | nil =>
    have h1 : ¬ isNewline b = true := by rw [hb]; exact Bool.false_ne_true
    rw [rstrip, List.rdropWhile_concat_neg _ _ _ h1]
    rfl
  | append_singleton rest c ih =>
    have h1 : line ++ b :: (rest ++ [c]) = (line ++ b :: rest) ++ [c] := by simp
    rw [h1]
    unfold rstrip at ih ⊢
    by_cases hc : isNewline c = true
    · rw [List.rdropWhile_concat_pos _ _ _ hc, List.rdropWhile_concat_pos _ _ _ hc, ih]
    · rw [List.rdropWhile_concat_neg _ _ _ hc, List.rdropWhile_concat_neg _ _ _ hc]
      simp

theorem foldl_plain {lines : List Line} (h : ∀ l ∈ lines, rstrip l ≠ sortLine) (out : List Line) :
    lines.foldl Excpp.line ⟨[], out, false⟩ = ⟨[], out ++ lines.map rstrip, false⟩ := by
  induction lines generalizing out with
  | nil => simp
  | cons l lines ih =>
    have hl := h l List.mem_cons_self
    have h1 : Excpp.line ⟨[], out, false⟩ l = ⟨[], out ++ [rstrip l], false⟩ := by
      simp [Excpp.line, hl]
    rw [List.foldl_cons, h1, ih fun l' hl' => h l' (List.mem_cons_of_mem l hl')]
    simp

theorem foldl_sorting {lines : List Line} (h : ∀ l ∈ lines, rstrip l ≠ endSortLine) (acc out : List Line) :
    lines.foldl Excpp.line ⟨acc, out, true⟩ = ⟨acc ++ lines.map rstrip, out, true⟩ := by
  induction lines generalizing acc with
  | nil => simp
  | cons l lines ih =>
    have hl := h l List.mem_cons_self
    have h1 : Excpp.line ⟨acc, out, true⟩ l = ⟨acc ++ [rstrip l], out, true⟩ := by
      simp [Excpp.line, hl]
    rw [List.foldl_cons, h1, ih fun l' hl' => h l' (List.mem_cons_of_mem l hl')]
    simp

/-- what is written is only appended to -/
theorem outputList_prefix (lines : List Line) (s : Excpp) :
    ∃ rest, (lines.foldl Excpp.line s).outputList = s.outputList ++ rest := by
  induction lines generalizing s with
  | nil => exact ⟨[], by simp⟩
  | cons l lines ih =>
    obtain ⟨rest, hrest⟩ := ih (s.line l)
    have h1 : ∃ more, (s.line l).outputList = s.outputList ++ more := by
      unfold Excpp.line
      simp only
      split <;> split
      · exact ⟨_, by rw [List.append_assoc]⟩
      · exact ⟨[], by simp⟩
      · exact ⟨_, rfl⟩
      · exact ⟨_, rfl⟩
    obtain ⟨more, hmore⟩ := h1
    exact ⟨more ++ rest, by rw [List.foldl_cons, hrest, hmore, List.append_assoc]⟩

/-- **The first block between `#@sort` and `#@endsort`** is written sorted, between two comments. -/
theorem excpp_sorted {pre lines post : List Line} {first last next : Line} (hpre : ∀ l ∈ pre, rstrip l ≠ sortLine)
    (hlines : ∀ l ∈ lines, rstrip l ≠ endSortLine) (hfirst : rstrip first = sortLine)
    (hlast : rstrip last = endSortLine) (hnext : rstrip next ≠ sortLine) :
    ∃ rest, excpp (pre ++ first :: (lines ++ last :: next :: post)) = pre.map rstrip ++ comment sortLine ::
      (sortLines (lines.map rstrip) ++ comment endSortLine :: rstrip next :: rest) := by
  have h1 : Excpp.line ⟨[], pre.map rstrip, false⟩ first = ⟨[], pre.map rstrip ++ [comment sortLine], true⟩ := by
    simp [Excpp.line, hfirst]
  have h2 : ∀ out, Excpp.line ⟨lines.map rstrip, out, true⟩ last =
      ⟨[], out ++ sortLines (lines.map rstrip) ++ [comment endSortLine], false⟩ := fun out => by
    simp [Excpp.line, hlast]
  have h3 : ∀ out, Excpp.line ⟨[], out, false⟩ next = ⟨[], out ++ [rstrip next], false⟩ := fun out => by
    simp [Excpp.line, hnext]
  obtain ⟨rest, hrest⟩ := outputList_prefix post ⟨[], pre.map rstrip ++ [comment sortLine] ++
    sortLines (lines.map rstrip) ++ [comment endSortLine] ++ [rstrip next], false⟩
  refine ⟨rest, ?_⟩
  rw [excpp, List.foldl_append, foldl_plain hpre, List.nil_append, List.foldl_cons, h1, List.foldl_append,
    foldl_sorting hlines, List.nil_append, List.foldl_cons, h2, List.foldl_cons, h3, hrest]
  simp

end Clubcos
