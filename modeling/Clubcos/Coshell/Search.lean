import Clubcos.Lib.Bisect
import Clubcos.Coshell.Excpp

/-!
# coshell.excp: the search for a command

The table `Commands` is what the compiler reads from the lines that excpp.py writes; `csSearchCommand` looks for a
command in it by bisection with `strcmp`.  `char` is signed.

* `strcmp_eq`, `strcmp_trans`   `strcmp` is an order on strings;
* `name_lt`            lines in the order of bytes have their names in the order of `strcmp`;
* `table_sorted`       the table that is compiled from the sorted lines;
* `search_finds`       every command is found, and nothing else.
-/

set_option linter.unusedVariables false

namespace Clubcos

/-! ## string.c -/

/-- a string without its terminator -/
def strcmp : (lhs rhs : List Byte) → Int
  | [], rhs => 0 - (rhs.headD 0).toInt
  | l :: lhs, rhs =>
    let ret := l.toInt - (rhs.headD 0).toInt
    if ret ≠ 0 then ret else strcmp lhs rhs.tail

/-! ## coshell.excp -/

/-- `data` is the source text of the other members -/
structure CommandEntry where
  cmd : List Byte
  data : Line

/-- TAB and `{ "` -/
def entryStart : Line := [0x09, 0x7b, 0x20, 0x22]

/-- `static CommandEntry Commands[] = {` -/
def commandsStart : Line :=
  [0x73, 0x74, 0x61, 0x74, 0x69, 0x63, 0x20, 0x43, 0x6f, 0x6d, 0x6d, 0x61, 0x6e, 0x64, 0x45, 0x6e, 0x74, 0x72, 0x79, 0x20,
    0x43, 0x6f, 0x6d, 0x6d, 0x61, 0x6e, 0x64, 0x73, 0x5b, 0x5d, 0x20, 0x3d, 0x20, 0x7b]

/-- `};` -/
def commandsEnd : Line := [0x7d, 0x3b]

/-- the line of an entry: the name between its quotation marks, a comma and the rest -/
def entryLine (name text : List Byte) : Line := entryStart ++ (name ++ 0x22 :: 0x2c :: text)

/-- what the compiler reads from a line; a comment has no entry -/
def entryOf (line : Line) : Option CommandEntry :=
  if line.take 4 = entryStart then
    let name := (line.drop 4).takeWhile (· ≠ 0x22)
    some ⟨name, line.drop (4 + name.length + 2)⟩
  else none

/-- the initializers of `Commands` -/
def commandTable (source : List Line) : List CommandEntry :=
  ((source.dropWhile (· ≠ commandsStart)).takeWhile (· ≠ commandsEnd)).filterMap entryOf

/-- The pointers are indices into the table.  `none` is an access outside the table, or a loop that needs more than
`rounds` rounds; `some none` is `NULL`. -/
def searchLoop (table : List CommandEntry) (cmd : List Byte) : (rounds first last : Nat) → Option (Option Nat)
  | 0, _, _ => none
  | rounds + 1, first, last => do
    let entry := first + (last - first) / 2
    let e ← table[entry]?
    let ret := strcmp cmd e.cmd
    if ret < 0 then
      let last := entry
      if first = last then some none else searchLoop table cmd rounds first last
    else if 0 < ret then
      let first := entry + 1
      if first = last then some none else searchLoop table cmd rounds first last
    else some (some entry)

def csSearchCommand (table : List CommandEntry) (cmd : List Byte) (rounds : Nat) : Option (Option Nat) :=
  searchLoop table cmd rounds 0 table.length

/-! ## the order of `strcmp` -/

/-- a string ends at its first zero byte -/
def IsString (s : List Byte) : Prop := ∀ b ∈ s, b ≠ 0

theorem IsString.tail {b : Byte} {s : List Byte} (h : IsString (b :: s)) : IsString s :=
  fun c hc => h c (List.mem_cons_of_mem b hc)

theorem IsString.head {b : Byte} {s : List Byte} (h : IsString (b :: s)) : b.toInt ≠ 0 :=
  fun e => h b List.mem_cons_self (BitVec.eq_of_toInt_eq e)

theorem strcmp_nil_cons (b : Byte) (s : List Byte) : strcmp [] (b :: s) = - b.toInt := Int.zero_sub _

theorem strcmp_cons_nil {b : Byte} {s : List Byte} (h : IsString (b :: s)) : strcmp (b :: s) [] = b.toInt := by
  have h0 : (0 : Byte).toInt = 0 := rfl
  simp only [strcmp, List.headD_nil, h0, Int.sub_zero, if_pos h.head]

theorem strcmp_of_ne {b c : Byte} (h : b.toInt ≠ c.toInt) (s t : List Byte) :
    strcmp (b :: s) (c :: t) = b.toInt - c.toInt := by
  have hne : b.toInt - c.toInt ≠ 0 := by omega
  exact if_pos hne

theorem strcmp_same (b : Byte) (s t : List Byte) : strcmp (b :: s) (b :: t) = strcmp s t := by simp [strcmp]

theorem strcmp_eq : ∀ {a b : List Byte}, IsString a → IsString b → (strcmp a b = 0 ↔ a = b)
  | [], [], _, _ => iff_of_true rfl rfl
  | [], c :: b, _, hb => by
    have hc := hb.head
    rw [strcmp_nil_cons]
    exact iff_of_false (by omega) (List.cons_ne_nil c b).symm
  | c :: a, [], ha, _ => by
    rw [strcmp_cons_nil ha]
    exact iff_of_false ha.head (List.cons_ne_nil c a)
  | c :: a, d :: b, ha, hb => by
    by_cases e : c.toInt = d.toInt
    · obtain rfl := BitVec.eq_of_toInt_eq e
      rw [strcmp_same, strcmp_eq ha.tail hb.tail, List.cons_inj_right]
    · rw [strcmp_of_ne e]
      refine iff_of_false (by omega) fun h => e ?_
      cases h
      rfl

theorem strcmp_trans : ∀ {a b c : List Byte}, IsString a → IsString b → IsString c → strcmp a b ≤ 0 →
    strcmp b c < 0 → strcmp a c < 0
  | [], [], _, _, _, _, _, h2 => h2
  | [], y :: b, [], _, hb, _, h1, h2 => by
    rw [strcmp_nil_cons] at h1
    rw [strcmp_cons_nil hb] at h2
    omega
  | [], y :: b, z :: c, _, _, hc, h1, h2 => by
    have hz := hc.head
    rw [strcmp_nil_cons] at h1 ⊢
    by_cases e : y.toInt = z.toInt
    · omega
    · rw [strcmp_of_ne e] at h2
      omega
  | x :: a, [], [], _, _, _, _, h2 => absurd h2 (Int.lt_irrefl 0)
  | x :: a, [], z :: c, ha, _, _, h1, h2 => by
    rw [strcmp_cons_nil ha] at h1
    rw [strcmp_nil_cons] at h2
    rw [strcmp_of_ne (by omega)]
    omega
  | x :: a, y :: b, [], ha, hb, _, h1, h2 => by
    rw [strcmp_cons_nil hb] at h2
    rw [strcmp_cons_nil ha]
    by_cases e : x.toInt = y.toInt
    · omega
    · rw [strcmp_of_ne e] at h1
      omega
  | x :: a, y :: b, z :: c, ha, hb, hc, h1, h2 => by
    by_cases e1 : x.toInt = y.toInt
    · obtain rfl := BitVec.eq_of_toInt_eq e1
      rw [strcmp_same] at h1
      by_cases e2 : x.toInt = z.toInt
      · obtain rfl := BitVec.eq_of_toInt_eq e2
        rw [strcmp_same] at h2 ⊢
        exact strcmp_trans ha.tail hb.tail hc.tail h1 h2
      · rwa [strcmp_of_ne e2] at h2 ⊢
    · rw [strcmp_of_ne e1] at h1
      by_cases e2 : y.toInt = z.toInt
      · obtain rfl := BitVec.eq_of_toInt_eq e2
        rw [strcmp_of_ne e1]
        omega
      · rw [strcmp_of_ne e2] at h2
        rw [strcmp_of_ne (by omega)]
        omega

/-! ## the order of the lines -/

/-- letters, digits, `'-'`, `'.'` and `'_'` -/
def NameChar (b : Byte) : Prop :=
  0x61 ≤ b.toNat ∧ b.toNat ≤ 0x7a ∨ 0x41 ≤ b.toNat ∧ b.toNat ≤ 0x5a ∨ 0x30 ≤ b.toNat ∧ b.toNat ≤ 0x39 ∨
    b.toNat = 0x2d ∨ b.toNat = 0x2e ∨ b.toNat = 0x5f

/-- it comes behind the quotation mark, and it is no negative `char` -/
theorem NameChar.bounds {b : Byte} (h : NameChar b) : 0x22 < b.toNat ∧ b.toNat < 0x80 := by
  unfold NameChar at h
  omega

theorem NameChar.toInt {b : Byte} (h : NameChar b) : b.toInt = b.toNat := by
  have hb := h.bounds
  rw [BitVec.toInt_eq_toNat_cond, if_pos (by omega)]

theorem NameChar.ne_zero {b : Byte} (h : NameChar b) : b ≠ 0 := by
  rintro rfl
  exact absurd h.bounds.1 (by decide)

def IsName (s : List Byte) : Prop := s ≠ [] ∧ ∀ b ∈ s, NameChar b

theorem isString_of_name {s : List Byte} (h : ∀ b ∈ s, NameChar b) : IsString s := fun b hb => (h b hb).ne_zero

/-- Where one name ends, its quotation mark comes before the next character of the other. -/
theorem name_lt : ∀ {a b x y : List Byte}, (∀ c ∈ a, NameChar c) → (∀ c ∈ b, NameChar c) → a ≠ b →
    lineLe (a ++ 0x22 :: x) (b ++ 0x22 :: y) = true → strcmp a b < 0
  | [], [], _, _, _, _, hne, _ => absurd rfl hne
  | [], d :: b, _, _, _, hb, _, _ => by
    have hd := hb d List.mem_cons_self
    have hbound := hd.bounds
    rw [strcmp_nil_cons, hd.toInt]
    omega
  | c :: a, [], x, y, ha, _, _, hle => by
    have hbound := (ha c List.mem_cons_self).bounds
    have h22 : (0x22 : Byte).toNat = 0x22 := rfl
    rw [List.cons_append, List.nil_append, lineLe_cons, h22] at hle
    omega
  | c :: a, d :: b, x, y, ha, hb, hne, hle => by
    have hc := ha c List.mem_cons_self
    have hd := hb d List.mem_cons_self
    rw [List.cons_append, List.cons_append, lineLe_cons] at hle
    rcases hle with h | ⟨h, hle⟩
    · have hlt : c.toInt < d.toInt := by
        rw [hc.toInt, hd.toInt]
        omega
      rw [strcmp_of_ne (by omega)]
      omega
    · obtain rfl := BitVec.eq_of_toNat_eq h
      rw [strcmp_same]
      apply name_lt (fun e he => ha e (List.mem_cons_of_mem c he)) (fun e he => hb e (List.mem_cons_of_mem c he)) _ hle
      exact fun e => hne (congrArg (c :: ·) e)

/-- lines of entries compare as what stands behind the first quotation mark -/
theorem entryLine_le (a b x y : List Byte) :
    lineLe (entryLine a x) (entryLine b y) = lineLe (a ++ 0x22 :: 0x2c :: x) (b ++ 0x22 :: 0x2c :: y) := by
  simp [entryLine, entryStart, lineLe]

/-! ## the table -/

theorem entryOf_entryLine {name : List Byte} (h : ∀ b ∈ name, NameChar b) (text : List Byte) :
    entryOf (entryLine name text) = some ⟨name, text⟩ := by
  have hname : (name ++ 0x22 :: 0x2c :: text).takeWhile (· ≠ 0x22) = name := by
    rw [List.takeWhile_append_of_pos]
    · simp
    · intro b hb
      have hbound := (h b hb).bounds
      have hne : b ≠ 0x22 := by
        rintro rfl
        exact absurd hbound.1 (by decide)
      exact decide_eq_true hne
  have hdrop : (entryLine name text).drop 4 = name ++ 0x22 :: 0x2c :: text := rfl
  have hrest : (entryLine name text).drop (4 + name.length + 2) = text := by
    rw [Nat.add_assoc, ← List.drop_drop, hdrop, ← List.drop_drop, List.drop_left]
    rfl
  have htake : (entryLine name text).take 4 = entryStart := rfl
  simp only [entryOf, htake, hdrop, hname, hrest, if_true]

/-- the lines of the file end in `"\r\n"` -/
def crlf : Line := [0x0d, 0x0a]

/-- coshell.excp: the names and the text behind them in the lines of the table, between `pre` and `post` -/
def coshellSource (pre post : List Line) (items : List (List Byte × List Byte)) : List Line :=
  pre ++ (commandsStart ++ crlf) :: (sortLine ++ crlf) :: (items.map (fun i => entryLine i.1 i.2) ++
    (endSortLine ++ crlf) :: (commandsEnd ++ crlf) :: post)

/-- the entry of an item -/
def entryFor (item : List Byte × List Byte) : CommandEntry := ⟨item.1, rstrip item.2⟩

theorem rstrip_entryLine (name text : List Byte) : rstrip (entryLine name text) = entryLine name (rstrip text) := by
  have h1 : ∀ t : List Byte, entryLine name t = (entryStart ++ name ++ [0x22]) ++ 0x2c :: t := fun t => by
    simp [entryLine]
  rw [h1, h1]
  exact rstrip_cons rfl _ _

theorem entryLine_ne {name text l : List Byte} (h : l.head? ≠ some 0x09) : entryLine name text ≠ l :=
  fun e => h (e ▸ rfl)

section
variable {pre post : List Line} {items : List (List Byte × List Byte)}
  (hpre : ∀ l ∈ pre, rstrip l ≠ sortLine ∧ rstrip l ≠ commandsStart)
include hpre

/-- the lines of the items, as they are sorted -/
def itemLines (items : List (List Byte × List Byte)) : List Line := items.map fun i => entryLine i.1 (rstrip i.2)

theorem excpp_coshell (post : List Line) (items : List (List Byte × List Byte)) :
    ∃ rest, excpp (coshellSource pre post items) = pre.map rstrip ++ commandsStart :: comment sortLine ::
      (sortLines (itemLines items) ++ comment endSortLine :: commandsEnd :: rest) := by
  have hmap : (items.map fun i => entryLine i.1 i.2).map rstrip = itemLines items := by
    rw [List.map_map]
    exact List.map_congr_left fun i _ => rstrip_entryLine i.1 i.2
  have hlines : ∀ l ∈ items.map (fun i => entryLine i.1 i.2), rstrip l ≠ endSortLine := by
    intro l hl
    obtain ⟨i, _, rfl⟩ := List.mem_map.mp hl
    rw [rstrip_entryLine]
    exact entryLine_ne (by decide)
  have hpre' : ∀ l ∈ pre ++ [commandsStart ++ crlf], rstrip l ≠ sortLine := by
    intro l hl
    rcases List.mem_append.mp hl with hl | hl
    · exact (hpre l hl).1
    · rw [List.mem_singleton.mp hl]
      decide
  have hsource : coshellSource pre post items = (pre ++ [commandsStart ++ crlf]) ++ (sortLine ++ crlf) ::
      (items.map (fun i => entryLine i.1 i.2) ++ (endSortLine ++ crlf) :: (commandsEnd ++ crlf) :: post) := by
    simp [coshellSource]
  have hfirst : rstrip (sortLine ++ crlf) = sortLine := by decide
  have hlast : rstrip (endSortLine ++ crlf) = endSortLine := by decide
  have hnext : rstrip (commandsEnd ++ crlf) ≠ sortLine := by decide
  have hstart : rstrip (commandsStart ++ crlf) = commandsStart := by decide
  have hend : rstrip (commandsEnd ++ crlf) = commandsEnd := by decide
  obtain ⟨rest, hout⟩ := excpp_sorted hpre' hlines hfirst hlast hnext
  refine ⟨rest, ?_⟩
  rw [hsource, hout, hmap, hend, List.map_append, List.map_singleton, hstart]
  simp

/-- the compiler reads the sorted lines -/
theorem commandTable_eq :
    commandTable (excpp (coshellSource pre post items)) = (sortLines (itemLines items)).filterMap entryOf := by
  obtain ⟨rest, hout⟩ := excpp_coshell hpre post items
  have hskip : ∀ l ∈ pre.map rstrip, decide (l ≠ commandsStart) = true := by
    intro l hl
    obtain ⟨l', hl', rfl⟩ := List.mem_map.mp hl
    exact decide_eq_true (hpre l' hl').2
  have hsorted : ∀ l ∈ sortLines (itemLines items), decide (l ≠ commandsEnd) = true := by
    intro l hl
    obtain ⟨i, _, rfl⟩ := List.mem_map.mp ((sortLines_perm _).mem_iff.mp hl)
    exact decide_eq_true (entryLine_ne (by decide))
  have hdrop : (excpp (coshellSource pre post items)).dropWhile (· ≠ commandsStart) = commandsStart ::
      comment sortLine :: (sortLines (itemLines items) ++ comment endSortLine :: commandsEnd :: rest) := by
    rw [hout, List.dropWhile_append_of_pos hskip, List.dropWhile_cons_of_neg (by simp)]
  have htake : (commandsStart :: comment sortLine ::
      (sortLines (itemLines items) ++ comment endSortLine :: commandsEnd :: rest)).takeWhile (· ≠ commandsEnd) =
      commandsStart :: comment sortLine :: (sortLines (itemLines items) ++ [comment endSortLine]) := by
    rw [List.takeWhile_cons_of_pos (by decide), List.takeWhile_cons_of_pos (by decide),
      List.takeWhile_append_of_pos hsorted, List.takeWhile_cons_of_pos (by decide),
      List.takeWhile_cons_of_neg (by simp)]
  have h1 : entryOf commandsStart = none := by decide
  have h2 : entryOf (comment sortLine) = none := by decide
  have h3 : entryOf (comment endSortLine) = none := by decide
  rw [commandTable, hdrop, htake]
  simp [h1, h2, h3]

section
variable (hnames : ∀ i ∈ items, IsName i.1) (hdistinct : (items.map Prod.fst).Nodup)
include hnames

/-- the entries of the table are those of the items -/
theorem table_perm : (commandTable (excpp (coshellSource pre post items))).Perm (items.map entryFor) := by
  have hentries : (itemLines items).filterMap entryOf = items.map entryFor := by
    rw [itemLines, List.filterMap_map]
    refine List.filterMap_eq_map_iff_forall_eq_some.mpr fun i hi => ?_
    exact entryOf_entryLine (hnames i hi).2 (rstrip i.2)
  rw [commandTable_eq hpre, ← hentries]
  exact (sortLines_perm _).filterMap entryOf

theorem table_names {e : CommandEntry} (he : e ∈ commandTable (excpp (coshellSource pre post items))) :
    ∃ i ∈ items, e = entryFor i := by
  obtain ⟨i, hi, rfl⟩ := List.mem_map.mp ((table_perm hpre hnames).mem_iff.mp he)
  exact ⟨i, hi, rfl⟩

include hdistinct

/-- **The table is in the order of `strcmp`.** -/
theorem table_sorted :
    (commandTable (excpp (coshellSource pre post items))).Pairwise fun e e' => strcmp e.cmd e'.cmd < 0 := by
  have hne : (commandTable (excpp (coshellSource pre post items))).Pairwise fun e e' => e.cmd ≠ e'.cmd := by
    have hnd : ((items.map entryFor).map CommandEntry.cmd).Nodup := by
      rw [List.map_map]
      exact hdistinct
    exact List.pairwise_map.mp ((((table_perm hpre hnames).map CommandEntry.cmd).nodup_iff).mpr hnd)
  have hle : (commandTable (excpp (coshellSource pre post items))).Pairwise fun e e' =>
      lineLe (entryLine e.cmd e.data) (entryLine e'.cmd e'.data) = true := by
    rw [commandTable_eq hpre, List.pairwise_filterMap]
    refine (sortLines_sorted (itemLines items)).imp_of_mem fun {l l'} hl hl' h => ?_
    intro e he e' he'
    obtain ⟨i, hi, rfl⟩ := List.mem_map.mp ((sortLines_perm _).mem_iff.mp hl)
    obtain ⟨i', hi', rfl⟩ := List.mem_map.mp ((sortLines_perm _).mem_iff.mp hl')
    rw [entryOf_entryLine (hnames i hi).2] at he
    rw [entryOf_entryLine (hnames i' hi').2] at he'
    cases he
    cases he'
    exact h
  refine (hne.and hle).imp_of_mem fun {e e'} he he' h => ?_
  obtain ⟨i, hi, rfl⟩ := table_names hpre hnames he
  obtain ⟨i', hi', rfl⟩ := table_names hpre hnames he'
  have hlt := h.2
  rw [entryLine_le] at hlt
  exact name_lt (hnames i hi).2 (hnames i' hi').2 h.1 hlt

end

end

/-! ## the search -/

theorem searchLoop_eq (table : List CommandEntry) (cmd : List Byte) (rounds first last : Nat) :
    searchLoop table cmd rounds first last =
      Bisect.search (fun i => table[i]?.map fun e => strcmp cmd e.cmd) rounds first last := by
  induction rounds generalizing first last with
  | zero => rfl
  | succ rounds ih =>
    rw [searchLoop, Bisect.search]
    cases table[first + (last - first) / 2]? with
    | none => rfl
    | some e => simp only [ih, Option.map_some, Option.bind_some, Option.bind_eq_bind]

/-- **Every command that the build sorts in is found, and no other.**  The search ends within as many rounds as there are
entries, and looks at no entry outside the table. -/
theorem search_finds {pre post : List Line} {items : List (List Byte × List Byte)}
    (hpre : ∀ l ∈ pre, rstrip l ≠ sortLine ∧ rstrip l ≠ commandsStart) (hne : items ≠ [])
    (hnames : ∀ i ∈ items, IsName i.1) (hdistinct : (items.map Prod.fst).Nodup) {cmd : List Byte} (hcmd : IsString cmd) :
    (commandTable (excpp (coshellSource pre post items))).Perm (items.map entryFor) ∧
    ∀ rounds, items.length ≤ rounds →
      ∃ r, csSearchCommand (commandTable (excpp (coshellSource pre post items))) cmd rounds = some r ∧
        (∀ i, r = some i → ∃ e, (commandTable (excpp (coshellSource pre post items)))[i]? = some e ∧ e.cmd = cmd) ∧
        (r = none → ∀ item ∈ items, item.1 ≠ cmd) := by
  have hperm : (commandTable (excpp (coshellSource pre post items))).Perm (items.map entryFor) := table_perm hpre hnames
  have hpairs : (commandTable (excpp (coshellSource pre post items))).Pairwise fun e e' => strcmp e.cmd e'.cmd < 0 :=
    table_sorted hpre hnames hdistinct
  have hsorted := List.pairwise_iff_getElem.mp hpairs
  have hstring : ∀ e ∈ commandTable (excpp (coshellSource pre post items)), IsString e.cmd := by
    intro e he
    obtain ⟨i, hi, rfl⟩ := table_names hpre hnames he
    exact isString_of_name (hnames i hi).2
  refine ⟨hperm, fun rounds hrounds => ?_⟩
  generalize commandTable (excpp (coshellSource pre post items)) = table at *
  have hlen : table.length = items.length := by rw [hperm.length_eq, List.length_map]
  have hpos : 0 < table.length := hlen ▸ List.length_pos_iff.mpr hne
  let cmp : Nat → Int := fun i => strcmp cmd ((table[i]?.map CommandEntry.cmd).getD [])
  have hcmp : ∀ i (h : i < table.length), cmp i = strcmp cmd table[i].cmd := by
    intro i h
    simp only [cmp, List.getElem?_eq_getElem h, Option.map_some, Option.getD_some]
  have hprobe : ∀ i < table.length, (table[i]?.map fun e => strcmp cmd e.cmd) = some (cmp i) := by
    intro i h
    rw [hcmp i h, List.getElem?_eq_getElem h, Option.map_some]
  have hmono : ∀ i j, i < j → j < table.length → cmp i ≤ 0 → cmp j < 0 := by
    intro i j hij hj hi
    have hi' : i < table.length := Nat.lt_trans hij hj
    rw [hcmp i hi'] at hi
    rw [hcmp j hj]
    exact strcmp_trans hcmd (hstring _ (List.getElem_mem hi')) (hstring _ (List.getElem_mem hj)) hi
      (hsorted i j hi' hj hij)
  obtain ⟨r, hr, hfinds⟩ := Bisect.search_spec hprobe hmono rounds 0 table.length hpos (Nat.le_refl _) (by omega)
    (fun i hi => absurd hi (Nat.not_lt_zero i)) fun i h1 h2 => absurd h2 (by omega)
  refine ⟨r, ?_, ?_, ?_⟩
  · rw [csSearchCommand, searchLoop_eq]
    exact hr
  · rintro i rfl
    obtain ⟨hi, hzero⟩ := hfinds
    rw [hcmp i hi] at hzero
    exact ⟨table[i], List.getElem?_eq_getElem hi, ((strcmp_eq hcmd (hstring _ (List.getElem_mem hi))).mp hzero).symm⟩
  · rintro rfl item hitem rfl
    obtain ⟨i, hi, e⟩ := List.getElem_of_mem (hperm.mem_iff.mpr (List.mem_map_of_mem hitem))
    apply hfinds i hi
    rw [hcmp i hi, e]
    exact (strcmp_eq hcmd hcmd).mpr rfl

/-- `cls` and `clsx`, in the other order -/
def twoCommands : List (List Byte × List Byte) :=
  [([0x63, 0x6c, 0x73, 0x78], [0x20, 0x7d, 0x0d, 0x0a]), ([0x63, 0x6c, 0x73], [0x20, 0x7d, 0x2c, 0x0a])]

theorem search_finds_twoCommands :
    (commandTable (excpp (coshellSource [] [] twoCommands))).Perm (twoCommands.map entryFor) ∧
    ∀ rounds, twoCommands.length ≤ rounds →
      ∃ r, csSearchCommand (commandTable (excpp (coshellSource [] [] twoCommands))) [0x63, 0x6c, 0x73] rounds = some r ∧
        (∀ i, r = some i →
          ∃ e, (commandTable (excpp (coshellSource [] [] twoCommands)))[i]? = some e ∧ e.cmd = [0x63, 0x6c, 0x73]) ∧
        (r = none → ∀ item ∈ twoCommands, item.1 ≠ [0x63, 0x6c, 0x73]) := by
  have hnames : ∀ i ∈ twoCommands, IsName i.1 := by
    simp [twoCommands, IsName, NameChar]
  refine search_finds (fun l hl => absurd hl List.not_mem_nil) (by decide) hnames (by decide) ?_
  simp [IsString]

end Clubcos
