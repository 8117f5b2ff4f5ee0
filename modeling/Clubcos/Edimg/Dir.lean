import Clubcos.Edimg.Fat

/-!
# The root directory

* `Image.Live`, `Image.IsFile`   the entries in use, and those that are files;
* `dir_search_some`, `dir_search_none`   the first file of a name;
* `dir_create_spec`   **the file of a name**, made if there is none and an entry is left.
-/

set_option linter.unusedVariables false

namespace Clubcos.Edimg
open Bytes Chain

/-! ## entries -/

def Image.entry (s : Image) (k : Nat) : Nat := s.dir0 + 32 * k

def Image.entries (s : Image) : Nat := (s.clu0002 - s.dir0) / 32

def Image.name (s : Image) (k : Nat) : List (BitVec 8) := read s.imgbuf0 (s.entry k) 11
def Image.attr (s : Image) (k : Nat) : BitVec 8 := s.imgbuf0 (s.entry k + 11)
def Image.start (s : Image) (k : Nat) : Nat := s.word (s.entry k + 0x1a)
def Image.size (s : Image) (k : Nat) : Nat := s.dword (s.entry k + 0x1c)

/-- An entry that begins with 0 ends the directory. -/
def Image.Reached (s : Image) (k : Nat) : Prop := k < s.entries ∧ ∀ i < k + 1, s.imgbuf0 (s.entry i) ≠ 0

/-- An entry that begins with `0xe5` has been deleted. -/
def Image.Live (s : Image) (k : Nat) : Prop := s.Reached k ∧ s.imgbuf0 (s.entry k) ≠ 0xe5

/-- neither a volume label nor a directory -/
def Image.IsFile (s : Image) (k : Nat) : Prop := s.Live k ∧ s.attr k &&& 0xd8 = 0

instance (s : Image) (k : Nat) : Decidable (s.Reached k) := inferInstanceAs (Decidable (_ ∧ _))
instance (s : Image) (k : Nat) : Decidable (s.Live k) := inferInstanceAs (Decidable (_ ∧ _))
instance (s : Image) (k : Nat) : Decidable (s.IsFile k) := inferInstanceAs (Decidable (_ ∧ _))

/-- the parts of an image do not overlap and lie in `imgbuf0` -/
structure Geometry (s : Image) : Prop where
  flag : s.flag &&& 0x03 ≠ 0
  dir : s.clu0002 = s.dir0 + 32 * s.entries
  entries : 1 ≤ s.entries
  cluster : 0 < s.len_clu
  limit : 2 ≤ s.limit_fat
  limit_le : s.limit_fat ≤ 0xfff7
  fits : s.clu0002 + (s.limit_fat - 2) * s.len_clu ≤ SIZ_IMGBUF

/-- where the parts of an image are -/
structure Places where
  flag : Nat
  len_sec : Nat
  len_clu : Nat
  BPB : Nat
  fat0 : Nat
  fat1 : Nat
  dir0 : Nat
  clu0002 : Nat

def Image.places (s : Image) : Places := ⟨s.flag, s.len_sec, s.len_clu, s.BPB, s.fat0, s.fat1, s.dir0, s.clu0002⟩

structure SameLayout (s s' : Image) : Prop where
  places : s'.places = s.places
  limit_fat : s'.limit_fat = s.limit_fat
  len_imgbuf : s'.len_imgbuf = s.len_imgbuf

variable {s s' : Image}

theorem SameLayout.refl (s : Image) : SameLayout s s := ⟨rfl, rfl, rfl⟩

theorem SameLayout.trans {s'' : Image} (h : SameLayout s s') (h' : SameLayout s' s'') : SameLayout s s'' :=
  ⟨h'.places.trans h.places, h'.limit_fat.trans h.limit_fat, h'.len_imgbuf.trans h.len_imgbuf⟩

theorem SameLayout.dir0 (h : SameLayout s s') : s'.dir0 = s.dir0 := congrArg Places.dir0 h.places

theorem SameLayout.clu0002 (h : SameLayout s s') : s'.clu0002 = s.clu0002 := congrArg Places.clu0002 h.places

theorem SameLayout.len_clu (h : SameLayout s s') : s'.len_clu = s.len_clu := congrArg Places.len_clu h.places

theorem SameLayout.flag (h : SameLayout s s') : s'.flag = s.flag := congrArg Places.flag h.places

theorem SameLayout.entry (h : SameLayout s s') (k : Nat) : s'.entry k = s.entry k := by
  rw [Image.entry, h.dir0]
  rfl

theorem SameLayout.entries (h : SameLayout s s') : s'.entries = s.entries := by
  rw [Image.entries, h.dir0, h.clu0002]
  rfl

theorem SameLayout.clusterAt (h : SameLayout s s') (j : Nat) : s'.clusterAt j = s.clusterAt j := by
  rw [Image.clusterAt, h.clu0002, h.len_clu]
  rfl

theorem SameLayout.geometry (h : SameLayout s s') (hg : Geometry s) : Geometry s' where
  flag := h.flag ▸ hg.flag
  dir := by rw [h.clu0002, h.dir0, h.entries, hg.dir]
  entries := h.entries ▸ hg.entries
  cluster := h.len_clu ▸ hg.cluster
  limit := h.limit_fat ▸ hg.limit
  limit_le := h.limit_fat ▸ hg.limit_le
  fits := by rw [h.clu0002, h.limit_fat, h.len_clu]; exact hg.fits

theorem sameLayout_store (s : Image) (a : Nat) (bs : List (BitVec 8)) : SameLayout s (s.store a bs) :=
  ⟨rfl, rfl, rfl⟩

theorem Geometry.dir_le (h : Geometry s) : s.dir0 ≤ s.clu0002 := by
  rw [h.dir]
  exact Nat.le_add_right _ _

theorem Geometry.entry_le (h : Geometry s) {k : Nat} (hk : k < s.entries) : s.entry k + 32 ≤ s.clu0002 := by
  rw [h.dir, Image.entry]
  omega

/-- the 32 bytes of an entry are the same -/
structure SameEntry (s s' : Image) (k : Nat) : Prop where
  entry : s'.entry k = s.entry k
  bytes : ∀ i < 32, s'.imgbuf0 (s.entry k + i) = s.imgbuf0 (s.entry k + i)

theorem SameEntry.read {k : Nat} (h : SameEntry s s' k) {i n : Nat} (hn : i + n ≤ 32) :
    read s'.imgbuf0 (s'.entry k + i) n = read s.imgbuf0 (s.entry k + i) n := by
  rw [h.entry]
  apply read_congr
  intro j hj
  rw [Nat.add_assoc]
  exact h.bytes _ (by omega)

theorem SameEntry.name {k : Nat} (h : SameEntry s s' k) : s'.name k = s.name k := h.read (i := 0) (by omega)

theorem SameEntry.start {k : Nat} (h : SameEntry s s' k) : s'.start k = s.start k :=
  congrArg ofLe (h.read (i := 0x1a) (n := 2) (by omega))

theorem SameEntry.size {k : Nat} (h : SameEntry s s' k) : s'.size k = s.size k :=
  congrArg ofLe (h.read (i := 0x1c) (n := 4) (by omega))

theorem SameEntry.attr {k : Nat} (h : SameEntry s s' k) : s'.attr k = s.attr k := by
  rw [Image.attr, h.entry]
  exact h.bytes 11 (by omega)

theorem SameEntry.head {k : Nat} (h : SameEntry s s' k) : s'.imgbuf0 (s'.entry k) = s.imgbuf0 (s.entry k) := by
  rw [h.entry]
  exact h.bytes 0 (by omega)

theorem SameEntry.isFile {k : Nat} (h : SameEntry s s' k) (hl : s'.Live k ↔ s.Live k) : s'.IsFile k ↔ s.IsFile k := by
  unfold Image.IsFile
  rw [hl, h.attr]

theorem Image.Live.lt {k : Nat} (hk : s.Live k) : k < s.entries := hk.1.1

/-- The end of the directory depends on which entries begin with 0. -/
theorem Image.Reached.iff_of_heads (h : SameLayout s s') {k : Nat}
    (hz : ∀ i < k + 1, s'.imgbuf0 (s'.entry i) = 0 ↔ s.imgbuf0 (s.entry i) = 0) : s'.Reached k ↔ s.Reached k := by
  unfold Image.Reached
  rw [h.entries]
  constructor
  · rintro ⟨h1, h2⟩
    exact ⟨h1, fun i hi h0 => h2 i hi ((hz i hi).mpr h0)⟩
  · rintro ⟨h1, h2⟩
    exact ⟨h1, fun i hi h0 => h2 i hi ((hz i hi).mp h0)⟩

/-! ## names -/

theorem filenameLoop_length (name : List (BitVec 8)) : ∀ acc : List (BitVec 8), acc.length < 11 →
    (filenameLoop name acc).length ≤ 11 := by
  induction name with
  | nil => exact fun acc h => Nat.le_of_lt h
  | cons c name ih =>
    intro acc h
    rw [filenameLoop]
    have hlen : (if toUpper c = 0x2e then acc ++ List.replicate (8 - acc.length) 0x20 else acc ++ [toUpper c]).length
        ≤ 11 := by
      split
      · rw [List.length_append, List.length_replicate]
        omega
      · rw [List.length_append, List.length_singleton]
        omega
    generalize (if toUpper c = 0x2e then acc ++ List.replicate (8 - acc.length) 0x20 else acc ++ [toUpper c]) = acc' at hlen
    by_cases hlt : acc'.length < 11
    · rw [if_pos hlt]
      exact ih acc' hlt
    · rw [if_neg hlt]
      exact hlen

theorem FAT_filename_length (name : List (BitVec 8)) : (FAT_filename name).length = 11 := by
  have := filenameLoop_length name [] (by simp)
  rw [FAT_filename, List.length_append, List.length_replicate]
  omega

/-- a C string that does not begin with the mark of a deleted entry -/
structure ValidName (name : List (BitVec 8)) : Prop where
  string : ∀ c ∈ name, c ≠ 0
  first : name.head? ≠ some 0xe5

/-- neither the end of the directory nor a deleted entry -/
def Proper (filename : List (BitVec 8)) : Prop := filename.length = 11 ∧ ∀ c, filename.head? = some c → c ≠ 0 ∧ c ≠ 0xe5

theorem filenameLoop_prefix (name : List (BitVec 8)) : ∀ acc : List (BitVec 8), acc <+: filenameLoop name acc := by
  induction name with
  | nil => exact fun acc => List.prefix_rfl
  | cons c name ih =>
    intro acc
    rw [filenameLoop]
    have hacc : acc <+: (if toUpper c = 0x2e then acc ++ List.replicate (8 - acc.length) 0x20
        else acc ++ [toUpper c]) := by
      split <;> exact List.prefix_append _ _
    generalize (if toUpper c = 0x2e then acc ++ List.replicate (8 - acc.length) 0x20 else acc ++ [toUpper c]) = acc' at hacc
    by_cases hlt : acc'.length < 11
    · rw [if_pos hlt]
      exact hacc.trans (ih acc')
    · rw [if_neg hlt]
      exact hacc

theorem toUpper_proper : ∀ c : BitVec 8, c ≠ 0 → c ≠ 0xe5 → toUpper c ≠ 0 ∧ toUpper c ≠ 0xe5 := by decide +kernel

theorem ValidName.proper {name : List (BitVec 8)} (h : ValidName name) : Proper (FAT_filename name) := by
  refine ⟨FAT_filename_length name, ?_⟩
  cases name with
  | nil =>
    intro c hc
    obtain rfl : (0x20 : BitVec 8) = c := by simpa [FAT_filename, filenameLoop] using hc
    decide
  | cons c name =>
    have hc0 := h.string c List.mem_cons_self
    have hce : c ≠ 0xe5 := fun hc => h.first (by rw [hc]; rfl)
    have hup := toUpper_proper c hc0 hce
    -- the first character is written first, and what is written stays
    obtain ⟨d, ds, hd, hd0⟩ : ∃ d ds, filenameLoop (c :: name) [] = d :: ds ∧ d ≠ 0 ∧ d ≠ 0xe5 := by
      by_cases hdot : toUpper c = 0x2e
      · rw [filenameLoop, if_pos hdot, if_pos (by simp)]
        obtain ⟨t, ht⟩ := filenameLoop_prefix name ([] ++ List.replicate (8 - ([] : List (BitVec 8)).length) 0x20)
        exact ⟨0x20, _, ht.symm, by decide⟩
      · rw [filenameLoop, if_neg hdot, if_pos (by simp)]
        obtain ⟨t, ht⟩ := filenameLoop_prefix name ([] ++ [toUpper c])
        exact ⟨toUpper c, _, ht.symm, hup⟩
    intro b hb
    rw [FAT_filename, hd, List.cons_append, List.head?_cons, Option.some_inj] at hb
    exact hb ▸ hd0

/-! ## dir_search -/

theorem foldl_or_eq_zero (l : List Nat) (f : Nat → BitVec 8) : ∀ c : BitVec 8,
    l.foldl (fun c i => c ||| f i) c = 0 ↔ c = 0 ∧ ∀ i ∈ l, f i = 0 := by
  induction l with
  | nil => simp
  | cons a l ih =>
    intro c
    rw [List.foldl_cons, ih]
    simp [and_assoc]

theorem entryDiff_eq_zero (m : Nat → BitVec 8) (p : Nat) {filename : List (BitVec 8)} (hf : filename.length = 11)
    (attr_mask attr_comp : BitVec 8) : entryDiff m p filename attr_mask attr_comp = 0 ↔
      read m p 11 = filename ∧ m (p + 11) &&& attr_mask = attr_comp := by
  have hor : ∀ a b : BitVec 8, a ||| b = 0 ↔ a = 0 ∧ b = 0 := fun a b => BitVec.or_eq_zero_iff
  have hxor : ∀ a b : BitVec 8, a ^^^ b = 0 ↔ a = b := fun a b => BitVec.xor_eq_zero_iff
  rw [entryDiff, hor, foldl_or_eq_zero, hxor, read_eq_iff hf]
  have hbyte : ∀ i < 11, m (p + i) ^^^ filename.getD i 0 = 0 ↔ filename[i]? = some (m (p + i)) := by
    intro i hi
    rw [hxor, List.getD_eq_getElem?_getD, List.getElem?_eq_getElem (by omega), Option.getD_some, Option.some_inj]
    exact eq_comm
  constructor
  · rintro ⟨⟨_, h1⟩, h2⟩
    exact ⟨fun i hi => (hbyte i hi).mp (h1 i (List.mem_range.mpr hi)), h2⟩
  · rintro ⟨h1, h2⟩
    exact ⟨⟨rfl, fun i hi => (hbyte i (List.mem_range.mp hi)).mpr (h1 i (List.mem_range.mp hi))⟩, h2⟩

/-- the entry is a file of this name, if it is reached -/
def Image.Matches (s : Image) (filename : List (BitVec 8)) (k : Nat) : Prop :=
  s.name k = filename ∧ s.attr k &&& 0xd8 = 0

theorem searchLoop_spec (hg : Geometry s) {filename : List (BitVec 8)} (hf : filename.length = 11) : ∀ (fuel k : Nat),
    k < s.entries → s.entries - k ≤ fuel →
    (∀ p, searchLoop s filename 0xd8 0 fuel (s.entry k) = some p → ∃ i, p = s.entry i ∧ k ≤ i ∧ i < s.entries ∧
      (∀ i', k ≤ i' → i' ≤ i → s.imgbuf0 (s.entry i') ≠ 0) ∧ s.Matches filename i) ∧
    (searchLoop s filename 0xd8 0 fuel (s.entry k) = none → ∀ i, k ≤ i → i < s.entries →
      (∀ i', k ≤ i' → i' ≤ i → s.imgbuf0 (s.entry i') ≠ 0) → ¬ s.Matches filename i) := by
  intro fuel
  induction fuel with
  | zero =>
    intro k hk hfuel
    omega
  | succ fuel ih =>
    intro k hk hfuel
    have hmatch : entryDiff s.imgbuf0 (s.entry k) filename 0xd8 0 = 0 ↔ s.Matches filename k :=
      entryDiff_eq_zero s.imgbuf0 (s.entry k) hf 0xd8 0
    have hnext : s.entry k + 32 = s.entry (k + 1) := by
      rw [Image.entry, Image.entry]
      omega
    have hend : s.entry (k + 1) < s.clu0002 ↔ k + 1 < s.entries := by
      rw [hg.dir, Image.entry]
      omega
    rw [searchLoop]
    by_cases h0 : s.imgbuf0 (s.entry k) = 0
    · rw [if_pos h0]
      refine ⟨by simp, fun _ i hi _ hnz => ?_⟩
      exact absurd h0 (hnz k (Nat.le_refl k) hi)
    · rw [if_neg h0]
      by_cases hm : s.Matches filename k
      · rw [if_pos (hmatch.mpr hm)]
        refine ⟨fun p hp => ?_, by simp⟩
        exact ⟨k, (Option.some.inj hp).symm, Nat.le_refl k, hk, fun i' h1 h2 => Nat.le_antisymm h1 h2 ▸ h0, hm⟩
      · rw [if_neg (mt hmatch.mp hm), hnext]
        by_cases hlast : k + 1 < s.entries
        · rw [if_pos (hend.mpr hlast)]
          obtain ⟨hsome, hnone⟩ := ih (k + 1) hlast (by omega)
          constructor
          · intro p hp
            obtain ⟨i, hp, hki, hi, hnz, hmi⟩ := hsome p hp
            refine ⟨i, hp, by omega, hi, fun i' h1 h2 => ?_, hmi⟩
            rcases Nat.eq_or_lt_of_le h1 with rfl | h1
            · exact h0
            · exact hnz i' h1 h2
          · intro hp i hi hlt hnz hmi
            rcases Nat.eq_or_lt_of_le hi with rfl | hi
            · exact hm hmi
            · exact hnone hp i hi hlt (fun i' h1 h2 => hnz i' (by omega) h2) hmi
        · rw [if_neg (mt hend.mp hlast)]
          refine ⟨by simp, fun _ i hi hlt _ hmi => ?_⟩
          have : i = k := by omega
          exact hm (this ▸ hmi)

theorem dir_search_eq (hg : Geometry s) (name : List (BitVec 8)) :
    dir_search s name 0xd8 0 = searchLoop s (FAT_filename name) 0xd8 0 (s.clu0002 - s.dir0 + 1) (s.entry 0) := by
  rw [dir_search, if_neg hg.flag]
  rfl

/-- an entry that is reached and has a proper name is in use -/
theorem Image.Matches.isFile {filename : List (BitVec 8)} {k : Nat} (hp : Proper filename)
    (hm : s.Matches filename k) (hr : s.Reached k) : s.IsFile k := by
  refine ⟨⟨hr, ?_⟩, hm.2⟩
  have hhead : filename.head? = some (s.imgbuf0 (s.entry k)) := by
    rw [← hm.1]
    rfl
  exact (hp.2 _ hhead).2

theorem dir_search_some (hg : Geometry s) {name : List (BitVec 8)} (hn : ValidName name) {p : Nat}
    (h : dir_search s name 0xd8 0 = some p) : ∃ k, p = s.entry k ∧ s.IsFile k ∧ s.name k = FAT_filename name := by
  have hdir := hg.dir
  rw [dir_search_eq hg] at h
  obtain ⟨k, hk, _, hlt, hnz, hm⟩ := (searchLoop_spec hg (FAT_filename_length name) _ 0 hg.entries (by omega)).1 p h
  exact ⟨k, hk, hm.isFile hn.proper ⟨hlt, fun i hi => hnz i (Nat.zero_le i) (Nat.le_of_lt_succ hi)⟩, hm.1⟩

theorem dir_search_none (hg : Geometry s) {name : List (BitVec 8)} (h : dir_search s name 0xd8 0 = none) (k : Nat)
    (hk : s.IsFile k) : s.name k ≠ FAT_filename name := by
  have hdir := hg.dir
  rw [dir_search_eq hg] at h
  intro hname
  exact (searchLoop_spec hg (FAT_filename_length name) _ 0 hg.entries (by omega)).2 h k (Nat.zero_le k) hk.1.lt
    (fun i _ hi => hk.1.1.2 i (Nat.lt_succ_of_le hi)) ⟨hname, hk.2⟩

/-! ## dir_create -/

/-- the loop stops at the first entry that is not in use -/
theorem createLoop_spec (hg : Geometry s) : ∀ (fuel k : Nat), k ≤ s.entries → s.entries - k < fuel →
    (∀ r, createLoop s fuel (s.entry k) = .ok r → ∃ i, r.1 = s.entry i ∧ k ≤ i ∧ i < s.entries ∧
      (∀ i', k ≤ i' → i' < i → s.imgbuf0 (s.entry i') ≠ 0 ∧ s.imgbuf0 (s.entry i') ≠ 0xe5) ∧
      ((s.imgbuf0 (s.entry i) = 0 ∧ r.2 = if i + 1 < s.entries then s.store (s.entry (i + 1)) [0] else s) ∨
        (s.imgbuf0 (s.entry i) = 0xe5 ∧ r.2 = s))) ∧
    (∀ e, createLoop s fuel (s.entry k) = .error e → e = .errend 18 ∧ ∀ i, k ≤ i → i < s.entries →
      s.imgbuf0 (s.entry i) ≠ 0 ∧ s.imgbuf0 (s.entry i) ≠ 0xe5) := by
  intro fuel
  induction fuel with
  | zero =>
    intro k hk hfuel
    omega
  | succ fuel ih =>
    intro k hk hfuel
    have hnext : s.entry k + 32 = s.entry (k + 1) := by
      rw [Image.entry, Image.entry]
      omega
    have hend : ∀ i, s.entry i < s.clu0002 ↔ i < s.entries := by
      intro i
      rw [hg.dir, Image.entry]
      omega
    rw [createLoop, hnext]
    simp only [hend]
    by_cases hlt : k < s.entries
    · rw [if_pos hlt]
      by_cases h0 : s.imgbuf0 (s.entry k) = 0
      · rw [if_pos h0]
        refine ⟨fun r hr => ?_, by simp⟩
        rw [← Except.ok.inj hr]
        exact ⟨k, rfl, Nat.le_refl k, hlt, fun i' h1 h2 => absurd h2 (Nat.not_lt_of_le h1), Or.inl ⟨h0, rfl⟩⟩
      · rw [if_neg h0]
        by_cases he : s.imgbuf0 (s.entry k) = 0xe5
        · rw [if_pos he]
          refine ⟨fun r hr => ?_, by simp⟩
          rw [← Except.ok.inj hr]
          exact ⟨k, rfl, Nat.le_refl k, hlt, fun i' h1 h2 => absurd h2 (Nat.not_lt_of_le h1), Or.inr ⟨he, rfl⟩⟩
        · rw [if_neg he]
          obtain ⟨hok, herr⟩ := ih (k + 1) hlt (by omega)
          constructor
          · intro r hr
            obtain ⟨i, h1, h2, h3, h4, h5⟩ := hok r hr
            refine ⟨i, h1, by omega, h3, fun i' hi1 hi2 => ?_, h5⟩
            rcases Nat.eq_or_lt_of_le hi1 with rfl | hi1
            · exact ⟨h0, he⟩
            · exact h4 i' hi1 hi2
          · intro e hr
            obtain ⟨h1, h2⟩ := herr e hr
            refine ⟨h1, fun i hi1 hi2 => ?_⟩
            rcases Nat.eq_or_lt_of_le hi1 with rfl | hi1
            · exact ⟨h0, he⟩
            · exact h2 i hi1 hi2
    · rw [if_neg hlt]
      refine ⟨by simp, fun e he => ⟨(Except.error.inj he).symm, fun i h1 h2 => ?_⟩⟩
      omega

/-! ## a whole entry is written -/

theorem Image.entry_store (s : Image) (a : Nat) (bs : List (BitVec 8)) (i : Nat) : (s.store a bs).entry i = s.entry i := rfl

section
variable {bs : List (BitVec 8)} (hlen : bs.length = 32) (k : Nat)
include hlen

theorem sameEntry_store {i : Nat} (hik : i ≠ k) : SameEntry s (s.store (s.entry k) bs) i := by
  refine ⟨rfl, fun j hj => write_apart _ _ ?_⟩
  unfold Image.entry
  omega

theorem read_store_entry {i n : Nat} (hin : i + n ≤ 32) :
    read (s.store (s.entry k) bs).imgbuf0 (s.entry k + i) n = (bs.drop i).take n := by
  rw [read_eq_iff (by rw [List.length_take, List.length_drop]; omega)]
  intro j hj
  have hij : (s.store (s.entry k) bs).imgbuf0 (s.entry k + (i + j)) = bs[i + j] :=
    write_inside s.imgbuf0 (s.entry k) bs (by omega)
  rw [Nat.add_assoc, hij, List.getElem?_take_of_lt hj, List.getElem?_drop, List.getElem?_eq_getElem]

theorem store_entry_outside (hk : k < s.entries) (hg : Geometry s) {a : Nat} (ha : a < s.dir0 ∨ s.clu0002 ≤ a) :
    (s.store (s.entry k) bs).imgbuf0 a = s.imgbuf0 a := by
  have := hg.entry_le hk
  refine write_apart _ _ ?_
  unfold Image.entry at this ⊢
  omega

end

/-- the end of the directory is put behind entry `k` if that was the end -/
def Image.moveEnd (s : Image) (k : Nat) : Image :=
  if s.imgbuf0 (s.entry k) = 0 ∧ k + 1 < s.entries then s.store (s.entry (k + 1)) [0] else s

theorem moveEnd_rest (s : Image) (k : Nat) : s.moveEnd k = { s with imgbuf0 := (s.moveEnd k).imgbuf0 } := by
  unfold Image.moveEnd
  split <;> rfl

theorem moveEnd_layout (s : Image) (k : Nat) : SameLayout s (s.moveEnd k) := by
  rw [moveEnd_rest]
  exact ⟨rfl, rfl, rfl⟩

theorem moveEnd_apart (s : Image) (k : Nat) {a : Nat} (ha : s.imgbuf0 (s.entry k) = 0 → k + 1 < s.entries →
    a ≠ s.entry (k + 1)) : (s.moveEnd k).imgbuf0 a = s.imgbuf0 a := by
  unfold Image.moveEnd
  split
  · rename_i h
    refine write_apart _ _ ?_
    have := ha h.1 h.2
    rw [List.length_singleton]
    omega
  · rfl

/-- a new file without clusters in entry `k` -/
structure Created (s : Image) (filename : List (BitVec 8)) (s' : Image) (k : Nat) : Prop where
  rest : s' = { s with imgbuf0 := s'.imgbuf0 }
  outside : ∀ a, a < s.dir0 ∨ s.clu0002 ≤ a → s'.imgbuf0 a = s.imgbuf0 a
  free : ¬ s.Live k
  live : ∀ i, s'.Live i ↔ s.Live i ∨ i = k
  same : ∀ i, s.Live i → SameEntry s s' i
  name : s'.name k = filename
  attr : s'.attr k = 0
  start : s'.start k = 0
  size : s'.size k = 0

theorem Created.layout {filename : List (BitVec 8)} {k : Nat} (h : Created s filename s' k) : SameLayout s s' := by
  rw [h.rest]
  exact ⟨rfl, rfl, rfl⟩

section
variable (hg : Geometry s) {filename : List (BitVec 8)} (hp : Proper filename) {k : Nat} (hk : k < s.entries)
  (hused : ∀ i < k, s.imgbuf0 (s.entry i) ≠ 0 ∧ s.imgbuf0 (s.entry i) ≠ 0xe5)
  (hfree : s.imgbuf0 (s.entry k) = 0 ∨ s.imgbuf0 (s.entry k) = 0xe5)

def blankEntry (filename : List (BitVec 8)) : List (BitVec 8) := filename ++ (0 : BitVec 8) :: List.replicate 20 0

include hp in
theorem blankEntry_length : (blankEntry filename).length = 32 := by
  simp [blankEntry, hp.1]

include hp in
/-- the entry begins with a character of the name -/
theorem createdHead : ((s.moveEnd k).store (s.entry k) (blankEntry filename)).imgbuf0 (s.entry k) ≠ 0 ∧
    ((s.moveEnd k).store (s.entry k) (blankEntry filename)).imgbuf0 (s.entry k) ≠ 0xe5 := by
  have hlen := blankEntry_length hp
  have hhead : ((s.moveEnd k).store (s.entry k) (blankEntry filename)).imgbuf0 (s.entry k) = (blankEntry filename)[0] :=
    write_inside (s.moveEnd k).imgbuf0 (s.entry k) (blankEntry filename) (i := 0) (by omega)
  rw [hhead]
  apply hp.2
  rw [List.head?_eq_getElem?, List.getElem?_eq_getElem (by have := hp.1; omega), Option.some_inj]
  unfold blankEntry
  rw [List.getElem_append_left]

include hused hfree in
theorem created_live_iff (hk : k < s.entries) (hp : Proper filename) (i : Nat) :
    ((s.moveEnd k).store (s.entry k) (blankEntry filename)).Live i ↔ s.Live i ∨ i = k := by
  have hlen := blankEntry_length hp
  have hl := moveEnd_layout s k
  have hself := createdHead (s := s) (k := k) hp
  generalize hs' : (s.moveEnd k).store (s.entry k) (blankEntry filename) = s' at hself
  have hl' : SameLayout s s' := by
    rw [← hs']
    exact hl.trans (sameLayout_store _ _ _)
  have hother : ∀ j, j ≠ k → s'.imgbuf0 (s'.entry j) = (s.moveEnd k).imgbuf0 (s.entry j) := by
    intro j hj
    have h := (sameEntry_store (s := s.moveEnd k) hlen k hj).head
    rw [hl.entry k, hs'] at h
    rw [h, hl.entry j]
  have hsame : ∀ j, j ≠ k → (s.imgbuf0 (s.entry k) = 0 → j ≠ k + 1) → s'.imgbuf0 (s'.entry j) = s.imgbuf0 (s.entry j) := by
    intro j hj hj1
    rw [hother j hj]
    refine moveEnd_apart s k fun h0 _ => ?_
    have := hj1 h0
    unfold Image.entry
    omega
  rw [← hl'.entry k] at hself
  have hnz : ∀ j < k + 1, s'.imgbuf0 (s'.entry j) ≠ 0 ∧ s'.imgbuf0 (s'.entry j) ≠ 0xe5 := by
    intro j hj
    by_cases hjk : j = k
    · rw [hjk]
      exact hself
    · rw [hsame j hjk (by omega)]
      exact hused j (by omega)
  have hupto : ∀ i < k + 1, s'.Live i := fun i hi =>
    ⟨⟨by rw [hl'.entries]; omega, fun j hj => (hnz j (by omega)).1⟩, (hnz i hi).2⟩
  rcases hfree with h0 | he
  · -- `k` was the end, and now `k + 1` is
    constructor
    · intro hi
      rcases Nat.lt_trichotomy i k with h | h | h
      · exact Or.inl ⟨⟨by omega, fun j hj => (hused j (by omega)).1⟩, (hused i h).2⟩
      · exact Or.inr h
      · have hlt : k + 1 < s.entries := by
          have := hi.lt
          rw [hl'.entries] at this
          omega
        refine absurd ?_ (hi.1.2 (k + 1) (by omega))
        rw [hother (k + 1) (by omega), Image.moveEnd, if_pos ⟨h0, hlt⟩]
        exact write_inside s.imgbuf0 (s.entry (k + 1)) [0] (i := 0) (by simp)
    · rintro (hi | rfl)
      · refine hupto i ?_
        by_contra hc
        exact hi.1.2 k (by omega) h0
      · exact hupto i (Nat.lt_succ_self i)
  · have hzero : s.imgbuf0 (s.entry k) ≠ 0 := by
      rw [he]
      decide
    have hreach : s'.Reached i ↔ s.Reached i := by
      refine Image.Reached.iff_of_heads hl' fun j hj => ?_
      by_cases hjk : j = k
      · rw [hjk]
        exact iff_of_false hself.1 hzero
      · rw [hsame j hjk fun h => absurd h hzero]
    by_cases hik : i = k
    · rw [hik]
      exact iff_of_true (hupto k (Nat.lt_succ_self k)) (Or.inr rfl)
    · unfold Image.Live
      rw [hreach, hsame i hik fun h => absurd h hzero]
      simp [hik]

include hg hused hfree in
theorem created_spec (hk : k < s.entries) (hp : Proper filename) :
    Created s filename ((s.moveEnd k).store (s.entry k) (blankEntry filename)) k := by
  have hlen := blankEntry_length hp
  have hl := moveEnd_layout s k
  have hnot : ¬ s.Live k := by
    rintro ⟨hr, he⟩
    exact hfree.elim (hr.2 k (Nat.lt_succ_self k)) he
  have hread : ∀ i n, i + n ≤ 32 → read ((s.moveEnd k).store (s.entry k) (blankEntry filename)).imgbuf0
      (s.entry k + i) n = ((blankEntry filename).drop i).take n := by
    intro i n hin
    rw [← hl.entry k]
    exact read_store_entry hlen k hin
  have hentry : ((s.moveEnd k).store (s.entry k) (blankEntry filename)).entry k = s.entry k := by
    rw [Image.entry_store, hl.entry]
  have hdrop : ∀ i, 11 ≤ i → (blankEntry filename).drop i = ((0 : BitVec 8) :: List.replicate 20 0).drop (i - 11) := by
    intro i hi
    obtain ⟨j, rfl⟩ := Nat.exists_eq_add_of_le hi
    have := hp.1
    rw [blankEntry, Nat.add_sub_cancel_left, List.drop_append, List.drop_eq_nil_of_le (by omega), List.nil_append]
    congr 1
    omega
  refine ⟨?_, ?_, hnot, created_live_iff hused hfree hk hp, ?_, ?_, ?_, ?_, ?_⟩
  · rw [moveEnd_rest]
    rfl
  · intro a ha
    rw [← hl.entry k]
    have hk' : k < (s.moveEnd k).entries := by rwa [hl.entries]
    rw [store_entry_outside hlen k hk' (hl.geometry hg) (by rwa [hl.dir0, hl.clu0002])]
    refine moveEnd_apart s k fun _ hlt => ?_
    have := hg.entry_le hlt
    unfold Image.entry at this ⊢
    omega
  · intro i hi
    have hik : i ≠ k := fun h => hnot (h ▸ hi)
    refine ⟨by rw [Image.entry_store, hl.entry], fun j hj => ?_⟩
    rw [← hl.entry k, ← hl.entry i, (sameEntry_store (s := s.moveEnd k) hlen k hik).bytes j hj, hl.entry i]
    refine moveEnd_apart s k fun h0 _ => ?_
    have : i < k := by
      by_contra hc
      exact hi.1.2 k (by omega) h0
    unfold Image.entry
    omega
  · have h := hread 0 11 (by omega)
    rw [Nat.add_zero, List.drop_zero] at h
    rw [Image.name, hentry, h]
    exact List.take_left' hp.1
  · have h := hread 11 1 (by omega)
    rw [hdrop 11 (by omega)] at h
    rw [Image.attr, hentry]
    exact List.head_eq_of_cons_eq h
  · rw [Image.start, hentry, Image.word, hread 0x1a 2 (by omega), hdrop _ (by omega)]
    rfl
  · rw [Image.size, hentry, Image.dword, hread 0x1c 4 (by omega), hdrop _ (by omega)]
    rfl

end

theorem moveEnd_eq {k : Nat} {s₁ : Image} (h : (s.imgbuf0 (s.entry k) = 0 ∧
    s₁ = if k + 1 < s.entries then s.store (s.entry (k + 1)) [0] else s) ∨
    (s.imgbuf0 (s.entry k) = 0xe5 ∧ s₁ = s)) : s₁ = s.moveEnd k := by
  unfold Image.moveEnd
  rcases h with ⟨h0, rfl⟩ | ⟨he, rfl⟩
  · simp [h0]
  · rw [he, if_neg (by simp)]

/-- **`dir_create`** finds the file, or makes a new entry for it, or all entries are in use. -/
theorem dir_create_spec (hg : Geometry s) {name : List (BitVec 8)} (hn : ValidName name) :
    (∀ r, dir_create s name 0xd8 0 0 = .ok r → ∃ k, r.1 = s.entry k ∧
      ((r.2 = s ∧ s.IsFile k ∧ s.name k = FAT_filename name) ∨
        ((∀ i, s.IsFile i → s.name i ≠ FAT_filename name) ∧ Created s (FAT_filename name) r.2 k))) ∧
    (∀ e, dir_create s name 0xd8 0 0 = .error e → e = .errend 18 ∧
      (∀ i, s.IsFile i → s.name i ≠ FAT_filename name) ∧ ∀ i < s.entries, s.Live i) := by
  have hdir := hg.dir
  unfold dir_create
  cases hsearch : dir_search s name 0xd8 0 with
  | some p =>
    obtain ⟨k, hp, hfile, hname⟩ := dir_search_some hg hn hsearch
    refine ⟨fun r hr => ⟨k, ?_⟩, by simp⟩
    rw [← Except.ok.inj hr]
    exact ⟨hp, Or.inl ⟨rfl, hfile, hname⟩⟩
  | none =>
    have hnone := dir_search_none hg hsearch
    obtain ⟨hok, herr⟩ := createLoop_spec hg (s.clu0002 - s.dir0 + 1) 0 (Nat.zero_le _) (by omega)
    have hstart : s.entry 0 = s.dir0 := rfl
    rw [hstart] at hok herr
    cases hloop : createLoop s (s.clu0002 - s.dir0 + 1) s.dir0 with
    | error e =>
      refine ⟨by simp [Except.map], fun e' he' => ?_⟩
      obtain ⟨he, hall⟩ := herr e hloop
      refine ⟨(Except.error.inj he').symm.trans he, hnone, fun i hi => ⟨⟨hi, fun j hj => ?_⟩, ?_⟩⟩
      · exact (hall j (Nat.zero_le j) (by omega)).1
      · exact (hall i (Nat.zero_le i) hi).2
    | ok r₁ =>
      refine ⟨fun r hr => ?_, by simp [Except.map]⟩
      obtain ⟨k, hr1, _, hk, hused, hcase⟩ := hok r₁ hloop
      rw [← Except.ok.inj hr]
      refine ⟨k, hr1, Or.inr ⟨hnone, ?_⟩⟩
      have hfree : s.imgbuf0 (s.entry k) = 0 ∨ s.imgbuf0 (s.entry k) = 0xe5 := hcase.imp And.left And.left
      show Created s _ (r₁.2.store r₁.1 (blankEntry (FAT_filename name))) k
      rw [hr1, moveEnd_eq hcase]
      exact created_spec hg (fun i hi => hused i (Nat.zero_le i) hi) hfree hk hn.proper

end Clubcos.Edimg
