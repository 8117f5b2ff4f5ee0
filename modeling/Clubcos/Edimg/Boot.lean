import Clubcos.Edimg.Table

/-!
# The boot sector

* `bootOf`          the boot sector that `opt_imgin` takes;
* `bootOf_local`    it depends only on what is in front of the end of that boot sector;
* `readBPB_spec`    what it says about the places of the parts;
* `opt_imgin_ok`, `opt_imgin_some`   an image is loaded iff it has a boot sector, with a table that `fat` has room for.
-/

set_option linter.unusedVariables false

namespace Clubcos.Edimg
open Bytes Word

variable {m m' : Nat → BitVec 8} {p flags : Nat} {b : Bpb}

def bootOf (m : Nat → BitVec 8) (flags : Nat) : Option Bpb :=
  match skipHeaders m 129 0 with
  | .error _ => none
  | .ok bpb => (readBPB m bpb flags).or ((partition m bpb).bind fun p => readBPB m p flags)

/-! ## what it depends on -/

theorem read_local {n : Nat} (hm : ∀ a < n, m' a = m a) {a k : Nat} (h : a + k ≤ n) : read m' a k = read m a k :=
  read_congr fun i hi => hm _ (by omega)

theorem readBPB_local (hm : ∀ a, p ≤ a → a < p + 0x46 → m' a = m a) : readBPB m' p flags = readBPB m p flags := by
  have hbyte : ∀ i < 0x46, m' (p + i) = m (p + i) := fun i hi => hm _ (Nat.le_add_right p i) (Nat.add_lt_add_left hi p)
  have hread : ∀ i n, i + n ≤ 0x46 → read m' (p + i) n = read m (p + i) n := fun i n h =>
    read_congr fun x hx => hm _ (by omega) (by omega)
  unfold readBPB fatKind
  rw [hbyte 0x0b (by omega), hbyte 0x0c (by omega), hbyte 0x0d (by omega), hbyte 0x10 (by omega), hbyte 0x39 (by omega),
    hbyte 0x3a (by omega), hread 0x0e 2 (by omega), hread 0x11 2 (by omega), hread 0x16 2 (by omega),
    hread 0x13 2 (by omega), hread 0x20 4 (by omega), hread 0x36 3 (by omega), hread 0x3b 3 (by omega),
    hread 0x40 4 (by omega), hread 0x44 2 (by omega)]

theorem skipHeaders_le : ∀ {fuel bpb q : Nat}, skipHeaders m fuel bpb = .ok q → bpb ≤ q := by
  intro fuel
  induction fuel with
  | zero =>
    intro bpb q h
    cases h
  | succ fuel ih =>
    intro bpb q h
    rw [skipHeaders] at h
    split at h
    · exact (Nat.le_add_right bpb 65536).trans (ih h)
    · exact Nat.le_of_eq (Except.ok.inj h)

theorem skipHeaders_local : ∀ {fuel bpb q : Nat}, skipHeaders m fuel bpb = .ok q →
    (∀ a < q + 0x10, m' a = m a) → skipHeaders m' fuel bpb = .ok q := by
  intro fuel
  induction fuel with
  | zero =>
    intro bpb q h
    cases h
  | succ fuel ih =>
    intro bpb q h hm
    have hle := skipHeaders_le h
    rw [skipHeaders] at h ⊢
    rw [read_local hm (by omega), read_local hm (by omega)]
    split at h
    · rename_i hmagic
      rw [if_pos hmagic]
      exact ih h hm
    · rename_i hmagic
      rw [if_neg hmagic]
      exact h

theorem partition_local {bpb : Nat} (hm : ∀ a < bpb + 0x1ca, m' a = m a) : partition m' bpb = partition m bpb := by
  unfold partition
  rw [hm (bpb + 0x1c9) (by omega), read_local hm (by omega)]

/-! ## what it says -/

/-- the kind of the table: FAT16, FAT12 or SF16 -/
theorem fatKind_cases (m : Nat → BitVec 8) (p i : Nat) : (fatKind m p i).1 = 0 ∨ (fatKind m p i).1 = 1 ∨
    (fatKind m p i).1 = 2 ∨ (fatKind m p i).1 = 5 := by
  unfold fatKind
  split
  · split
    · simp
    · split
      · split <;> simp
      · split <;> simp
  · split <;> simp

/-- what a boot sector says about the image -/
structure BpbSpec (m : Nat → BitVec 8) (p flags : Nat) (b : Bpb) : Prop where
  BPB : b.places.BPB = p
  flag : b.places.flag = flags ||| 1 ∨ b.places.flag = flags ||| 2 ∨ b.places.flag = flags ||| 5
  sector : ofLe (read m (p + 0x0b) 2) = b.places.len_sec
  len_sec : 256 ≤ b.places.len_sec
  fat0 : ∃ n, b.places.fat0 = p + n * b.places.len_sec
  table : b.places.len_sec ≤ b.len_fat
  len_fat : b.len_fat = ofLe (read m (p + 0x16) 2) * b.places.len_sec
  fat1 : b.places.fat1 = b.places.fat0 ∨ b.places.fat1 = b.places.fat0 + b.len_fat
  dir0 : b.places.dir0 = b.places.fat1 + b.len_fat
  len_img : b.len_img = (imageEnd b.places.clu0002 b.limit_fat b.places.len_clu).toNat

theorem readBPB_spec (h : readBPB m p flags = some b) : BpbSpec m p flags b := by
  unfold readBPB at h
  simp only [Option.ite_none_left_eq_some, Option.some_inj] at h
  obtain ⟨hok, hkind, hb⟩ := h
  have hcases := (fatKind_cases m p _).resolve_left hkind
  have hzero : m (p + 0x0b) = 0 := by_contra fun h => hok (Or.inl h)
  rw [← hb]
  have hsecs : (m (p + 0x0c)).toNat ≠ 0 := fun h => hok (Or.inr (Or.inl (BitVec.eq_of_toNat_eq h)))
  have hfat : 0 < ofLe (read m (p + 0x16) 2) := Nat.pos_of_ne_zero fun h => hok (by simp [h])
  refine ⟨rfl, ?_, ?_, ?_, ⟨_, rfl⟩, Nat.le_mul_of_pos_left _ hfat, rfl, ?_, rfl, rfl⟩
  · rcases hcases with h1 | h1 | h1
    · exact Or.inl (by rw [h1])
    · exact Or.inr (Or.inl (by rw [h1]))
    · exact Or.inr (Or.inr (by rw [h1]))
  · show (m (p + 0x0b)).toNat + 256 * ((m (p + 0x0c)).toNat + 256 * 0) = (m (p + 0x0c)).toNat <<< 8
    rw [hzero, Nat.shiftLeft_eq]
    show 0 + _ = _
    omega
  · show 256 ≤ (m (p + 0x0c)).toNat <<< 8
    rw [Nat.shiftLeft_eq]
    omega
  · show (if (m (p + 0x10)).toNat = 2 then _ else _) = _ ∨ (if (m (p + 0x10)).toNat = 2 then _ else _) = _
    by_cases hfats : (m (p + 0x10)).toNat = 2
    · exact Or.inr (if_pos hfats)
    · exact Or.inl (if_neg hfats)

/-- **The boot sector that is taken** is found again in every image with the same bytes up to its end. -/
theorem bootOf_local (h : bootOf m flags = some b) (hm : ∀ a < b.places.BPB + 0x46, m' a = m a) :
    bootOf m' flags = some b := by
  unfold bootOf at h ⊢
  cases hskip : skipHeaders m 129 0 with
  | error e =>
    rw [hskip] at h
    cases h
  | ok bpb =>
    rw [hskip] at h
    simp only at h
    cases hfirst : readBPB m bpb flags with
    | some b' =>
      rw [hfirst, Option.some_or, Option.some_inj] at h
      rw [h] at hfirst
      have hB := (readBPB_spec hfirst).BPB
      rw [hB] at hm
      rw [skipHeaders_local hskip fun a ha => hm a (by omega)]
      show (readBPB m' bpb flags).or _ = _
      rw [readBPB_local fun a _ ha => hm a ha, hfirst, Option.some_or]
    | none =>
      rw [hfirst, Option.none_or] at h
      cases hpart : partition m bpb with
      | none =>
        rw [hpart] at h
        cases h
      | some p =>
        rw [hpart, Option.bind_some] at h
        have hB := (readBPB_spec h).BPB
        rw [hB] at hm
        -- the partition is behind the first sector, which is none that could be taken
        have hp : bpb + 0x200 ≤ p := by
          unfold partition at hpart
          split at hpart
          · have hp := Option.some.inj hpart
            have hne : ofLe (read m (bpb + 0x1c6) 3) ≠ 0 := by
              intro hzero
              rw [hzero, Nat.zero_shiftLeft, Nat.add_zero] at hp
              rw [← hp, hfirst] at h
              cases h
            rw [← hp, Nat.shiftLeft_eq]
            omega
          · cases hpart
        rw [skipHeaders_local hskip fun a ha => hm a (by omega)]
        show (readBPB m' bpb flags).or ((partition m' bpb).bind _) = _
        rw [readBPB_local fun a _ ha => hm a (by omega), hfirst, Option.none_or,
          partition_local fun a ha => hm a (by omega), hpart, Option.bind_some, readBPB_local fun a _ ha => hm a ha, h]

theorem bootOf_spec (h : bootOf m flags = some b) : BpbSpec m b.places.BPB flags b := by
  have hp : ∃ p, readBPB m p flags = some b := by
    unfold bootOf at h
    cases hskip : skipHeaders m 129 0 with
    | error e =>
      rw [hskip] at h
      cases h
    | ok bpb =>
      rw [hskip] at h
      rcases Option.or_eq_some_iff.mp h with h1 | ⟨_, h2⟩
      · exact ⟨bpb, h1⟩
      · obtain ⟨p, _, hp⟩ := Option.bind_eq_some_iff.mp h2
        exact ⟨p, hp⟩
  obtain ⟨p, hp⟩ := hp
  have hs := readBPB_spec hp
  rw [hs.BPB]
  exact hs

/-! ## opt_imgin -/

/-- the mark of a compressed file -/
def Packed (m : Nat → BitVec 8) : Prop := ofLe (read m 0x08 4) = 0x5341534f ∧ ofLe (read m 0x0c 4) = 0x504d434b

theorem autodecomp2_plain (h : ¬ Packed m) (siz0 siz : Nat) : autodecomp2 siz0 m siz = .ok siz :=
  if_neg fun hc => h ⟨hc.1, hc.2.1⟩

theorem autodecomp2_size {siz0 siz n : Nat} (h : autodecomp2 siz0 m siz = .ok n) : n = siz := by
  unfold autodecomp2 at h
  simp only at h
  split at h
  · split at h
    · split at h
      · cases h
      · exact (Except.ok.inj h).symm
    · split at h
      · cases h
      · exact (Except.ok.inj h).symm
  · exact (Except.ok.inj h).symm

/-- the image in `imgbuf0` before the boot sector is looked for -/
def Image.withFile (s : Image) (file : List (BitVec 8)) : Image :=
  { s with imgbuf0 := fileMemory file s.imgbuf0, len_imgbuf := file.length }

variable {s s' : Image} {path : Path} {file : List (BitVec 8)}

theorem test_BPB_none {p : Nat} (h : readBPB s.imgbuf0 p (s.flag &&& 0xf8) = none) : test_BPB s p = .ok none := by
  rw [test_BPB, h]

theorem test_BPB_some {p : Nat} (h : readBPB s.imgbuf0 p (s.flag &&& 0xf8) = some b) :
    test_BPB s p = if SIZ_FAT < b.stored then .error .overrun else .ok (some (loadFat s b)) := by
  rw [test_BPB, h]

/-- the search takes the boot sector, if `fat` has room for its table -/
theorem searchBPB_eq (s : Image) : searchBPB s = match skipHeaders s.imgbuf0 129 0 with
    | .error e => .error e
    | .ok _ => (bootOf s.imgbuf0 (s.flag &&& 0xf8)).elim (.error (.errend 17)) fun b =>
      if SIZ_FAT < b.stored then .error .overrun else .ok (loadFat s b) := by
  unfold searchBPB bootOf
  cases skipHeaders s.imgbuf0 129 0 with
  | error e => rfl
  | ok bpb =>
    simp only
    cases hfirst : readBPB s.imgbuf0 bpb (s.flag &&& 0xf8) with
    | some b =>
      rw [test_BPB_some hfirst, Option.some_or, Option.elim]
      by_cases hlong : SIZ_FAT < b.stored
      · rw [if_pos hlong, if_pos hlong]
      · rw [if_neg hlong, if_neg hlong]
    | none =>
      rw [test_BPB_none hfirst, Option.none_or]
      cases partition s.imgbuf0 bpb with
      | none => rfl
      | some p =>
        simp only [Option.elim, Option.bind_some]
        cases hsecond : readBPB s.imgbuf0 p (s.flag &&& 0xf8) with
        | none => rw [test_BPB_none hsecond]
        | some b =>
          rw [test_BPB_some hsecond]
          by_cases hlong : SIZ_FAT < b.stored
          · simp only [if_pos hlong]
          · simp only [if_neg hlong]

theorem searchBPB_ok (h : bootOf s.imgbuf0 (s.flag &&& 0xf8) = some b) (hfat : b.stored ≤ SIZ_FAT) :
    searchBPB s = .ok (loadFat s b) := by
  rw [searchBPB_eq]
  cases hskip : skipHeaders s.imgbuf0 129 0 with
  | error e =>
    unfold bootOf at h
    rw [hskip] at h
    cases h
  | ok bpb =>
    simp only [h, Option.elim]
    exact if_neg (Nat.not_lt.mpr hfat)

theorem searchBPB_some (h : searchBPB s = .ok s') :
    ∃ b, bootOf s.imgbuf0 (s.flag &&& 0xf8) = some b ∧ b.stored ≤ SIZ_FAT ∧ s' = loadFat s b := by
  rw [searchBPB_eq] at h
  split at h
  · cases h
  · cases hboot : bootOf s.imgbuf0 (s.flag &&& 0xf8) with
    | none =>
      rw [hboot] at h
      cases h
    | some b =>
      simp only [hboot, Option.elim] at h
      split at h
      · cases h
      · rename_i hlong
        exact ⟨b, rfl, Nat.le_of_not_lt hlong, (Except.ok.inj h).symm⟩

/-- **An image is loaded** if its file is long enough and short enough, not compressed, and has a boot sector with a table
that `fat` has room for. -/
theorem opt_imgin_ok (hfile : s.host path = some file) (hlen : 512 < file.length ∧ file.length < SIZ_IMGBUF)
    (hplain : ¬ Packed (fileMemory file s.imgbuf0))
    (hb : bootOf (fileMemory file s.imgbuf0) (s.flag &&& 0xf8) = some b) (hfat : b.stored ≤ SIZ_FAT) :
    opt_imgin s path = .ok (loadFat (s.withFile file) b) := by
  unfold opt_imgin
  simp only [hfile]
  rw [if_neg (by omega), autodecomp2_plain hplain]
  show (if file.length ≤ 512 then _ else searchBPB (s.withFile file)) = _
  rw [if_neg (by omega)]
  exact searchBPB_ok (s := s.withFile file) hb hfat

theorem opt_imgin_some (h : opt_imgin s path = .ok s') : ∃ file b, s.host path = some file ∧
    bootOf (fileMemory file s.imgbuf0) (s.flag &&& 0xf8) = some b ∧ b.stored ≤ SIZ_FAT ∧
      s' = loadFat (s.withFile file) b := by
  unfold opt_imgin at h
  cases hfile : s.host path with
  | none =>
    simp only [hfile] at h
    cases h
  | some file =>
    simp only [hfile] at h
    split at h
    · cases h
    · cases hsize : autodecomp2 SIZ_IMGBUF (fileMemory file s.imgbuf0) file.length with
      | error e =>
        rw [hsize] at h
        cases h
      | ok len =>
        rw [hsize, autodecomp2_size hsize] at h
        have hstep : (if file.length ≤ 512 then .error (.errend 16) else searchBPB (s.withFile file)) = Except.ok s' := h
        split at hstep
        · cases hstep
        · obtain ⟨b, hb, hfat, hs'⟩ := searchBPB_some hstep
          exact ⟨file, b, rfl, hb, hfat, hs'⟩

end Clubcos.Edimg
