import Mathlib.Data.Set.Basic
import Clubcos.Edimg.Data

/-!
# The files of an image

* `Image.files`     the files of the root directory, by their names of 11 bytes;
* `Good`            no cluster is in two chains, and no name in two entries;
* `Touches`         a step that leaves all entries but one alone;
* `Touches.good`, `Touches.files_update`   what such a step keeps, and what it does to the files;
* `Kept`            what no step changes.
-/

set_option linter.unusedVariables false

namespace Clubcos.Edimg
open Bytes Chain

/-- the clusters from `j` on -/
def chainFrom (fat : Nat → Nat) : Nat → Nat → List Nat
  | 0, _ => []
  | fuel + 1, j => if 2 ≤ j ∧ j < 0xfff7 then j :: chainFrom fat fuel (fat j) else []

def Image.chain (s : Image) (k : Nat) : List Nat := chainFrom s.fat 65536 (s.start k)

def Image.bytes (s : Image) (k : Nat) : List (BitVec 8) := (s.data (s.chain k)).take (s.size k)

/-- the entry of a file -/
def Image.find (s : Image) (filename : List (BitVec 8)) : Option Nat :=
  (List.range s.entries).find? fun k => s.IsFile k ∧ s.name k = filename

def Image.files (s : Image) (filename : List (BitVec 8)) : Option (List (BitVec 8)) := (s.find filename).map s.bytes

/-- The clusters in `R` belong to what the root directory leads to in other ways: to the files of subdirectories. -/
structure Good (s : Image) (R : Set Nat) : Prop where
  geometry : Geometry s
  clusters : ∀ k, s.Live k → Clusters s.limit_fat s.fat (s.start k) (s.chain k)
  apart : ∀ k k', s.Live k → s.Live k' → k ≠ k' → ∀ j ∈ s.chain k, j ∉ s.chain k'
  names : ∀ k k', s.IsFile k → s.IsFile k' → s.name k = s.name k' → k = k'
  reserved : ∀ j ∈ R, 2 ≤ j ∧ (j < s.limit_fat ∧ s.fat j ≠ 0) ∧ ∀ k, s.Live k → j ∉ s.chain k
  /-- no cluster is lost -/
  lost : ∀ j, 2 ≤ j ∧ j < s.limit_fat → s.fat j ≠ 0 → j ∈ R ∨ ∃ k, s.Live k ∧ j ∈ s.chain k

/-- and every file has the clusters that its size asks for -/
structure Wf (s : Image) (R : Set Nat) : Prop extends Good s R where
  sizes : ∀ k, s.IsFile k → s.size k ≤ (s.chain k).length * s.len_clu

variable {s s' s'' : Image} {R : Set Nat}

/-! ## chains -/

theorem chainFrom_leads {fat : Nat → Nat} {e : Nat} (he : 0xfff8 ≤ e) {l : List Nat} : ∀ {fuel : Nat}, Leads fat e l →
    (∀ j ∈ l, 2 ≤ j ∧ j < 0xfff7) → l.length < fuel → chainFrom fat fuel (first e l) = l := by
  induction l with
  | nil =>
    intro fuel _ _ hf
    obtain ⟨fuel, rfl⟩ := Nat.exists_eq_add_one_of_ne_zero (Nat.ne_of_gt hf)
    rw [first_nil, chainFrom, if_neg (by omega)]
  | cons j l ih =>
    intro fuel h hl hf
    obtain ⟨fuel, rfl⟩ := Nat.exists_eq_add_one_of_ne_zero (Nat.ne_of_gt (Nat.zero_lt_of_lt hf))
    have hnext : fat j = first e l := h.1
    rw [first_cons, chainFrom, if_pos (hl j List.mem_cons_self), hnext,
      ih h.2 (fun i hi => hl i (List.mem_cons_of_mem j hi)) (Nat.lt_of_succ_lt_succ hf)]

theorem Clusters.chain_eq {limit start : Nat} {fat : Nat → Nat} {l : List Nat} (h : Clusters limit fat start l)
    (hlimit : limit ≤ 0xfff7) : chainFrom fat 65536 start = l := by
  have hlen := h.length_le
  obtain ⟨e, he, hl⟩ := h.ends
  rw [h.start]
  cases l with
  | nil => rfl
  | cons j l =>
    have hin : ∀ i ∈ j :: l, 2 ≤ i ∧ i < 0xfff7 := fun i hi => by have := h.inside i hi; omega
    exact chainFrom_leads he hl hin (by omega)

/-! ## files -/

theorem find_eq_some (hg : Good s R) {k : Nat} (hk : s.IsFile k) : s.find (s.name k) = some k := by
  unfold Image.find
  cases hf : (List.range s.entries).find? fun i => s.IsFile i ∧ s.name i = s.name k with
  | none =>
    rw [List.find?_eq_none] at hf
    have := hf k (List.mem_range.mpr hk.1.lt)
    simp [hk] at this
  | some i =>
    have hi := List.find?_some hf
    rw [decide_eq_true_eq] at hi
    rw [hg.names i k hi.1 hk hi.2]

theorem find_eq_none {filename : List (BitVec 8)} (h : ∀ k, s.IsFile k → s.name k ≠ filename) :
    s.find filename = none := by
  unfold Image.find
  rw [List.find?_eq_none]
  intro k _
  rw [decide_eq_true_eq]
  rintro ⟨h1, h2⟩
  exact h k h1 h2

theorem files_eq_some (hg : Good s R) {k : Nat} (hk : s.IsFile k) : s.files (s.name k) = some (s.bytes k) := by
  rw [Image.files, find_eq_some hg hk]
  rfl

theorem files_eq_none {filename : List (BitVec 8)} (h : ∀ k, s.IsFile k → s.name k ≠ filename) :
    s.files filename = none := by
  rw [Image.files, find_eq_none h]
  rfl

/-- a file of the name, or none -/
theorem exists_file_or (s : Image) (filename : List (BitVec 8)) : (∃ k, s.IsFile k ∧ s.name k = filename) ∨
    ∀ k, s.IsFile k → s.name k ≠ filename := by
  by_cases h : ∃ k, s.IsFile k ∧ s.name k = filename
  · exact Or.inl h
  · exact Or.inr fun k h1 h2 => h ⟨k, h1, h2⟩

/-! ## steps that touch one entry -/

/-- What no step changes: where the parts of the image are, what is in front of the directory and what is in the
clusters in `R`. -/
structure Kept (R : Set Nat) (s s' : Image) : Prop where
  reserved : ∀ j ∈ R, s'.fat j = s.fat j ∧ s'.cluster j = s.cluster j
  places : s'.places = s.places
  header : ∀ a < s.dir0, s'.imgbuf0 a = s.imgbuf0 a
  fat : Relinked s.limit_fat s.fat s'.fat
  beyond : ∀ j, s.limit_fat ≤ j → s'.fat j = s.fat j
  cut : ∀ j, s'.limit_fat ≤ j → j < s.limit_fat → s'.fat j = 0
  /-- the table is cut at its end at most, and the image is as long as it says -/
  limit : s'.limit_fat ≤ s.limit_fat
  length : s.clusterAt s.limit_fat ≤ s.len_imgbuf → s'.clusterAt s'.limit_fat ≤ s'.len_imgbuf ∧ s'.len_imgbuf ≤ s.len_imgbuf

theorem SameLayout.kept (h : SameLayout s s') (hr : ∀ j ∈ R, s'.fat j = s.fat j ∧ s'.cluster j = s.cluster j)
    (hheader : ∀ a < s.dir0, s'.imgbuf0 a = s.imgbuf0 a) (hfat : Relinked s.limit_fat s.fat s'.fat)
    (hbeyond : ∀ j, s.limit_fat ≤ j → s'.fat j = s.fat j) : Kept R s s' where
  reserved := hr
  places := h.places
  header := hheader
  fat := hfat
  beyond := hbeyond
  cut := fun j h1 h2 => absurd h2 (Nat.not_lt_of_le (h.limit_fat ▸ h1))
  limit := Nat.le_of_eq h.limit_fat
  length := fun hlen => by
    rw [h.clusterAt, h.limit_fat, h.len_imgbuf]
    exact ⟨hlen, Nat.le_refl _⟩

theorem Kept.refl (R : Set Nat) (s : Image) : Kept R s s :=
  (SameLayout.refl s).kept (fun _ _ => ⟨rfl, rfl⟩) (fun _ _ => rfl) (Relinked.refl s.fat) fun _ _ => rfl

theorem Kept.dir0 (h : Kept R s s') : s'.dir0 = s.dir0 := congrArg Places.dir0 h.places

theorem Kept.trans (h : Kept R s s') (h' : Kept R s' s'') : Kept R s s'' where
  reserved := fun j hj => ⟨(h'.reserved j hj).1.trans (h.reserved j hj).1, (h'.reserved j hj).2.trans (h.reserved j hj).2⟩
  places := h'.places.trans h.places
  header := fun a ha => (h'.header a (lt_of_lt_of_eq ha h.dir0.symm)).trans (h.header a ha)
  fat := h.fat.trans h'.fat h.limit
  beyond := fun j hj => (h'.beyond j (h.limit.trans hj)).trans (h.beyond j hj)
  cut := fun j h1 h2 => by
    by_cases hj : j < s'.limit_fat
    · exact h'.cut j h1 hj
    · rw [h'.beyond j (Nat.le_of_not_lt hj), h.cut j (Nat.le_of_not_lt hj) h2]
  limit := h'.limit.trans h.limit
  length := fun hlen => by
    obtain ⟨h1, h2⟩ := h.length hlen
    obtain ⟨h3, h4⟩ := h'.length h1
    exact ⟨h3, h4.trans h2⟩

structure Touches (s s' : Image) (R : Set Nat) (k : Nat) : Prop where
  layout : SameLayout s s'
  live : ∀ i, i ≠ k → (s'.Live i ↔ s.Live i)
  entry : ∀ i, i ≠ k → s.Live i → SameEntry s s' i
  fat : ∀ i, i ≠ k → s.Live i → ∀ j ∈ s.chain i, s'.fat j = s.fat j
  cluster : ∀ i, i ≠ k → s.Live i → ∀ j ∈ s.chain i, s'.cluster j = s.cluster j
  used : ∀ j, s'.fat j ≠ 0 → (s.fat j ≠ 0 ∧ (s.Live k → j ∉ s.chain k)) ∨ (s'.Live k ∧ j ∈ s'.chain k)
  kept : Kept R s s'

theorem used_of_same {k : Nat} (hfat : s'.fat = s.fat) (hk : s.Live k → s'.Live k ∧ s'.chain k = s.chain k) (j : Nat)
    (hj : s'.fat j ≠ 0) : (s.fat j ≠ 0 ∧ (s.Live k → j ∉ s.chain k)) ∨ (s'.Live k ∧ j ∈ s'.chain k) := by
  by_cases hown : s.Live k ∧ j ∈ s.chain k
  · obtain ⟨h1, h2⟩ := hk hown.1
    exact Or.inr ⟨h1, by rw [h2]; exact hown.2⟩
  · rw [hfat] at hj
    exact Or.inl ⟨hj, fun h1 h2 => hown ⟨h1, h2⟩⟩

theorem Touches.refl (s : Image) (R : Set Nat) (k : Nat) : Touches s s R k where
  layout := SameLayout.refl s
  live := fun _ _ => Iff.rfl
  entry := fun _ _ _ => ⟨rfl, fun _ _ => rfl⟩
  fat := fun _ _ _ _ _ => rfl
  cluster := fun _ _ _ _ _ => rfl
  used := used_of_same rfl fun h => ⟨h, rfl⟩
  kept := Kept.refl R s

section
variable {k : Nat}

theorem Touches.clusters (h : Touches s s' R k) (hg : Good s R) {i : Nat} (hik : i ≠ k) (hi : s.Live i) :
    Clusters s'.limit_fat s'.fat (s'.start i) (s.chain i) := by
  rw [h.layout.limit_fat, (h.entry i hik hi).start]
  exact (hg.clusters i hi).congr (h.fat i hik hi)

theorem Touches.chain (h : Touches s s' R k) (hg : Good s R) {i : Nat} (hik : i ≠ k) (hi : s.Live i) :
    s'.chain i = s.chain i :=
  (h.clusters hg hik hi).chain_eq (h.layout.limit_fat ▸ hg.geometry.limit_le)

theorem Touches.isFile (h : Touches s s' R k) {i : Nat} (hik : i ≠ k) : s'.IsFile i ↔ s.IsFile i := by
  constructor
  · intro hi
    exact ((h.entry i hik ((h.live i hik).mp hi.1)).isFile (h.live i hik)).mp hi
  · intro hi
    exact ((h.entry i hik hi.1).isFile (h.live i hik)).mpr hi

theorem Touches.name (h : Touches s s' R k) {i : Nat} (hik : i ≠ k) (hi : s.IsFile i) : s'.name i = s.name i :=
  (h.entry i hik hi.1).name

theorem Touches.bytes (h : Touches s s' R k) (hg : Good s R) {i : Nat} (hik : i ≠ k) (hi : s.IsFile i) :
    s'.bytes i = s.bytes i := by
  unfold Image.bytes
  rw [h.chain hg hik hi.1, (h.entry i hik hi.1).size, data_congr (h.cluster i hik hi.1)]

theorem Touches.trans (hg : Good s R) (h : Touches s s' R k) (h' : Touches s' s'' R k) : Touches s s'' R k := by
  have hlive : ∀ i, i ≠ k → s.Live i → s'.Live i := fun i hik => (h.live i hik).mpr
  have hchain : ∀ i, i ≠ k → s.Live i → s'.chain i = s.chain i := fun i hik hi => h.chain hg hik hi
  refine ⟨h.layout.trans h'.layout, fun i hik => (h'.live i hik).trans (h.live i hik), fun i hik hi => ?_,
    fun i hik hi j hj => ?_, fun i hik hi j hj => ?_, fun j hj => ?_, h.kept.trans h'.kept⟩
  · have h1 := h.entry i hik hi
    have h2 := h'.entry i hik (hlive i hik hi)
    refine ⟨h2.entry.trans h1.entry, fun x hx => ?_⟩
    have := h2.bytes x hx
    rw [h1.entry] at this
    exact this.trans (h1.bytes x hx)
  · exact (h'.fat i hik (hlive i hik hi) j (by rwa [hchain i hik hi])).trans (h.fat i hik hi j hj)
  · exact (h'.cluster i hik (hlive i hik hi) j (by rwa [hchain i hik hi])).trans (h.cluster i hik hi j hj)
  · rcases h'.used j hj with ⟨h1, h2⟩ | h1
    · rcases h.used j h1 with h3 | ⟨h3, h4⟩
      · exact Or.inl h3
      · exact absurd h4 (h2 h3)
    · exact Or.inr h1

/-- **The invariant is kept** if the entry that is touched has clusters of its own and a name of its own. -/
theorem Touches.good (h : Touches s s' R k) (hg : Good s R)
    (hk : s'.Live k → ∃ l, Clusters s'.limit_fat s'.fat (s'.start k) l ∧
      (∀ i, i ≠ k → s.Live i → ∀ j ∈ l, j ∉ s.chain i) ∧ ∀ j ∈ l, j ∉ R)
    (hname : s'.IsFile k → ∀ i, i ≠ k → s.IsFile i → s.name i ≠ s'.name k) : Good s' R := by
  have hlimit : s'.limit_fat ≤ 0xfff7 := h.layout.limit_fat ▸ hg.geometry.limit_le
  have hlive : ∀ i, i ≠ k → s'.Live i → s.Live i := fun i hik => (h.live i hik).mp
  have hself : ∀ hl : s'.Live k, Clusters s'.limit_fat s'.fat (s'.start k) (s'.chain k) ∧
      (∀ i, i ≠ k → s.Live i → ∀ j ∈ s'.chain k, j ∉ s.chain i) ∧ ∀ j ∈ s'.chain k, j ∉ R := by
    intro hl
    obtain ⟨l, hc, h1, h2⟩ := hk hl
    rw [Image.chain, hc.chain_eq hlimit]
    exact ⟨hc, h1, h2⟩
  refine ⟨h.layout.geometry hg.geometry, fun i hi => ?_, fun i i' hi hi' hne j hj hj' => ?_,
    fun i i' hi hi' hn => ?_, fun j hj => ⟨(hg.reserved j hj).1, ?_, fun i hi hji => ?_⟩, fun j hj hne => ?_⟩
  · by_cases hik : i = k
    · rw [hik] at hi ⊢
      exact (hself hi).1
    · rw [h.chain hg hik (hlive i hik hi)]
      exact h.clusters hg hik (hlive i hik hi)
  · by_cases hik : i = k
    · have hik' : i' ≠ k := fun hc => hne (hik.trans hc.symm)
      rw [h.chain hg hik' (hlive i' hik' hi')] at hj'
      rw [hik] at hi hj
      exact (hself hi).2.1 i' hik' (hlive i' hik' hi') j hj hj'
    · rw [h.chain hg hik (hlive i hik hi)] at hj
      by_cases hik' : i' = k
      · rw [hik'] at hi' hj'
        exact (hself hi').2.1 i hik (hlive i hik hi) j hj' hj
      · rw [h.chain hg hik' (hlive i' hik' hi')] at hj'
        exact hg.apart i i' (hlive i hik hi) (hlive i' hik' hi') hne j hj hj'
  · by_cases hik : i = k
    · by_cases hik' : i' = k
      · rw [hik, hik']
      · have hi's := (h.isFile hik').mp hi'
        rw [h.name hik' hi's, hik] at hn
        rw [hik] at hi
        exact absurd hn.symm (hname hi i' hik' hi's)
    · have his := (h.isFile hik).mp hi
      rw [h.name hik his] at hn
      by_cases hik' : i' = k
      · rw [hik'] at hi' hn
        exact absurd hn (hname hi' i hik his)
      · have hi's := (h.isFile hik').mp hi'
        rw [h.name hik' hi's] at hn
        exact hg.names i i' his hi's hn
  · rw [h.layout.limit_fat, (h.kept.reserved j hj).1]
    exact (hg.reserved j hj).2.1
  · by_cases hik : i = k
    · rw [hik] at hi hji
      exact (hself hi).2.2 j hji hj
    · rw [h.chain hg hik (hlive i hik hi)] at hji
      exact (hg.reserved j hj).2.2 i (hlive i hik hi) hji
  · rw [h.layout.limit_fat] at hj
    rcases h.used j hne with ⟨h1, h2⟩ | ⟨h1, h2⟩
    · rcases hg.lost j hj h1 with hR | ⟨i, hi, hji⟩
      · exact Or.inl hR
      · have hik : i ≠ k := fun hik => h2 (hik ▸ hi) (hik ▸ hji)
        exact Or.inr ⟨i, (h.live i hik).mpr hi, by rw [h.chain hg hik hi]; exact hji⟩
    · exact Or.inr ⟨k, h1, h2⟩

theorem Touches.sizes (h : Touches s s' R k) (hw : Wf s R) {i : Nat} (hik : i ≠ k) (hi : s'.IsFile i) :
    s'.size i ≤ (s'.chain i).length * s'.len_clu := by
  have his := (h.isFile hik).mp hi
  rw [h.chain hw.toGood hik his.1, h.layout.len_clu, (h.entry i hik his.1).size]
  exact hw.sizes i his

/-- the file that is touched, and no other one -/
theorem Touches.files_update (h : Touches s s' R k) (hg : Good s R) (hg' : Good s' R) (hk : s'.IsFile k)
    (hold : s.IsFile k → s.name k = s'.name k) :
    s'.files = Function.update s.files (s'.name k) (some (s'.bytes k)) := by
  funext filename
  by_cases hn : filename = s'.name k
  · rw [hn, Function.update_self]
    exact files_eq_some hg' hk
  · rw [Function.update_of_ne hn]
    rcases exists_file_or s filename with ⟨i, hi, hname⟩ | hnone
    · have hik : i ≠ k := by
        rintro rfl
        exact hn (hname.symm.trans (hold hi))
      have h1 := files_eq_some hg hi
      have h2 := files_eq_some hg' ((h.isFile hik).mpr hi)
      rw [h.name hik hi, h.bytes hg hik hi] at h2
      rw [← hname, h1, h2]
    · rw [files_eq_none hnone]
      refine files_eq_none fun i hi hname => ?_
      have hik : i ≠ k := by
        rintro rfl
        exact hn hname.symm
      have his := (h.isFile hik).mp hi
      rw [h.name hik his] at hname
      exact hnone i his hname

/-- the file that is touched is no file any more -/
theorem Touches.files_erase (h : Touches s s' R k) (hg : Good s R) (hg' : Good s' R) (hk : s.IsFile k)
    (hk' : ¬ s'.IsFile k) : s'.files = Function.update s.files (s.name k) none := by
  have hback : ∀ i, s'.IsFile i → i ≠ k := fun i hi hik => hk' (hik ▸ hi)
  funext filename
  by_cases hn : filename = s.name k
  · rw [hn, Function.update_self]
    refine files_eq_none fun i hi hname => ?_
    have his := (h.isFile (hback i hi)).mp hi
    rw [h.name (hback i hi) his] at hname
    exact hback i hi (hg.names i k his hk hname)
  · rw [Function.update_of_ne hn]
    rcases exists_file_or s filename with ⟨i, hi, hname⟩ | hnone
    · have hik : i ≠ k := by
        rintro rfl
        exact hn hname.symm
      have h1 := files_eq_some hg hi
      have h2 := files_eq_some hg' ((h.isFile hik).mpr hi)
      rw [h.name hik hi, h.bytes hg hik hi] at h2
      rw [← hname, h1, h2]
    · rw [files_eq_none hnone]
      refine files_eq_none fun i hi hname => ?_
      have his := (h.isFile (hback i hi)).mp hi
      rw [h.name (hback i hi) his] at hname
      exact hnone i his hname

end

/-! ## steps that leave the image alone -/

/-- the image is the same, but not what is in `filebuf0` and in the files of the host -/
structure SameImage (s s' : Image) : Prop where
  layout : SameLayout s s'
  imgbuf0 : s'.imgbuf0 = s.imgbuf0
  fat : s'.fat = s.fat

theorem SameImage.entry (h : SameImage s s') (k : Nat) : SameEntry s s' k := by
  refine ⟨h.layout.entry k, fun i _ => ?_⟩
  rw [h.imgbuf0]

theorem SameImage.live (h : SameImage s s') (k : Nat) : s'.Live k ↔ s.Live k := by
  unfold Image.Live
  rw [Image.Reached.iff_of_heads h.layout fun i _ => by rw [(h.entry i).head], (h.entry k).head]

theorem SameImage.chain (h : SameImage s s') (k : Nat) : s'.chain k = s.chain k := by
  rw [Image.chain, h.fat, (h.entry k).start]
  rfl

theorem SameImage.touches (h : SameImage s s') (R : Set Nat) (k : Nat) : Touches s s' R k where
  layout := h.layout
  live := fun i _ => h.live i
  entry := fun i _ _ => h.entry i
  fat := fun _ _ _ _ _ => by rw [h.fat]
  cluster := fun _ _ _ _ _ => cluster_congr h.layout fun _ _ _ => by rw [h.imgbuf0]
  used := used_of_same h.fat fun hk => ⟨(h.live k).mpr hk, h.chain k⟩
  kept := h.layout.kept (fun _ _ => ⟨by rw [h.fat], cluster_congr h.layout fun _ _ _ => by rw [h.imgbuf0]⟩)
    (fun _ _ => by rw [h.imgbuf0]) (by rw [h.fat]; exact Relinked.refl s.fat) fun _ _ => by rw [h.fat]

theorem SameImage.bytes (h : SameImage s s') (k : Nat) : s'.bytes k = s.bytes k := by
  rw [Image.bytes, h.chain, (h.entry k).size,
    data_congr fun _ _ => cluster_congr h.layout fun _ _ _ => by rw [h.imgbuf0]]
  rfl

theorem SameImage.isFile (h : SameImage s s') (k : Nat) : s'.IsFile k ↔ s.IsFile k := (h.entry k).isFile (h.live k)

theorem SameImage.find (h : SameImage s s') (filename : List (BitVec 8)) : s'.find filename = s.find filename := by
  unfold Image.find
  rw [h.layout.entries]
  congr 1
  funext k
  rw [decide_eq_decide, h.isFile k, (h.entry k).name]

theorem SameImage.files (h : SameImage s s') : s'.files = s.files := by
  funext filename
  rw [Image.files, h.find, funext h.bytes]
  rfl

theorem SameImage.wf (h : SameImage s s') (hw : Wf s R) : Wf s' R where
  geometry := h.layout.geometry hw.geometry
  clusters := fun k hk => by
    rw [h.layout.limit_fat, h.fat, (h.entry k).start, h.chain]
    exact hw.clusters k ((h.live k).mp hk)
  apart := fun k k' hk hk' hne j hj => by
    rw [h.chain] at hj ⊢
    exact hw.apart k k' ((h.live k).mp hk) ((h.live k').mp hk') hne j hj
  names := fun k k' hk hk' hn => by
    rw [(h.entry k).name, (h.entry k').name] at hn
    exact hw.names k k' ((h.isFile k).mp hk) ((h.isFile k').mp hk') hn
  reserved := fun j hj => by
    rw [h.fat, h.layout.limit_fat]
    refine ⟨(hw.reserved j hj).1, (hw.reserved j hj).2.1, fun k hk => ?_⟩
    rw [h.chain]
    exact (hw.reserved j hj).2.2 k ((h.live k).mp hk)
  lost := fun j hj hne => by
    rw [h.layout.limit_fat] at hj
    rw [h.fat] at hne
    rcases hw.lost j hj hne with hR | ⟨k, hk, hjk⟩
    · exact Or.inl hR
    · exact Or.inr ⟨k, (h.live k).mpr hk, by rw [h.chain]; exact hjk⟩
  sizes := fun k hk => by
    rw [(h.entry k).size, h.chain, h.layout.len_clu]
    exact hw.sizes k ((h.isFile k).mp hk)

end Clubcos.Edimg
