import Clubcos.Edimg.Read

/-!
# Scripts

* `Store`              the files of the image and of the host, by their names;
* `Cmd.apply`          what a command is for;
* `script_refines`     **a script does to the files what its commands are for**, and keeps the image well formed;
* `copy_outcome`       **a file is copied into the image** iff there are an entry and clusters for it.
-/

set_option linter.unusedVariables false

namespace Clubcos.Edimg
open Bytes Chain

variable {s s' : Image} {R : Set Nat} {k : Nat} {os : Os}

/-! ## release -/

/-- A step that touches no file at all. -/
theorem Touches.files_same (h : Touches s s' R k) (hg : Good s R) (hg' : Good s' R) (hk : ¬ s.IsFile k)
    (hk' : ¬ s'.IsFile k) : s'.files = s.files := by
  funext filename
  rcases exists_file_or s filename with ⟨i, hi, hname⟩ | hnone
  · have hik : i ≠ k := fun hik => hk (hik ▸ hi)
    have h1 := files_eq_some hg hi
    have h2 := files_eq_some hg' ((h.isFile hik).mpr hi)
    rw [h.name hik hi, h.bytes hg hik hi] at h2
    rw [← hname, h1, h2]
  · rw [files_eq_none hnone]
    refine files_eq_none fun i hi hname => ?_
    have hik : i ≠ k := fun hik => hk' (hik ▸ hi)
    have his := (h.isFile hik).mp hi
    rw [h.name hik his] at hname
    exact hnone i his hname

/-- the entry behind the last one, which is no entry -/
theorem not_live_entries (s : Image) : ¬ s.Live s.entries := fun h => Nat.lt_irrefl _ h.lt

theorem Touches.wf_same (h : Touches s s' R s.entries) (hw : Wf s R) : Wf s' R ∧ s'.files = s.files := by
  have hlive : ¬ s'.Live s.entries := fun hl => Nat.lt_irrefl _ (h.layout.entries ▸ hl.lt)
  have hgood : Good s' R := h.good hw.toGood (fun hl => absurd hl hlive) fun hf => absurd hf.1 hlive
  refine ⟨⟨hgood, fun i hi => ?_⟩, h.files_same hw.toGood hgood (fun hf => not_live_entries s hf.1) fun hf => hlive hf.1⟩
  have hik : i ≠ s.entries := fun hik => hlive (hik ▸ hi.1)
  exact h.sizes hw hik hi

/-- a free cluster is filled with zeros -/
theorem zero_touches (hg : Good s R) {j : Nat} (hj : 2 ≤ j) (hfree : s.fat j = 0) (k : Nat) :
    Touches s (s.store (s.clusterAt j) (List.replicate s.len_clu 0)) R k := by
  have hlen : (List.replicate s.len_clu (0 : BitVec 8)).length ≤ s.len_clu := by simp
  have hdir : ∀ a < s.clu0002, (s.store (s.clusterAt j) (List.replicate s.len_clu 0)).imgbuf0 a = s.imgbuf0 a := fun a ha =>
    write_below _ _ (lt_of_lt_of_le ha (clusterAt_ge s j))
  have hentry : ∀ i < s.entries, SameEntry s (s.store (s.clusterAt j) (List.replicate s.len_clu 0)) i := fun i hi => by
    have := hg.geometry.entry_le hi
    exact ⟨rfl, fun x hx => hdir _ (by omega)⟩
  have hcluster : ∀ i, 2 ≤ i → s.fat i ≠ 0 →
      (s.store (s.clusterAt j) (List.replicate s.len_clu 0)).cluster i = s.cluster i := fun i hi hne =>
    cluster_store_apart hj hi (fun hij => hne (hij ▸ hfree)) hlen
  have hlive : ∀ i, (s.store (s.clusterAt j) (List.replicate s.len_clu 0)).Live i ↔ s.Live i := by
    intro i
    by_cases hi : i < s.entries
    · unfold Image.Live
      rw [Image.Reached.iff_of_heads (sameLayout_store _ _ _) fun x hx => by rw [(hentry x (by omega)).head],
        (hentry i hi).head]
    · exact iff_of_false (fun h => hi h.lt) fun h => hi h.lt
  exact {
    layout := sameLayout_store _ _ _
    live := fun i _ => hlive i
    entry := fun i _ hi => hentry i hi.lt
    fat := fun _ _ _ _ _ => rfl
    cluster := fun i _ hi x hx => hcluster x ((hg.clusters i hi).inside x hx).1 ((hg.clusters i hi).ne_zero x hx)
    kept := (sameLayout_store _ _ _).kept (fun x hx => ⟨rfl, hcluster x (hg.reserved x hx).1 (hg.reserved x hx).2.1.2⟩)
      (fun a ha => hdir a (lt_of_lt_of_le ha hg.geometry.dir_le)) (Relinked.refl s.fat) fun _ _ => rfl
    used := used_of_same rfl fun hk => ⟨(hlive k).mpr hk, by rw [Image.chain, (hentry k hk.lt).start]; rfl⟩
  }

/-- all the free clusters of a list are filled with zeros -/
def zeroClusters (l : List Nat) (s : Image) : Image :=
  l.foldl (fun s j => if s.fat j = 0 then s.store (s.clusterAt j) (List.replicate s.len_clu 0) else s) s

theorem zeroClusters_spec {l : List Nat} (hl : ∀ j ∈ l, 2 ≤ j) : ∀ {s : Image}, Wf s R →
    Wf (zeroClusters l s) R ∧ (zeroClusters l s).files = s.files ∧ Rest s (zeroClusters l s) ∧ Kept R s (zeroClusters l s) := by
  induction l with
  | nil => exact fun hw => ⟨hw, rfl, Rest.refl _, Kept.refl R _⟩
  | cons j l ih =>
    intro s hw
    have hj := hl j List.mem_cons_self
    have hl' : ∀ i ∈ l, 2 ≤ i := fun i hi => hl i (List.mem_cons_of_mem j hi)
    by_cases hfree : s.fat j = 0
    · have hstep : zeroClusters (j :: l) s = zeroClusters l (s.store (s.clusterAt j) (List.replicate s.len_clu 0)) := by
        rw [zeroClusters, List.foldl_cons, if_pos hfree]
        rfl
      have htouch := zero_touches hw.toGood hj hfree s.entries
      obtain ⟨hw₁, hf₁⟩ := htouch.wf_same hw
      obtain ⟨h1, h2, h3, h4⟩ := ih hl' hw₁
      rw [hstep]
      exact ⟨h1, h2.trans hf₁, Rest.trans (show Rest s (s.store _ _) from rfl) h3, htouch.kept.trans h4⟩
    · have hstep : zeroClusters (j :: l) s = zeroClusters l s := by
        rw [zeroClusters, List.foldl_cons, if_neg hfree]
        rfl
      rw [hstep]
      exact ih hl' hw

/-- nothing that is cut off is in use -/
theorem miniLoop_spec (fat : Nat → Nat) : ∀ n, miniLoop fat n ≤ n ∧ (2 ≤ n → 2 ≤ miniLoop fat n) ∧
    ∀ j, miniLoop fat n ≤ j → j < n → fat j = 0 := by
  intro n
  induction n with
  | zero => exact ⟨Nat.le_refl _, id, fun j _ h => absurd h (Nat.not_lt_zero j)⟩
  | succ n ih =>
    rw [miniLoop]
    split
    · rename_i h
      obtain ⟨h1, h2, h3⟩ := ih
      refine ⟨Nat.le_succ_of_le h1, fun _ => h2 (by omega), fun j hj1 hj2 => ?_⟩
      rcases Nat.lt_succ_iff_lt_or_eq.mp hj2 with hlt | rfl
      · exact h3 j hj1 hlt
      · exact h.2
    · exact ⟨Nat.le_refl _, id, fun j h1 h2 => absurd h2 (Nat.not_lt_of_le h1)⟩

/-- a shorter table, which still has all that is in use -/
theorem wf_shorten (hw : Wf s R) {n : Nat} (h2 : 2 ≤ n) (hle : n ≤ s.limit_fat)
    (hfree : ∀ j, n ≤ j → j < s.limit_fat → s.fat j = 0) (len : Nat) :
    Wf { s with limit_fat := n, len_imgbuf := len } R := by
  have hg := hw.geometry
  have hmul : (n - 2) * s.len_clu ≤ (s.limit_fat - 2) * s.len_clu := Nat.mul_le_mul_right _ (by omega)
  have hlimit := hg.limit_le
  refine ⟨⟨⟨hg.flag, hg.dir, hg.entries, hg.cluster, h2, show n ≤ _ by omega, ?_⟩, fun k hk => ?_, hw.apart, hw.names,
    fun j hj => ?_, fun j hj hne => hw.lost j ⟨hj.1, Nat.lt_of_lt_of_le hj.2 hle⟩ hne⟩, hw.sizes⟩
  · exact (Nat.add_le_add_left hmul _).trans hg.fits
  · have hc := hw.clusters k hk
    refine ⟨hc.start, hc.ends, fun j hj => ⟨(hc.inside j hj).1, ?_⟩, hc.nodup⟩
    show j < n
    by_contra hnj
    exact hc.ne_zero j hj (hfree j (Nat.le_of_not_lt hnj) (hc.inside j hj).2)
  · obtain ⟨hj2, ⟨hlt, hne⟩, hapart⟩ := hw.reserved j hj
    refine ⟨hj2, ⟨show j < n from ?_, hne⟩, hapart⟩
    by_contra hnj
    exact hne (hfree j (Nat.le_of_not_lt hnj) hlt)

/-! ## commands -/

inductive Cmd where
  | copy (nocmp : Bool) (src dst : Path)
  | ovrcopy (nocmp : Bool) (src dst : Path)
  | create (file : Path) (size : Nat) (asiz : Option Nat) (begin : Nat)
  | ovrcreate (file : Path) (size : Nat) (asiz : Option Nat) (begin : Nat)
  | delete (file : Path)
  | setattr (file : Path) (attr : BitVec 8)
  | mini
  | zerofill

def Cmd.exec (os : Os) (s : Image) : Cmd → Except Halt Image
  | copy nocmp src dst => cmd_copy os s nocmp src dst
  | ovrcopy nocmp src dst => cmd_ovrcopy os s nocmp src dst
  | create file size asiz begin => cmd_create os s file size asiz begin
  | ovrcreate file size asiz begin => cmd_ovrcreate os s file size asiz begin
  | delete file => deletefile os s file
  | setattr file attr => setattrfile s file attr
  | mini => release_mini s
  | zerofill => release_zerofill s

/-- the commands of a script, one after the other up to the first error -/
def script (os : Os) : Image → List Cmd → Except Halt Image
  | s, [] => .ok s
  | s, c :: cs => (c.exec os s).bind fun s => script os s cs

/-- the names in the image that a path gives -/
def Path.Valid (path : Path) : Prop := ∀ name, imageName path = some name → ValidName name

/-- The clusters 0 and 1 are not looked for. -/
def Cmd.Valid : Cmd → Prop
  | copy _ src dst => Path.Valid src ∧ Path.Valid dst
  | ovrcopy _ src dst => Path.Valid src ∧ Path.Valid dst
  | create file _ _ begin => Path.Valid file ∧ 2 ≤ begin
  | ovrcreate file _ _ begin => Path.Valid file ∧ 2 ≤ begin
  | delete file => Path.Valid file
  | setattr file _ => Path.Valid file
  | mini => True
  | zerofill => True

/-! ## what they are for -/

/-- the files of the image by their names of 11 bytes, and those of the host by their paths -/
structure Store where
  image : List (BitVec 8) → Option (List (BitVec 8))
  host : Path → Option (List (BitVec 8))

def Store.get (st : Store) (path : Path) : List (BitVec 8) :=
  ((imageName path).elim (st.host path) fun name => st.image (FAT_filename name)).getD []

def Store.set (st : Store) (path : Path) (bs : Option (List (BitVec 8))) : Store :=
  (imageName path).elim { st with host := Function.update st.host path bs } fun name =>
    { st with image := Function.update st.image (FAT_filename name) bs }

/-- the first bytes of a file -/
def Store.over (st : Store) (path : Path) (bs : List (BitVec 8)) : Store :=
  st.set path (some (bs ++ (st.get path).drop bs.length))

def Cmd.apply (os : Os) (st : Store) : Cmd → Store
  | copy _ src dst => st.set dst (some (st.get src))
  | ovrcopy _ src dst => st.over dst (st.get src)
  | create file size _ _ => st.set file (some (List.replicate size 0))
  | ovrcreate file size _ _ => st.over file (List.replicate size 0)
  | delete file => if imageName file = none ∧ os.removable file = false then st else st.set file none
  | setattr file attr => if attr &&& 0xd8 = 0 then st else st.set file none
  | mini => st
  | zerofill => st

def Image.view (s : Image) : Store := ⟨s.files, s.host⟩

/-- what one command is to do -/
structure Does (s : Image) (R : Set Nat) (st : Store) (s' : Image) : Prop where
  wf : Wf s' R
  view : s'.view = st
  kept : Kept R s s'

/-! ## one command -/

theorem SameImage.kept (h : SameImage s s') (R : Set Nat) : Kept R s s' := (h.touches R 0).kept

theorem Loaded.view {bs : List (BitVec 8)} (h : Loaded s bs s') : s'.view = s.view := by
  rw [Image.view, h.image.files, h.host]
  rfl

theorem Became.does {bs filename : List (BitVec 8)} (h : Became s R filename bs s') :
    Does s R { s.view with image := Function.update s.files filename (some bs) } s' := by
  refine ⟨h.wf, ?_, h.kept⟩
  rw [Image.view, h.files, h.rest]
  rfl

theorem Image.Source.get {path : Path} {bs : List (BitVec 8)} (h : s.Source path bs) : s.view.get path = bs := by
  unfold Image.Source at h
  unfold Store.get
  cases hp : imageName path with
  | none =>
    simp only [hp] at h
    show (s.host path).getD [] = bs
    rw [h.1]
    rfl
  | some name =>
    simp only [hp] at h
    show (s.files (FAT_filename name)).getD [] = bs
    rw [h.1]
    rfl

/-- what is in `filebuf0` behind `readfile` -/
theorem readfile_ok (hw : Wf s R) {path : Path} (hv : Path.Valid path) {flags : Nat}
    (h : readfile os s path flags = .ok s') : Loaded s (s.view.get path) s' := by
  obtain ⟨hok, herr⟩ := readfile_spec os hw hv flags
  by_cases hsource : ∃ bs, s.Source path bs
  · obtain ⟨bs, hbs⟩ := hsource
    obtain ⟨s₁, h1, h2⟩ := hok bs hbs
    rw [h] at h1
    rw [hbs.get, Except.ok.inj h1]
    exact h2
  · rw [herr hsource] at h
    cases h

theorem writeHost_does (hw : Wf s R) {path : Path} (hp : imageName path = none) {code : Nat} {keep : Bool}
    (h : writeHost os code keep s path = .ok s') :
    Does s R (s.view.set path (some (s.file ++ (if keep then s.view.get path else []).drop s.file.length))) s' := by
  have hget : s.view.get path = (s.host path).getD [] := by
    rw [Store.get, hp]
    rfl
  unfold writeHost at h
  by_cases ho : os.writable path = true
  · simp only [if_pos ho] at h
    have hs' := Except.ok.inj h
    have hsame : SameImage s s' := by
      rw [← hs']
      exact ⟨⟨rfl, rfl, rfl⟩, rfl, rfl⟩
    refine ⟨hsame.wf hw, ?_, hsame.kept R⟩
    rw [Store.set, hp, Image.view, hsame.files, hget, ← hs']
    rfl
  · simp only [if_neg ho] at h
    cases h

theorem writefile_does (hw : Wf s R) {path : Path} (hv : Path.Valid path) {alloc0 : Nat} (ha : 2 ≤ alloc0)
    {asiz : Option Nat} {flags : Nat} (hlen : s.len_filebuf < 256^4)
    (h : writefile os s path alloc0 asiz flags = .ok s') : Does s R (s.view.set path (some s.file)) s' := by
  cases hp : imageName path with
  | none =>
    have hstep : writefile os s path alloc0 asiz flags = writeHost os 14 false s path := by
      unfold writefile
      rw [hp]
    rw [hstep] at h
    have hdoes := writeHost_does hw hp h
    rw [if_neg Bool.false_ne_true, List.drop_nil, List.append_nil] at hdoes
    exact hdoes
  | some name =>
    obtain ⟨hok, herr⟩ := writefile_spec os hw hp (hv name hp) ha asiz flags hlen rfl
    by_cases hwr : s.Writable (FAT_filename name) (asiz.getD (ceilDiv s.len_filebuf s.len_clu)) alloc0 s.len_filebuf
    · obtain ⟨s₁, h1, h2⟩ := hok hwr
      rw [h] at h1
      rw [Store.set, hp, Except.ok.inj h1]
      exact h2.does
    · obtain ⟨code, h1, _⟩ := herr hwr
      rw [h] at h1
      cases h1

theorem ovrwritefile_does (hw : Wf s R) {path : Path} (hv : Path.Valid path) {alloc0 : Nat} (ha : 2 ≤ alloc0)
    {asiz : Option Nat} {flags : Nat} (hlen : s.len_filebuf < 256^4)
    (h : ovrwritefile os s path alloc0 asiz flags = .ok s') : Does s R (s.view.over path s.file) s' := by
  cases hp : imageName path with
  | none =>
    have hstep : ovrwritefile os s path alloc0 asiz flags = writeHost os 15 true s path := by
      unfold ovrwritefile
      rw [hp]
    rw [hstep] at h
    exact writeHost_does hw hp h
  | some name =>
    obtain ⟨hok, herr⟩ := ovrwritefile_spec os hw hp (hv name hp) ha asiz flags hlen rfl
    by_cases hwr : s.Overwritable (FAT_filename name) (asiz.getD (ceilDiv s.len_filebuf s.len_clu)) alloc0 s.len_filebuf
    · obtain ⟨s₁, h1, h2⟩ := hok hwr
      have hget : s.view.get path = (s.files (FAT_filename name)).getD [] := by
        rw [Store.get, hp]
        rfl
      have hlength : s.file.length = s.len_filebuf := read_length _ _ _
      rw [h] at h1
      rw [Store.over, Store.set, hp, hget, hlength, Except.ok.inj h1]
      exact h2.does
    · obtain ⟨code, h1, _⟩ := herr hwr
      rw [h] at h1
      cases h1

theorem Does.after {st : Store} {s₁ : Image} (h : Does s₁ R st s') (hkept : Kept R s s₁) : Does s R st s' :=
  ⟨h.wf, h.view, hkept.trans h.kept⟩

theorem filebuf_lt {n : Nat} (h : n < SIZ_FILEBUF) : n < 256^4 := by
  unfold SIZ_FILEBUF at h
  omega

theorem decompressFile_ok {nocmp : Bool} (h : decompressFile nocmp s = .ok s') : s' = s := by
  unfold decompressFile at h
  split at h
  · unfold autodecomp2 at h
    simp only at h
    split at h
    · split at h
      · split at h
        · cases h
        · exact (Except.ok.inj h).symm
      · split at h
        · cases h
        · exact (Except.ok.inj h).symm
    · exact (Except.ok.inj h).symm
  · exact (Except.ok.inj h).symm

/-- what is between the two halves of a copy -/
theorem decompress_bind {nocmp : Bool} {f : Image → Except Halt Image}
    (h : (decompressFile nocmp s >>= fun s => f s) = .ok s') : f s = .ok s' := by
  cases hd : decompressFile nocmp s with
  | error e =>
    rw [hd] at h
    cases h
  | ok s₁ =>
    rw [hd, decompressFile_ok hd] at h
    exact h

theorem cmd_copy_does (hw : Wf s R) {nocmp : Bool} {src dst : Path} (hsrc : Path.Valid src) (hdst : Path.Valid dst)
    (h : cmd_copy os s nocmp src dst = .ok s') : Does s R (s.view.set dst (some (s.view.get src))) s' := by
  unfold cmd_copy at h
  cases hr : readfile os s src 0x0f with
  | error e =>
    rw [hr] at h
    cases h
  | ok s₁ =>
    have hl := readfile_ok hw hsrc hr
    rw [hr] at h
    have hd := writefile_does (hl.image.wf hw) hdst (Nat.le_refl 2) (filebuf_lt hl.length) (decompress_bind h)
    rw [hl.file, hl.view] at hd
    exact hd.after (hl.image.kept R)

theorem cmd_ovrcopy_does (hw : Wf s R) {nocmp : Bool} {src dst : Path} (hsrc : Path.Valid src) (hdst : Path.Valid dst)
    (h : cmd_ovrcopy os s nocmp src dst = .ok s') : Does s R (s.view.over dst (s.view.get src)) s' := by
  unfold cmd_ovrcopy at h
  cases hr : readfile os s src 0x0f with
  | error e =>
    rw [hr] at h
    cases h
  | ok s₁ =>
    have hl := readfile_ok hw hsrc hr
    rw [hr] at h
    have hd := ovrwritefile_does (hl.image.wf hw) hdst (Nat.le_refl 2) (filebuf_lt hl.length) (decompress_bind h)
    rw [hl.file, hl.view] at hd
    exact hd.after (hl.image.kept R)

theorem blankFile_loaded (s : Image) {size : Nat} (h : size < SIZ_FILEBUF) :
    Loaded s (List.replicate size 0) (blankFile s size) :=
  ⟨⟨⟨rfl, rfl, rfl⟩, rfl, rfl⟩, rfl, read_write s.filebuf0 0 List.length_replicate, h⟩

theorem cmd_create_does (hw : Wf s R) {file : Path} {size begin : Nat} {asiz : Option Nat} (hfile : Path.Valid file)
    (hb : 2 ≤ begin) (h : cmd_create os s file size asiz begin = .ok s') :
    Does s R (s.view.set file (some (List.replicate size 0))) s' := by
  unfold cmd_create at h
  by_cases hsize : SIZ_FILEBUF ≤ size
  · rw [if_pos hsize] at h
    cases h
  · rw [if_neg hsize] at h
    have hl := blankFile_loaded s (Nat.lt_of_not_le hsize)
    have hd := writefile_does (hl.image.wf hw) hfile hb (filebuf_lt hl.length) h
    rw [hl.file, hl.view] at hd
    exact hd.after (hl.image.kept R)

theorem cmd_ovrcreate_does (hw : Wf s R) {file : Path} {size begin : Nat} {asiz : Option Nat}
    (hfile : Path.Valid file) (hb : 2 ≤ begin) (h : cmd_ovrcreate os s file size asiz begin = .ok s') :
    Does s R (s.view.over file (List.replicate size 0)) s' := by
  unfold cmd_ovrcreate at h
  by_cases hsize : SIZ_FILEBUF ≤ size
  · rw [if_pos hsize] at h
    cases h
  · rw [if_neg hsize] at h
    have hl := blankFile_loaded s (Nat.lt_of_not_le hsize)
    have hd := ovrwritefile_does (hl.image.wf hw) hfile hb (filebuf_lt hl.length) h
    rw [hl.file, hl.view] at hd
    exact hd.after (hl.image.kept R)

theorem deletefile_does (hw : Wf s R) {file : Path} (hv : Path.Valid file) (h : deletefile os s file = .ok s') :
    Does s R (Cmd.apply os s.view (.delete file)) s' := by
  cases hp : imageName file with
  | none =>
    unfold deletefile at h
    simp only [hp] at h
    have hs' := Except.ok.inj h
    have hsame : SameImage s s' := by
      rw [← hs']
      split
      · exact ⟨⟨rfl, rfl, rfl⟩, rfl, rfl⟩
      · exact ⟨⟨rfl, rfl, rfl⟩, rfl, rfl⟩
    refine ⟨hsame.wf hw, ?_, hsame.kept R⟩
    rw [Image.view, hsame.files, ← hs', Cmd.apply, Store.set, hp]
    cases os.removable file
    · rfl
    · rfl
  | some name =>
    obtain ⟨s₁, h1, h2, h3, h4, h5⟩ := deletefile_spec os hw hp (hv name hp)
    rw [h] at h1
    rw [Except.ok.inj h1]
    refine ⟨h2, ?_, h5⟩
    rw [Image.view, h3, h4, Cmd.apply, Store.set, hp]
    rfl

theorem setattrfile_does (hw : Wf s R) {file : Path} {attr : BitVec 8} (hv : Path.Valid file)
    (h : setattrfile s file attr = .ok s') : Does s R (Cmd.apply os s.view (.setattr file attr)) s' := by
  cases hp : imageName file with
  | none =>
    unfold setattrfile at h
    rw [hp] at h
    cases h
  | some name =>
    obtain ⟨hok, herr⟩ := setattrfile_spec hw hp (hv name hp) attr
    by_cases hfile : s.files (FAT_filename name) = none
    · rw [herr hfile] at h
      cases h
    · obtain ⟨s₁, h1, h2, h3, h4, h5⟩ := hok hfile
      rw [h] at h1
      rw [Except.ok.inj h1]
      refine ⟨h2, ?_, h4⟩
      rw [Image.view, h5, h3, Cmd.apply, Store.set, hp]
      by_cases hattr : attr &&& 0xd8 = 0
      · rw [if_pos hattr, if_pos hattr]
        rfl
      · rw [if_neg hattr, if_neg hattr]
        rfl

theorem release_mini_does (hw : Wf s R) (h : release_mini s = .ok s') : Does s R s.view s' := by
  unfold release_mini at h
  rw [if_neg hw.geometry.flag] at h
  obtain ⟨h1, h2, h3⟩ := miniLoop_spec s.fat s.limit_fat
  rw [← Except.ok.inj h]
  refine ⟨wf_shorten hw (h2 hw.geometry.limit) h1 h3 _, rfl, fun _ _ => ⟨rfl, rfl⟩, rfl, fun _ _ => rfl,
    Relinked.refl s.fat, fun _ _ => rfl, h3, h1, fun hlen => ⟨Nat.le_refl _, ?_⟩⟩
  exact (Nat.add_le_add_left (Nat.mul_le_mul_right _ (Nat.sub_le_sub_right h1 2)) _).trans hlen

theorem release_zerofill_does (hw : Wf s R) (h : release_zerofill s = .ok s') : Does s R s.view s' := by
  unfold release_zerofill at h
  rw [if_neg hw.geometry.flag] at h
  have hl : ∀ j ∈ List.range' 2 (s.limit_fat - 2), 2 ≤ j := fun j hj => (List.mem_range'_1.mp hj).1
  obtain ⟨h1, h2, h3, h4⟩ := zeroClusters_spec hl hw
  have hs' : zeroClusters (List.range' 2 (s.limit_fat - 2)) s = s' := Except.ok.inj h
  rw [hs'] at h1 h2 h3 h4
  refine ⟨h1, ?_, h4⟩
  rw [Image.view, h2, h3]
  rfl

theorem exec_does (hw : Wf s R) {c : Cmd} (hv : c.Valid) (h : c.exec os s = .ok s') :
    Does s R (c.apply os s.view) s' := by
  cases c with
  | copy nocmp src dst => exact cmd_copy_does hw hv.1 hv.2 h
  | ovrcopy nocmp src dst => exact cmd_ovrcopy_does hw hv.1 hv.2 h
  | create file size asiz begin => exact cmd_create_does hw hv.1 hv.2 h
  | ovrcreate file size asiz begin => exact cmd_ovrcreate_does hw hv.1 hv.2 h
  | delete file => exact deletefile_does hw hv h
  | setattr file attr => exact setattrfile_does hw hv h
  | mini => exact release_mini_does hw h
  | zerofill => exact release_zerofill_does hw h

/-- **What a script does** to the files is what its commands are for, one after the other. -/
theorem script_refines (os : Os) {cs : List Cmd} (hv : ∀ c ∈ cs, c.Valid) : ∀ {s s' : Image}, Wf s R →
    script os s cs = .ok s' →
    Wf s' R ∧ s'.view = cs.foldl (fun st c => c.apply os st) s.view ∧ Kept R s s' := by
  induction cs with
  | nil =>
    intro s s' hw h
    rw [← Except.ok.inj h]
    exact ⟨hw, rfl, Kept.refl R s⟩
  | cons c cs ih =>
    intro s s' hw h
    rw [script] at h
    cases hc : c.exec os s with
    | error e =>
      rw [hc] at h
      cases h
    | ok s₁ =>
      rw [hc] at h
      have hd := exec_does hw (hv c List.mem_cons_self) hc
      obtain ⟨h1, h2, h3⟩ := ih (fun c hc => hv c (List.mem_cons_of_mem _ hc)) hd.wf h
      refine ⟨h1, ?_, hd.kept.trans h3⟩
      rw [List.foldl_cons, ← hd.view]
      exact h2

/-- an empty disk of two entries and three clusters, with a file on the host -/
def blankDisk : Image where
  filebuf0 := fun _ => 0
  len_filebuf := 0
  imgbuf0 := fun _ => 0
  len_imgbuf := 70
  len_sec := 2
  len_clu := 2
  limit_fat := 5
  fat := fun _ => 0
  BPB := 0
  fat0 := 0
  fat1 := 0
  dir0 := 0
  clu0002 := 64
  flag := 2
  bias := 0
  fbuf_at := ⟨0, 0, 0, 0, 0, 0, 0, 0⟩
  host := fun path => if path = [0x61] then some [1, 2, 3] else none

theorem not_live_blankDisk (k : Nat) : ¬ blankDisk.Live k := fun h => h.1.2 k (Nat.lt_succ_self k) rfl

theorem wf_blankDisk : Wf blankDisk ∅ where
  geometry := by constructor <;> decide
  clusters := fun k hk => absurd hk (not_live_blankDisk k)
  apart := fun k _ hk => absurd hk (not_live_blankDisk k)
  names := fun k _ hk => absurd hk.1 (not_live_blankDisk k)
  reserved := fun j hj => absurd hj (Set.notMem_empty j)
  lost := fun j _ hne => absurd rfl hne
  sizes := fun k hk => absurd hk.1 (not_live_blankDisk k)

/-- a host that lets edimg do everything -/
def openHost : Os := ⟨fun _ => true, fun _ => true, fun _ => none⟩

/-- the path `@:c` -/
def atFile (c : BitVec 8) : Path := [0x40, 0x3a, c]

theorem atFile_valid {c : BitVec 8} (hc : imageName (atFile c) = some [c]) (h0 : c ≠ 0) (h1 : c ≠ 0xe5) :
    Path.Valid (atFile c) := by
  intro name h
  rw [← Option.some.inj (hc.symm.trans h)]
  exact ⟨by simpa using h0, by simpa using h1⟩

/-- `copy from:a to:@:b`, `create name:@:c size:2`, `delete name:@:b` -/
def smallScript : List Cmd :=
  [.copy false [0x61] (atFile 0x62), .create (atFile 0x63) 2 none 2, .delete (atFile 0x62)]

theorem smallScript_valid : ∀ c ∈ smallScript, c.Valid := by
  have hb : Path.Valid (atFile 0x62) := atFile_valid rfl (by decide) (by decide)
  have hc : Path.Valid (atFile 0x63) := atFile_valid rfl (by decide) (by decide)
  have ha : Path.Valid [0x61] := fun name h => by cases h
  unfold smallScript
  rw [List.forall_mem_cons, List.forall_mem_cons, List.forall_mem_singleton]
  exact ⟨⟨ha, hb⟩, ⟨hc, Nat.le_refl 2⟩, hb⟩

theorem script_small : ∃ s', script openHost blankDisk smallScript = .ok s' ∧ Wf s' ∅ ∧
    s'.files (FAT_filename [0x62]) = none ∧ s'.files (FAT_filename [0x63]) = some [0, 0] := by
  have hrun : ∃ s', script openHost blankDisk smallScript = .ok s' := ⟨_, rfl⟩
  obtain ⟨s', h⟩ := hrun
  obtain ⟨hw, hview, _⟩ := script_refines openHost smallScript_valid wf_blankDisk h
  have hfiles := congrArg Store.image hview
  exact ⟨s', h, hw, congrFun hfiles (FAT_filename [0x62]), congrFun hfiles (FAT_filename [0x63])⟩

/-! ## when a copy succeeds -/

/-- an entry for the name, and clusters for a file of `len` bytes, those of an old file included -/
def Image.HasRoom (s : Image) (filename : List (BitVec 8)) (len : Nat) : Prop :=
  s.HasSlot filename ∧ ceilDiv len s.len_clu ≤ s.owned filename + room s.limit_fat s.fat 2

theorem SameImage.hasRoom (h : SameImage s s') (filename : List (BitVec 8)) (len : Nat) :
    s'.HasRoom filename len ↔ s.HasRoom filename len := by
  unfold Image.HasRoom Image.HasSlot
  rw [h.find, h.owned, h.fat, h.layout.limit_fat, h.layout.len_clu, h.layout.entries]
  simp only [h.live]

theorem ceilDiv_pos {n k : Nat} (hk : 0 < k) (hn : 0 < n) : 0 < ceilDiv n k :=
  Nat.div_pos (by omega) hk

theorem ceilDiv_mul_le (n : Nat) {k : Nat} (hk : 0 < k) : n ≤ ceilDiv n k * k := by
  have hlt := Nat.lt_div_mul_add (a := n + k - 1) hk
  unfold ceilDiv
  omega

/-- a file of some bytes is written if there is room for it, and an empty one never -/
theorem writable_iff (hg : Geometry s) (filename : List (BitVec 8)) (len : Nat) :
    s.Writable filename (ceilDiv len s.len_clu) 2 len ↔ s.HasRoom filename len ∧ 0 < len := by
  constructor
  · intro h
    refine ⟨⟨h.slot, h.room⟩, Nat.pos_of_ne_zero fun hzero => ?_⟩
    have hpos := h.pos
    rw [hzero, ceilDiv, Nat.zero_add, Nat.div_eq_of_lt (Nat.sub_one_lt_of_lt hg.cluster)] at hpos
    cases hpos
  · intro h
    exact ⟨h.1.1, h.1.2, ceilDiv_pos hg.cluster h.2, ceilDiv_mul_le len hg.cluster⟩

/-- **What becomes of a copy into the image**: each of the three errors has its cause, and there is no other one. -/
theorem copy_outcome (os : Os) (hw : Wf s R) {src dst : Path} {name : List (BitVec 8)} (hsrc : Path.Valid src)
    (hp : imageName dst = some name) (hn : ValidName name) :
    ((¬ ∃ bs, s.Source src bs) → cmd_copy os s false src dst = .error (.errend 13)) ∧ ∀ bs, s.Source src bs →
      (¬ s.HasRoom (FAT_filename name) bs.length → cmd_copy os s false src dst = .error (.errend 18)) ∧
      (s.HasRoom (FAT_filename name) bs.length → bs = [] → cmd_copy os s false src dst = .error (.errend 14)) ∧
      (s.HasRoom (FAT_filename name) bs.length → bs ≠ [] → ∃ s', cmd_copy os s false src dst = .ok s' ∧ Wf s' R ∧
        s'.files = Function.update s.files (FAT_filename name) (some bs)) := by
  obtain ⟨hok, herr⟩ := readfile_spec os hw hsrc 0x0f
  unfold cmd_copy
  refine ⟨fun h => ?_, fun bs hbs => ?_⟩
  · rw [herr h]
    rfl
  · obtain ⟨s₁, hr, hl⟩ := hok bs hbs
    have hw₁ := hl.image.wf hw
    have hlen : s₁.len_filebuf = bs.length := by
      rw [← hl.file]
      exact (read_length _ _ _).symm
    obtain ⟨hwrite, hfail⟩ := writefile_spec os hw₁ hp hn (Nat.le_refl 2) none 0x07 (filebuf_lt hl.length) rfl
    have hstep : (readfile os s src 0x0f >>= fun s => decompressFile false s >>= fun s => writefile os s dst 2 none 0x07) =
        writefile os s₁ dst 2 none 0x07 := by
      rw [hr]
      rfl
    have hroom := hl.image.hasRoom (FAT_filename name) bs.length
    have hiff := writable_iff hw₁.geometry (FAT_filename name) bs.length
    rw [hroom] at hiff
    unfold Image.HasRoom at hroom
    rw [Option.getD_none, hlen, hiff] at hwrite hfail
    rw [hstep]
    refine ⟨fun h => ?_, fun h hnil => ?_, fun h hne => ?_⟩
    · obtain ⟨code, h1, _, h3⟩ := hfail fun hc => h hc.1
      rw [h1, h3 (mt hroom.mp h)]
    · obtain ⟨code, h1, h2, _⟩ := hfail fun hc => by
        rw [hnil] at hc
        exact Nat.lt_irrefl 0 hc.2
      rw [h1, h2 (hroom.mpr h)]
    · obtain ⟨s', h1, h2⟩ := hwrite ⟨h, List.length_pos_iff.mpr hne⟩
      refine ⟨s', h1, h2.wf, ?_⟩
      rw [h2.files, hl.image.files, ← hlen]
      exact congrArg (fun bs => Function.update s.files _ (some bs)) hl.file

theorem copy_small : ∃ s', cmd_copy openHost blankDisk false [0x61] (atFile 0x62) = .ok s' ∧ Wf s' ∅ ∧
    s'.files = Function.update blankDisk.files (FAT_filename [0x62]) (some [1, 2, 3]) := by
  have hsource : blankDisk.Source [0x61] [1, 2, 3] := ⟨rfl, by decide⟩
  have hroom : blankDisk.HasRoom (FAT_filename [0x62]) 3 := ⟨Or.inr ⟨0, by decide, not_live_blankDisk 0⟩, by decide⟩
  have hname : ValidName [0x62] := ⟨by decide, by decide⟩
  have hsrc : Path.Valid [0x61] := fun name h => by cases h
  exact (((copy_outcome openHost wf_blankDisk hsrc rfl hname).2 _ hsource).2.2 hroom (by simp))

end Clubcos.Edimg
