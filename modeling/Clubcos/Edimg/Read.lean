import Clubcos.Edimg.Files

/-!
# Files read, deleted and hidden

* `readfile_spec`      **a file is read** iff it is there, has a cluster and fits into `filebuf0`;
* `deletefile_spec`    a file is deleted, and its clusters are free;
* `setattrfile_spec`   a file is hidden by the attribute of a label or a directory.
-/

set_option linter.unusedVariables false

namespace Clubcos.Edimg
open Bytes Chain

variable {s s' : Image} {R : Set Nat} {k : Nat} {os : Os}

/-! ## readfile -/

theorem SameImage.trans {s'' : Image} (h : SameImage s s') (h' : SameImage s' s'') : SameImage s s'' :=
  ⟨h.layout.trans h'.layout, h'.imgbuf0.trans h.imgbuf0, h'.fat.trans h.fat⟩

theorem SameImage.owned (h : SameImage s s') (filename : List (BitVec 8)) : s'.owned filename = s.owned filename := by
  rw [Image.owned, h.find, funext fun i => congrArg List.length (h.chain i)]
  rfl

/-- what is read is in `filebuf0` -/
def Image.file (s : Image) : List (BitVec 8) := read s.filebuf0 0 s.len_filebuf

/-- the file is there, with a cluster, and fits into `filebuf0` with its last cluster -/
def Image.Readable (s : Image) (filename bs : List (BitVec 8)) : Prop :=
  s.files filename = some bs ∧ 0 < s.owned filename ∧ bs.length + s.len_clu ≤ SIZ_FILEBUF

/-- `filebuf0` holds `bs`, and all files are what they were -/
structure Loaded (s : Image) (bs : List (BitVec 8)) (s' : Image) : Prop where
  image : SameImage s s'
  host : s'.host = s.host
  file : s'.file = bs
  length : s'.len_filebuf < SIZ_FILEBUF

theorem readImage_spec (hw : Wf s R) {name : List (BitVec 8)} (hn : ValidName name) (flags : Nat) :
    (∀ bs, s.Readable (FAT_filename name) bs → ∃ s', readImage s name flags = .ok s' ∧ Loaded s bs s') ∧
    ((¬ ∃ bs, s.Readable (FAT_filename name) bs) → readImage s name flags = .error (.errend 13)) := by
  unfold readImage
  cases hd : dir_search s name 0xd8 0x00 with
  | none =>
    have hnone : s.files (FAT_filename name) = none :=
      files_eq_none fun i hi => dir_search_none hw.geometry hd i hi
    refine ⟨fun bs h => ?_, fun _ => rfl⟩
    rw [h.1] at hnone
    cases hnone
  | some p =>
    obtain ⟨k, hpk, hk, hname⟩ := dir_search_some hw.geometry hn hd
    have hfile : s.files (FAT_filename name) = some (s.bytes k) := hname ▸ files_eq_some hw.toGood hk
    have hown : s.owned (FAT_filename name) = (s.chain k).length := by
      rw [Image.owned, ← hname, find_eq_some hw.toGood hk]
      rfl
    have hlen := bytes_length hw hk
    have hsize : s.dword (p + 0x1c) = (s.bytes k).length := by
      rw [hlen, hpk]
      rfl
    show _ ∧ _
    simp only [hsize]
    by_cases hbig : SIZ_FILEBUF < (s.bytes k).length + s.len_clu
    · simp only [if_pos hbig]
      refine ⟨fun bs h => ?_, fun _ => trivial⟩
      obtain ⟨h1, _, h3⟩ := h
      rw [hfile, Option.some_inj] at h1
      rw [← h1] at h3
      omega
    · simp only [if_neg hbig]
      have hc := hw.clusters k hk.1
      have hstart : s.word (p + 0x1a) = first 0 (s.chain k) := by
        rw [hpk]
        exact hc.start
      have hsizes := hw.sizes k hk
      rw [hstart]
      cases hch : s.chain k with
      | nil =>
        refine ⟨fun bs h => ?_, fun _ => ?_⟩
        · have := h.2.1
          rw [hown, hch] at this
          cases this
        · rw [first_nil, readLoop_none s (Nat.succ_pos _)]
          rfl
      | cons j l =>
        obtain ⟨e, he, hl⟩ := hc.ends
        have hinside := hc.inside
        rw [hch] at hl hinside hsizes
        rw [← hlen] at hsizes
        obtain ⟨buf, hok, hread, _⟩ := readLoop_spec hw.geometry hl hinside hsizes (Nat.lt_succ_self _)
          (q := 0)
        refine ⟨fun bs h => ?_, fun h => absurd ⟨_, hfile, ?_, ?_⟩ h⟩
        · have h1 := h.1
          rw [hfile, Option.some_inj] at h1
          rw [first_cons, hok]
          refine ⟨_, rfl, ⟨⟨⟨rfl, rfl, rfl⟩, rfl, rfl⟩, rfl, ?_, ?_⟩⟩
          · show read buf 0 (s.bytes k).length = bs
            rw [hread, ← h1, hlen, Image.bytes, hch]
          · show (s.bytes k).length < SIZ_FILEBUF
            have := hw.geometry.cluster
            omega
        · rw [hown, hch]
          exact Nat.succ_pos _
        · exact Nat.le_of_not_lt hbig

theorem readHost_spec (os : Os) (s : Image) (path : Path) (flags : Nat) :
    (∀ bs, s.host path = some bs → bs.length < SIZ_FILEBUF → ∃ s', readHost os s path flags = .ok s' ∧ Loaded s bs s') ∧
    ((¬ ∃ bs, s.host path = some bs ∧ bs.length < SIZ_FILEBUF) → readHost os s path flags = .error (.errend 13)) := by
  unfold readHost
  cases hf : s.host path with
  | none => simp
  | some file =>
    simp only [Option.some.injEq]
    by_cases hbig : SIZ_FILEBUF ≤ file.length
    · rw [if_pos hbig]
      refine ⟨fun bs h1 h2 => ?_, fun _ => rfl⟩
      rw [← h1] at h2
      omega
    · rw [if_neg hbig]
      refine ⟨fun bs h1 h2 => ⟨_, rfl, ⟨⟨⟨rfl, rfl, rfl⟩, rfl, rfl⟩, rfl, ?_, ?_⟩⟩, fun h => ?_⟩
      · rw [← h1]
        exact read_write s.filebuf0 0 (rfl : file.length = file.length)
      · exact Nat.lt_of_not_le hbig
      · exact absurd ⟨file, rfl, Nat.lt_of_not_le hbig⟩ h

/-- the file at a path: of the image if the path begins with `@:`, else of the host -/
def Image.Source (s : Image) (path : Path) (bs : List (BitVec 8)) : Prop :=
  match imageName path with
  | some name => s.Readable (FAT_filename name) bs
  | none => s.host path = some bs ∧ bs.length < SIZ_FILEBUF

/-- **`readfile`** reads a file of the image or of the host. -/
theorem readfile_spec (os : Os) (hw : Wf s R) {path : Path} (hn : ∀ name, imageName path = some name → ValidName name)
    (flags : Nat) : (∀ bs, s.Source path bs → ∃ s', readfile os s path flags = .ok s' ∧ Loaded s bs s') ∧
    ((¬ ∃ bs, s.Source path bs) → readfile os s path flags = .error (.errend 13)) := by
  generalize hs₀ : { s with fbuf_at := resetAttrTime s.fbuf_at flags } = s₀
  have hsame : SameImage s s₀ := by
    rw [← hs₀]
    exact ⟨⟨rfl, rfl, rfl⟩, rfl, rfl⟩
  have hhost : s₀.host = s.host := by rw [← hs₀]
  have hloaded : ∀ {bs s'}, Loaded s₀ bs s' → Loaded s bs s' := fun h =>
    ⟨hsame.trans h.image, h.host.trans hhost, h.file, h.length⟩
  unfold Image.Source
  cases hp : imageName path with
  | none =>
    have hstep : readfile os s path flags = readHost os s₀ path flags := by
      unfold readfile
      rw [hp, ← hs₀]
    rw [hstep]
    obtain ⟨hok, herr⟩ := readHost_spec os s₀ path flags
    rw [hhost] at hok herr
    refine ⟨fun bs h => ?_, herr⟩
    obtain ⟨s', h1, h2⟩ := hok bs h.1 h.2
    exact ⟨s', h1, hloaded h2⟩
  | some name =>
    have hstep : readfile os s path flags = readImage s₀ name flags := by
      unfold readfile
      rw [hp, ← hs₀]
    rw [hstep]
    obtain ⟨hok, herr⟩ := readImage_spec (hsame.wf hw) (hn name hp) flags
    have hread : ∀ bs, s₀.Readable (FAT_filename name) bs ↔ s.Readable (FAT_filename name) bs := by
      intro bs
      unfold Image.Readable
      rw [hsame.files, hsame.owned, hsame.layout.len_clu]
    simp only [hread] at hok herr
    refine ⟨fun bs h => ?_, herr⟩
    obtain ⟨s', h1, h2⟩ := hok bs h
    exact ⟨s', h1, hloaded h2⟩

/-! ## deletefile and setattrfile -/

/-- the mark of a deleted entry -/
theorem mark_touches (hg : Geometry s) (hk : s.Live k) (hchain : s.chain k = []) :
    Touches s (s.store (s.entry k) [0xe5]) R k ∧ ¬ (s.store (s.entry k) [0xe5]).Live k := by
  have hle := hg.entry_le hk.lt
  have hother : ∀ i, i ≠ k → ∀ x < 32, (s.store (s.entry k) [0xe5]).imgbuf0 (s.entry i + x) = s.imgbuf0 (s.entry i + x) := by
    intro i hik x hx
    refine write_apart _ _ ?_
    rw [List.length_singleton]
    unfold Image.entry
    omega
  have hself : (s.store (s.entry k) [0xe5]).imgbuf0 (s.entry k) = 0xe5 :=
    write_inside s.imgbuf0 (s.entry k) [0xe5] (i := 0) (by simp)
  have hcluster : ∀ j, (s.store (s.entry k) [0xe5]).cluster j = s.cluster j := by
    intro j
    have := clusterAt_ge s j
    apply cluster_congr (sameLayout_store _ _ _)
    intro a ha _
    refine write_above _ _ ?_
    rw [List.length_singleton]
    omega
  have hreach : ∀ i, (s.store (s.entry k) [0xe5]).Reached i ↔ s.Reached i := by
    intro i
    refine Image.Reached.iff_of_heads (sameLayout_store _ _ _) fun j hj => ?_
    rw [Image.entry_store]
    by_cases hjk : j = k
    · rw [hjk, hself]
      exact iff_of_false (by decide) (hk.1.2 k (Nat.lt_succ_self k))
    · rw [← Nat.add_zero (s.entry j), hother j hjk 0 (by omega)]
  refine ⟨⟨sameLayout_store _ _ _, fun i hik => ?_, fun i hik _ => ⟨rfl, hother i hik⟩, fun _ _ _ _ _ => rfl,
    fun _ _ _ j _ => hcluster j, fun j hj => Or.inl ⟨hj, fun _ => by rw [hchain]; exact List.not_mem_nil⟩,
    (sameLayout_store _ _ _).kept (fun j _ => ⟨rfl, hcluster j⟩)
      (fun a ha => write_below _ _ (by unfold Image.entry; omega)) (Relinked.refl s.fat) fun _ _ => rfl⟩, fun h => h.2 hself⟩
  unfold Image.Live
  rw [hreach, Image.entry_store, ← Nat.add_zero (s.entry i), hother i hik 0 (by omega)]

/-- **`deletefile`** leaves no file of the name, and the others as they are. -/
theorem deletefile_spec (os : Os) (hw : Wf s R) {path : Path} {name : List (BitVec 8)} (hp : imageName path = some name)
    (hn : ValidName name) : ∃ s', deletefile os s path = .ok s' ∧ Wf s' R ∧
      s'.files = Function.update s.files (FAT_filename name) none ∧ Rest s s' ∧ Kept R s s' := by
  have hflag := hw.geometry.flag
  unfold deletefile
  simp only [hp, if_neg hflag]
  cases hd : dir_search s name 0xd8 0x00 with
  | none =>
    have hnone : s.files (FAT_filename name) = none := files_eq_none fun i hi => dir_search_none hw.geometry hd i hi
    exact ⟨s, rfl, hw, by rw [← hnone, Function.update_eq_self], Rest.refl s, Kept.refl R s⟩
  | some p =>
    obtain ⟨k, hpk, hk, hname⟩ := dir_search_some hw.geometry hn hd
    have hres := resizefile_edit hw.toGood hk 0 (Nat.le_refl 2)
    rw [if_pos (Nat.zero_le _)] at hres
    obtain ⟨s₁, hok, he, hempty, _⟩ := hres
    have hentry : s.entry k = s₁.entry k := (he.rest.layout.entry k).symm
    -- the first cluster to look at is of no use to a file that gives its clusters back
    have hzero : resizefile s (s.entry k) 0 0 = .ok s₁ := hok
    have hmark := mark_touches (R := R) he.good.geometry he.isFile.1 (List.length_eq_zero_iff.mp hempty)
    rw [← hentry] at hmark
    have htouch := he.touches.trans hw.toGood hmark.1
    have hgood : Good (s₁.store (s.entry k) [0xe5]) R :=
      htouch.good hw.toGood (fun h => absurd h hmark.2) fun h => absurd h.1 hmark.2
    refine ⟨s₁.store (s.entry k) [0xe5], ?_, ⟨hgood, fun i hi => ?_⟩, ?_, he.rest.trans rfl, htouch.kept⟩
    · show (resizefile s p 0 0).map _ = _
      rw [hpk, hzero]
      rfl
    · have hik : i ≠ k := by
        rintro rfl
        exact hmark.2 hi.1
      exact htouch.sizes hw hik hi
    · rw [htouch.files_erase hw.toGood hgood hk fun h => hmark.2 h.1, hname]

/-- **`setattrfile`** hides a file by the attribute of a label or a directory. -/
theorem setattrfile_spec (hw : Wf s R) {path : Path} {name : List (BitVec 8)} (hp : imageName path = some name)
    (hn : ValidName name) (attr : BitVec 8) : (s.files (FAT_filename name) ≠ none →
      ∃ s', setattrfile s path attr = .ok s' ∧ Wf s' R ∧ Rest s s' ∧ Kept R s s' ∧
        s'.files = if attr &&& 0xd8 = 0 then s.files else Function.update s.files (FAT_filename name) none) ∧
    (s.files (FAT_filename name) = none → setattrfile s path attr = .error (.errend 22)) := by
  have hflag := hw.geometry.flag
  unfold setattrfile
  simp only [hp, if_neg hflag]
  cases hd : dir_search s name 0xd8 0x00 with
  | none =>
    have hnone : s.files (FAT_filename name) = none := files_eq_none fun i hi => dir_search_none hw.geometry hd i hi
    exact ⟨fun h => absurd hnone h, fun _ => rfl⟩
  | some p =>
    obtain ⟨k, hpk, hk, hname⟩ := dir_search_some hw.geometry hn hd
    have hfile : s.files (FAT_filename name) = some (s.bytes k) := hname ▸ files_eq_some hw.toGood hk
    refine ⟨fun _ => ⟨s.store (s.entry k + 11) [attr], by rw [hpk], ?_⟩, fun h => by rw [hfile] at h; cases h⟩
    have htouch : Touches s (s.store (s.entry k + 11) [attr]) R k :=
      field_touches hw.geometry hk.1 (Nat.le_refl _) (by simp) (Or.inl (by simp))
    have hgood : Good (s.store (s.entry k + 11) [attr]) R :=
      field_good hw.toGood hk.1 (Nat.le_refl _) (by simp) (Or.inl (by simp)) fun _ => hk
    have hattr : (s.store (s.entry k + 11) [attr]).attr k = attr :=
      write_inside s.imgbuf0 (s.entry k + 11) [attr] (i := 0) (by simp)
    have hchain : (s.store (s.entry k + 11) [attr]).chain k = s.chain k := field_chain s k (Or.inl (by simp))
    have hsize : (s.store (s.entry k + 11) [attr]).size k = s.size k := field_size s k (by simp)
    have hcluster : ∀ j, (s.store (s.entry k + 11) [attr]).cluster j = s.cluster j :=
      field_cluster hw.geometry hk.1 (by simp)
    refine ⟨⟨hgood, fun i hi => ?_⟩, rfl, htouch.kept, ?_⟩
    · by_cases hik : i = k
      · rw [hik, hsize, hchain]
        exact hw.sizes k hk
      · exact htouch.sizes hw hik hi
    · have hnm : (s.store (s.entry k + 11) [attr]).name k = s.name k := field_name s k (Nat.le_refl _)
      split
      · rename_i hplain
        have hk' : (s.store (s.entry k + 11) [attr]).IsFile k :=
          ⟨(field_live s k (Nat.le_refl _) (by simp) k).mpr hk.1, by rw [hattr]; exact hplain⟩
        have hbytes : (s.store (s.entry k + 11) [attr]).bytes k = s.bytes k := by
          rw [Image.bytes, hchain, hsize, data_congr fun j _ => hcluster j]
          rfl
        rw [htouch.files_update hw.toGood hgood hk' fun _ => hnm.symm, hnm, hbytes, ← files_eq_some hw.toGood hk,
          Function.update_eq_self]
      · rename_i hhidden
        rw [htouch.files_erase hw.toGood hgood hk fun h => hhidden (hattr ▸ h.2), hname]

end Clubcos.Edimg
