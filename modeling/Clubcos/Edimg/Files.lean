import Clubcos.Edimg.Store

/-!
# Files written and overwritten

* `opened_spec`        the entry that a write goes to;
* `resizefile_edit`    its clusters;
* `writefile_spec`     **a file is written** iff there is an entry for it and there are clusters enough;
* `ovrwritefile_spec`  a file is overwritten from its start on, and keeps what is behind.
-/

set_option linter.unusedVariables false

namespace Clubcos.Edimg
open Bytes Chain

/-- only the image has changed -/
def Rest (s s' : Image) : Prop := s' = { s with imgbuf0 := s'.imgbuf0, fat := s'.fat }

variable {s s' s'' : Image} {R : Set Nat} {k : Nat}

theorem Rest.refl (s : Image) : Rest s s := rfl

theorem Rest.trans (h : Rest s s') (h' : Rest s' s'') : Rest s s'' := by
  unfold Rest at h h' ⊢
  rw [h'.trans (by rw [h])]

theorem Rest.layout (h : Rest s s') : SameLayout s s' := by
  rw [h]
  exact ⟨rfl, rfl, rfl⟩

theorem Rest.filebuf0 (h : Rest s s') : s'.filebuf0 = s.filebuf0 := by rw [h]

theorem Rest.len_filebuf (h : Rest s s') : s'.len_filebuf = s.len_filebuf := by rw [h]

theorem Rest.fbuf_at (h : Rest s s') : s'.fbuf_at = s.fbuf_at := by rw [h]

/-! ## the entry that a write goes to -/

/-- the entry of a file, which is a new and empty one if there was none -/
structure Opened (s : Image) (R : Set Nat) (filename : List (BitVec 8)) (s' : Image) (k : Nat) : Prop where
  wf : Wf s' R
  touches : Touches s s' R k
  rest : Rest s s'
  fat : s'.fat = s.fat
  isFile : s'.IsFile k
  name : s'.name k = filename
  old : s.IsFile k → s.name k = filename
  chain : (s'.chain k).length = ((s.find filename).map fun i => (s.chain i).length).getD 0
  bytes : s'.bytes k = (s.files filename).getD []

theorem Created.chain {filename : List (BitVec 8)} (h : Created s filename s' k) : s'.chain k = [] := by
  rw [Image.chain, h.start]
  rfl

theorem Created.touches {filename : List (BitVec 8)} (h : Created s filename s' k) (hg : Good s R) :
    Touches s s' R k := by
  have hfat : s'.fat = s.fat := by rw [h.rest]
  have hcluster : ∀ j, s'.cluster j = s.cluster j := fun j =>
    cluster_congr h.layout fun a ha _ => h.outside a (Or.inr ((clusterAt_ge s j).trans ha))
  exact {
    layout := h.layout
    live := fun i hik => by rw [h.live i, or_iff_left hik]
    entry := fun i _ hi => h.same i hi
    fat := fun _ _ _ _ _ => by rw [hfat]
    cluster := fun _ _ _ j _ => hcluster j
    kept := h.layout.kept (fun j _ => ⟨by rw [hfat], hcluster j⟩) (fun a ha => h.outside a (Or.inl ha))
      (by rw [hfat]; exact Relinked.refl s.fat) fun _ _ => by rw [hfat]
    used := fun j hj => Or.inl ⟨by rwa [hfat] at hj, fun hk => absurd hk h.free⟩
  }

theorem Created.opened {filename : List (BitVec 8)} (h : Created s filename s' k) (hw : Wf s R)
    (hnone : ∀ i, s.IsFile i → s.name i ≠ filename) : Opened s R filename s' k := by
  have ht := h.touches hw.toGood
  have hfile : s'.IsFile k := ⟨(h.live k).mpr (Or.inr rfl), by rw [h.attr]; rfl⟩
  have hgood : Good s' R := by
    refine ht.good hw.toGood (fun _ => ⟨[], ?_, by simp, by simp⟩) fun _ i _ hi => ?_
    · rw [h.start]
      exact ⟨rfl, ⟨0xffff, by omega, trivial⟩, by simp, List.nodup_nil⟩
    · rw [h.name]
      exact hnone i hi
  refine ⟨⟨hgood, fun i hi => ?_⟩, ht, ?_, by rw [h.rest], hfile, h.name, fun hk => absurd hk.1 h.free, ?_, ?_⟩
  · by_cases hik : i = k
    · rw [hik, h.size]
      exact Nat.zero_le _
    · exact ht.sizes hw hik hi
  · unfold Rest
    rw [h.rest]
  · rw [h.chain, find_eq_none hnone]
    rfl
  · rw [files_eq_none hnone, Image.bytes, h.size]
    rfl

theorem opened_self (hw : Wf s R) (hk : s.IsFile k) : Opened s R (s.name k) s k where
  wf := hw
  touches := Touches.refl s R k
  rest := Rest.refl s
  fat := rfl
  isFile := hk
  name := rfl
  old := fun _ => rfl
  chain := by rw [find_eq_some hw.toGood hk]; rfl
  bytes := by rw [files_eq_some hw.toGood hk]; rfl

/-- an entry for the name is there, or can be made -/
def Image.HasSlot (s : Image) (filename : List (BitVec 8)) : Prop :=
  (s.find filename).isSome ∨ ∃ k < s.entries, ¬ s.Live k

theorem opened_spec (hw : Wf s R) {name : List (BitVec 8)} (hn : ValidName name) :
    (∀ r, dir_create s name 0xd8 0 0 = .ok r → s.HasSlot (FAT_filename name) ∧
      ∃ k, r.1 = s.entry k ∧ Opened s R (FAT_filename name) r.2 k) ∧
    (∀ e, dir_create s name 0xd8 0 0 = .error e → e = .errend 18 ∧ ¬ s.HasSlot (FAT_filename name)) := by
  obtain ⟨hok, herr⟩ := dir_create_spec hw.geometry hn
  constructor
  · intro r hr
    obtain ⟨k, hq, ⟨hs, hfile, hname⟩ | ⟨hnone, hc⟩⟩ := hok r hr
    · rw [hs, ← hname]
      refine ⟨Or.inl ?_, k, hq, opened_self hw hfile⟩
      rw [find_eq_some hw.toGood hfile]
      rfl
    · refine ⟨Or.inr ⟨k, ?_, hc.free⟩, k, hq, hc.opened hw hnone⟩
      have := ((hc.live k).mpr (Or.inr rfl)).lt
      rwa [hc.layout.entries] at this
  · intro e he
    obtain ⟨h18, hnone, hall⟩ := herr e he
    refine ⟨h18, ?_⟩
    rintro (h | ⟨i, hi, hfree⟩)
    · rw [find_eq_none hnone] at h
      cases h
    · exact hfree (hall i hi)

/-! ## a field of an entry -/

section
variable {off : Nat} {bs : List (BitVec 8)}

theorem field_outside (s : Image) (h2 : off + bs.length ≤ 32) {i x : Nat} (hik : i ≠ k) (hx : x < 32) :
    (s.store (s.entry k + off) bs).imgbuf0 (s.entry i + x) = s.imgbuf0 (s.entry i + x) := by
  refine write_apart _ _ ?_
  unfold Image.entry
  omega

theorem field_read (s : Image) (k : Nat) {i n : Nat} (h : i + n ≤ off ∨ off + bs.length ≤ i) :
    read (s.store (s.entry k + off) bs).imgbuf0 (s.entry k + i) n = read s.imgbuf0 (s.entry k + i) n :=
  read_write_apart _ (by omega)

theorem field_name (s : Image) (k : Nat) (h1 : 11 ≤ off) : (s.store (s.entry k + off) bs).name k = s.name k :=
  field_read s k (i := 0) (n := 11) (Or.inl (by omega))

theorem field_live (s : Image) (k : Nat) (h1 : 11 ≤ off) (h2 : off + bs.length ≤ 32) (i : Nat) :
    (s.store (s.entry k + off) bs).Live i ↔ s.Live i := by
  have hhead : ∀ i, (s.store (s.entry k + off) bs).imgbuf0 ((s.store (s.entry k + off) bs).entry i) =
      s.imgbuf0 (s.entry i) := by
    intro i
    by_cases hik : i = k
    · rw [hik]
      exact write_below _ _ (by rw [Image.entry_store]; omega)
    · exact field_outside s h2 hik (x := 0) (by omega)
  unfold Image.Live
  rw [Image.Reached.iff_of_heads (sameLayout_store _ _ _) fun i _ => by rw [hhead i], hhead i]

/-- Outside of the directory nothing changes. -/
theorem field_cluster (hg : Geometry s) (hk : s.Live k) (h2 : off + bs.length ≤ 32) (j : Nat) :
    (s.store (s.entry k + off) bs).cluster j = s.cluster j := by
  have h := hg.entry_le hk.lt
  apply cluster_congr (sameLayout_store _ _ _)
  intro a ha _
  have := clusterAt_ge s j
  exact write_above _ _ (by omega)

theorem field_chain (s : Image) (k : Nat) (h3 : off + bs.length ≤ 0x1a ∨ 0x1c ≤ off) :
    (s.store (s.entry k + off) bs).chain k = s.chain k := by
  have hstart : (s.store (s.entry k + off) bs).start k = s.start k :=
    congrArg ofLe (field_read s k (i := 0x1a) (n := 2) (by omega))
  rw [Image.chain, hstart]
  rfl

theorem field_touches (hg : Geometry s) (hk : s.Live k) (h1 : 11 ≤ off) (h2 : off + bs.length ≤ 32)
    (h3 : off + bs.length ≤ 0x1a ∨ 0x1c ≤ off) :
    Touches s (s.store (s.entry k + off) bs) R k where
  layout := sameLayout_store _ _ _
  live := fun i _ => field_live s k h1 h2 i
  entry := fun i hik _ => ⟨rfl, fun x hx => field_outside s h2 hik hx⟩
  fat := fun _ _ _ _ _ => rfl
  cluster := fun _ _ _ j _ => field_cluster hg hk h2 j
  used := used_of_same rfl fun hk => ⟨(field_live s k h1 h2 k).mpr hk, field_chain s k h3⟩
  kept := (sameLayout_store _ _ _).kept (fun j _ => ⟨rfl, field_cluster hg hk h2 j⟩)
    (fun a ha => write_below _ _ (by unfold Image.entry; omega)) (Relinked.refl s.fat) fun _ _ => rfl

/-- A field other than the first cluster is no part of the invariant, unless it makes a hidden entry a file. -/
theorem field_good (hg : Good s R) (hk : s.Live k) (h1 : 11 ≤ off) (h2 : off + bs.length ≤ 32)
    (h3 : off + bs.length ≤ 0x1a ∨ 0x1c ≤ off)
    (hfile : (s.store (s.entry k + off) bs).IsFile k → s.IsFile k) : Good (s.store (s.entry k + off) bs) R := by
  have hstart : (s.store (s.entry k + off) bs).start k = s.start k :=
    congrArg ofLe (field_read s k (i := 0x1a) (n := 2) (by omega))
  refine (field_touches hg.geometry hk h1 h2 h3).good hg (fun _ => ⟨s.chain k, ?_, ?_, ?_⟩) fun hf i hik hi hn => ?_
  · rw [hstart]
    exact hg.clusters k hk
  · exact fun i hik hi j hj => hg.apart k i hk hi (Ne.symm hik) j hj
  · exact fun j hj hR => (hg.reserved j hR).2.2 k hk hj
  · rw [field_name s k h1] at hn
    exact hik (hg.names i k hi (hfile hf) hn)

theorem field_size (s : Image) (k : Nat) (h : off + bs.length ≤ 0x1c) :
    (s.store (s.entry k + off) bs).size k = s.size k :=
  congrArg ofLe (field_read s k (i := 0x1c) (n := 4) (Or.inr (by omega)))

theorem field_attr (s : Image) (k : Nat) (h : 12 ≤ off) : (s.store (s.entry k + off) bs).attr k = s.attr k :=
  write_below _ _ (by rw [Image.entry_store]; omega)

end

/-- What a step leaves as it is, seen from the file in entry `k`. -/
structure Edit (s : Image) (R : Set Nat) (s' : Image) (k : Nat) : Prop where
  good : Good s' R
  touches : Touches s s' R k
  rest : Rest s s'
  isFile : s'.IsFile k
  name : s'.name k = s.name k

theorem Edit.refl (hg : Good s R) (hk : s.IsFile k) : Edit s R s k :=
  ⟨hg, Touches.refl s R k, Rest.refl s, hk, rfl⟩

theorem Edit.trans (hg : Good s R) (h : Edit s R s' k) (h' : Edit s' R s'' k) : Edit s R s'' k :=
  ⟨h'.good, h.touches.trans hg h'.touches, h.rest.trans h'.rest, h'.isFile, h'.name.trans h.name⟩

/-- the size is stored -/
theorem size_edit (hg : Good s R) (hk : s.IsFile k) (v : Nat) :
    Edit s R (s.store (s.entry k + 0x1c) (toLe 4 v)) k ∧ (s.store (s.entry k + 0x1c) (toLe 4 v)).size k = v % 256^4 := by
  have hfile : (s.store (s.entry k + 0x1c) (toLe 4 v)).IsFile k :=
    ⟨(field_live s k (by omega) (by simp) k).mpr hk.1, by rw [field_attr s k (by omega)]; exact hk.2⟩
  refine ⟨⟨field_good hg hk.1 (by omega) (by simp) (Or.inr (Nat.le_refl _)) fun _ => hk,
    field_touches hg.geometry hk.1 (by omega) (by simp) (Or.inr (Nat.le_refl _)), rfl, hfile, field_name s k (by omega)⟩, ?_⟩
  have hread : read (write s.imgbuf0 (s.entry k + 0x1c) (toLe 4 v)) (s.entry k + 0x1c) 4 = toLe 4 v :=
    read_write _ _ (toLe_length 4 v)
  show ofLe (read (write s.imgbuf0 (s.entry k + 0x1c) (toLe 4 v)) (s.entry k + 0x1c) 4) = _
  rw [hread, ofLe_toLe]

theorem attrByte_file (at_ : SarAttrTime) : attrByte at_ &&& 0xd8 = 0 := by
  have h8 : at_.attr >>> 7 &&& 0x07 < 8 := Nat.and_lt_two_pow _ (n := 3) (by omega)
  have hall : ∀ a < 8, (BitVec.ofNat 8 a ||| (0 : BitVec 8)) &&& 0xd8 = 0 ∧ (BitVec.ofNat 8 a ||| (0x20 : BitVec 8)) &&& 0xd8 = 0 := by
    decide
  unfold attrByte
  split
  · exact (hall _ h8).1
  · exact (hall _ h8).2

theorem timeBytes_length (at_ : SarAttrTime) : (timeBytes at_).length = 4 := by simp [timeBytes]

/-- the attribute and the time are stored: the entry is still a file, with the same clusters and the same size -/
theorem attrTime_edit (hg : Good s R) (hk : s.IsFile k) (flags : Nat) :
    Edit s R (storeAttrTime s (s.entry k) flags) k ∧ (storeAttrTime s (s.entry k) flags).chain k = s.chain k ∧
      (storeAttrTime s (s.entry k) flags).size k = s.size k ∧ (∀ j, (storeAttrTime s (s.entry k) flags).cluster j = s.cluster j) ∧
      (storeAttrTime s (s.entry k) flags).fat = s.fat := by
  -- the attribute first
  have hattr : ∃ s₁, (if flags &&& 0x01 = 0 then s else s.store (s.entry k + 0x0b) [attrByte s.fbuf_at]) = s₁ ∧
      Edit s R s₁ k ∧ s₁.chain k = s.chain k ∧ s₁.size k = s.size k ∧ (∀ j, s₁.cluster j = s.cluster j) ∧ s₁.fat = s.fat := by
    split
    · exact ⟨s, rfl, Edit.refl hg hk, rfl, rfl, fun _ => rfl, rfl⟩
    · have hfile : (s.store (s.entry k + 0x0b) [attrByte s.fbuf_at]).IsFile k := by
        refine ⟨(field_live s k (by omega) (by simp) k).mpr hk.1, ?_⟩
        have : (s.store (s.entry k + 0x0b) [attrByte s.fbuf_at]).attr k = attrByte s.fbuf_at :=
          write_inside s.imgbuf0 (s.entry k + 0x0b) [attrByte s.fbuf_at] (i := 0) (by simp)
        rw [this]
        exact attrByte_file _
      exact ⟨_, rfl, ⟨field_good hg hk.1 (by omega) (by simp) (Or.inl (by simp)) fun _ => hk,
        field_touches hg.geometry hk.1 (by omega) (by simp) (Or.inl (by simp)), rfl, hfile, field_name s k (by omega)⟩,
        field_chain s k (Or.inl (by simp)), field_size s k (by simp), field_cluster hg.geometry hk.1 (by simp), rfl⟩
  obtain ⟨s₁, hs₁, hedit, hchain, hsize, hcluster, hfat⟩ := hattr
  have hentry : s.entry k = s₁.entry k := (hedit.touches.layout.entry k).symm
  unfold storeAttrTime
  rw [hs₁]
  simp only
  split
  · exact ⟨hedit, hchain, hsize, hcluster, hfat⟩
  · have hk₁ := hedit.isFile
    generalize hbs : (if s₁.fbuf_at.subsec = -1 then toLe 4 0 else timeBytes (sar_shifttime s₁.fbuf_at s₁.bias)) = bs
    have hlen : bs.length = 4 := by
      rw [← hbs]
      split
      · exact toLe_length 4 0
      · exact timeBytes_length _
    have hfile : (s₁.store (s₁.entry k + 0x16) bs).IsFile k :=
      ⟨(field_live s₁ k (by omega) (by omega) k).mpr hk₁.1, by rw [field_attr s₁ k (by omega)]; exact hk₁.2⟩
    rw [hentry]
    have htime : Edit s₁ R (s₁.store (s₁.entry k + 0x16) bs) k :=
      ⟨field_good hedit.good hk₁.1 (by omega) (by omega) (Or.inl (by omega)) fun _ => hk₁,
        field_touches hedit.good.geometry hk₁.1 (by omega) (by omega) (Or.inl (by omega)), rfl, hfile, field_name s₁ k (by omega)⟩
    exact ⟨hedit.trans hg htime, (field_chain s₁ k (Or.inl (by omega))).trans hchain,
      (field_size s₁ k (by omega)).trans hsize,
      fun j => (field_cluster hedit.good.geometry hk₁.1 (by omega) j).trans (hcluster j), hfat⟩

/-! ## the clusters of a file -/

/-- A chain that comes from `resizefile` is apart from the others, for what it takes was free. -/
theorem Resized.apart {l l' : List Nat} {n alloc0 : Nat} {fat' : Nat → Nat}
    (h : Resized s.limit_fat s.fat l n alloc0 fat' l') {j : Nat} (hj : s.fat j ≠ 0) (hjl : j ∉ l) :
    j ∉ l' ∧ fat' j = s.fat j := by
  have hjl' : j ∉ l' := fun hm => hj (h.fresh j hm hjl).1
  exact ⟨hjl', h.same j hjl hjl'⟩

theorem start_store (s : Image) (k : Nat) {v : Nat} (hv : v < 256^2) :
    (s.store (s.entry k + 0x1a) (toLe 2 v)).start k = v := by
  have hread : read (write s.imgbuf0 (s.entry k + 0x1a) (toLe 2 v)) (s.entry k + 0x1a) 2 = toLe 2 v :=
    read_write _ _ (toLe_length 2 v)
  show ofLe (read (write s.imgbuf0 (s.entry k + 0x1a) (toLe 2 v)) (s.entry k + 0x1a) 2) = v
  rw [hread, ofLe_toLe, Nat.mod_eq_of_lt hv]

/-- the table and the first cluster that `resizefile` leaves, in an entry that is in use -/
theorem resized_touches (hg : Good s R) (hk : s.Live k) {n alloc0 : Nat} {fat' : Nat → Nat} {l' : List Nat}
    (h : Resized s.limit_fat s.fat (s.chain k) n alloc0 fat' l') (hfat : Relinked s.limit_fat s.fat fat')
    (hclusters : Clusters s.limit_fat fat' ((s.store (s.entry k + 0x1a) (toLe 2 (first 0 l'))).start k) l') :
    Touches s { s.store (s.entry k + 0x1a) (toLe 2 (first 0 l')) with fat := fat' } R k := by
  have hlen : (toLe 2 (first 0 l')).length = 2 := toLe_length _ _
  have hcluster : ∀ j, (s.store (s.entry k + 0x1a) (toLe 2 (first 0 l'))).cluster j = s.cluster j :=
    field_cluster hg.geometry hk (by omega)
  have hchain : ({ s.store (s.entry k + 0x1a) (toLe 2 (first 0 l')) with fat := fat' } : Image).chain k = l' :=
    hclusters.chain_eq hg.geometry.limit_le
  have hbeyond : ∀ j, s.limit_fat ≤ j → j ∉ s.chain k ∧ j ∉ l' := fun j hj =>
    ⟨fun hm => Nat.not_lt_of_le hj ((hg.clusters k hk).inside j hm).2,
      fun hm => Nat.not_lt_of_le hj (h.clusters.inside j hm).2⟩
  exact {
    layout := ⟨rfl, rfl, rfl⟩
    live := fun i _ => field_live s k (by omega) (by omega) i
    entry := fun i hik _ => ⟨rfl, fun x hx => field_outside s (by omega) hik hx⟩
    fat := fun i hik hi j hj => (h.apart ((hg.clusters i hi).ne_zero j hj) (hg.apart i k hi hk hik j hj)).2
    cluster := fun _ _ _ j _ => hcluster j
    kept := SameLayout.kept ⟨rfl, rfl, rfl⟩
      (fun j hj => ⟨(h.apart (hg.reserved j hj).2.1.2 ((hg.reserved j hj).2.2 k hk)).2, hcluster j⟩)
      (fun a ha => write_below _ _ (by unfold Image.entry; omega)) hfat fun j hj => h.same j (hbeyond j hj).1 (hbeyond j hj).2
    used := fun j hj => by
      by_cases hjl : j ∈ l'
      · exact Or.inr ⟨(field_live s k (by omega) (by omega) k).mpr hk, by rw [hchain]; exact hjl⟩
      · have hjk : j ∉ s.chain k := fun hm => hj (h.freed j hm hjl)
        have hsame : fat' j = s.fat j := h.same j hjk hjl
        exact Or.inl ⟨hsame ▸ hj, fun _ => hjk⟩
  }

/-- **The clusters of a file** become as many as are asked for, if there are so many. -/
theorem resizefile_edit (hg : Good s R) (hk : s.IsFile k) (n : Nat) {alloc0 : Nat} (ha : 2 ≤ alloc0) :
    if n ≤ (s.chain k).length + room s.limit_fat s.fat alloc0 then
      ∃ s', resizefile s (s.entry k) n alloc0 = .ok s' ∧ Edit s R s' k ∧ (s'.chain k).length = n ∧
        s'.size k = s.size k
    else resizefile s (s.entry k) n alloc0 = .error (.errend 18) := by
  have hlimit := hg.geometry.limit_le
  have hspec := resizeFat_spec (n := n) hlimit (hg.clusters k hk.1) ha
  have hstep : resizefile s (s.entry k) n alloc0 = (resizeFat s.limit_fat s.fat (s.start k) n alloc0).map fun r =>
      { s.store (s.entry k + 0x1a) (toLe 2 r.1) with fat := r.2 } := rfl
  rw [hstep]
  split at hspec
  · rename_i hroom
    rw [if_pos hroom]
    obtain ⟨fat', l', hok, hres⟩ := hspec
    have hfirst : first 0 l' < 256^2 := by
      cases l' with
      | nil => simp
      | cons j l' =>
        have := (hres.clusters.inside j List.mem_cons_self).2
        rw [first_cons]
        omega
    have hclusters : Clusters s.limit_fat fat' ((s.store (s.entry k + 0x1a) (toLe 2 (first 0 l'))).start k) l' := by
      rw [start_store s k hfirst]
      exact hres.clusters
    have htouch := resized_touches hg hk.1 hres (resizeFat_relinked hok) hclusters
    rw [hok]
    refine ⟨_, rfl, ⟨htouch.good hg (fun _ => ⟨l', hclusters, fun i hik hi j hj hji => ?_, fun j hj hR => ?_⟩)
      fun _ i hik hi hn => ?_, htouch, rfl, ⟨(field_live s k (by omega) (by simp) k).mpr hk.1, ?_⟩, ?_⟩, ?_, ?_⟩
    · exact (hres.apart ((hg.clusters i hi).ne_zero j hji) (hg.apart i k hi hk.1 hik j hji)).1 hj
    · exact (hres.apart (hg.reserved j hR).2.1.2 ((hg.reserved j hR).2.2 k hk.1)).1 hj
    · exact hik (hg.names i k hi hk (hn.trans (field_name s k (by omega))))
    · exact (congrArg (· &&& 0xd8) (field_attr s k (by omega))).trans hk.2
    · exact field_name s k (by omega)
    · exact (congrArg List.length (hclusters.chain_eq hlimit)).trans hres.length
    · exact field_size s k (by simp)
  · rename_i hroom
    rw [if_neg hroom, hspec]
    rfl

/-! ## the bytes of a file -/

theorem Written.touches {pad : Bool} {i r : Nat} (hg : Good s R) (hk : s.Live k)
    (h : Written s pad (s.chain k) i r s') : Touches s s' R k := by
  have hc := (hg.clusters k hk).inside
  have hfat : s'.fat = s.fat := by rw [h.rest]
  have hdir : ∀ a < s.clu0002, s'.imgbuf0 a = s.imgbuf0 a := fun a ha =>
    h.outside a fun j _ => Or.inl (lt_of_lt_of_le ha (clusterAt_ge s j))
  have hentry : ∀ i < s.entries, SameEntry s s' i := fun i hi => by
    have := hg.geometry.entry_le hi
    exact ⟨h.layout.entry i, fun x hx => hdir _ (by omega)⟩
  have hcluster : ∀ j, 2 ≤ j → j ∉ s.chain k → s'.cluster j = s.cluster j := fun j hj hjk =>
    h.cluster (fun x hx => (hc x hx).1) hj hjk
  have hlive : ∀ i, s'.Live i ↔ s.Live i := by
    intro i
    by_cases hi : i < s.entries
    · unfold Image.Live
      rw [Image.Reached.iff_of_heads h.layout fun j hj => by rw [(hentry j (by omega)).head], (hentry i hi).head]
    · exact iff_of_false (fun h' => hi (h.layout.entries ▸ h'.lt)) fun h' => hi h'.lt
  exact {
    layout := h.layout
    live := fun i _ => hlive i
    entry := fun i _ hi => hentry i hi.lt
    fat := fun _ _ _ _ _ => by rw [hfat]
    cluster := fun i hik hi j hj => hcluster j ((hg.clusters i hi).inside j hj).1 (hg.apart i k hi hk hik j hj)
    kept := h.layout.kept (fun j hj => ⟨by rw [hfat], hcluster j (hg.reserved j hj).1 ((hg.reserved j hj).2.2 k hk)⟩)
      (fun a ha => hdir a (lt_of_lt_of_le ha hg.geometry.dir_le)) (by rw [hfat]; exact Relinked.refl s.fat) fun _ _ => by rw [hfat]
    used := used_of_same hfat fun hk => ⟨(hlive k).mpr hk, by rw [Image.chain, hfat, (hentry k hk.lt).start]; rfl⟩
  }

theorem Written.sameEntry {pad : Bool} {l : List Nat} {i r : Nat} (hg : Geometry s) (hk : k < s.entries)
    (h : Written s pad l i r s') : SameEntry s s' k := by
  have := hg.entry_le hk
  refine ⟨h.layout.entry k, fun x hx => h.outside _ fun j _ => Or.inl ?_⟩
  have := clusterAt_ge s j
  omega

theorem Written.edit {pad : Bool} {i r : Nat} (hg : Good s R) (hk : s.IsFile k)
    (h : Written s pad (s.chain k) i r s') : Edit s R s' k ∧ s'.chain k = s.chain k ∧ s'.size k = s.size k := by
  have hs := h.sameEntry hg.geometry hk.1.lt
  have ht := h.touches hg hk.1
  have hfat : s'.fat = s.fat := by rw [h.rest]
  have hclusters : Clusters s'.limit_fat s'.fat (s'.start k) (s.chain k) := by
    rw [hs.start, hfat, h.layout.limit_fat]
    exact hg.clusters k hk.1
  have hreach : s'.Reached k := by
    refine (Image.Reached.iff_of_heads h.layout fun j hj => ?_).mpr hk.1.1
    rw [(h.sameEntry hg.geometry (by have := hk.1.lt; omega)).head]
  have hlive : s'.Live k := ⟨hreach, by rw [hs.head]; exact hk.1.2⟩
  refine ⟨⟨ht.good hg (fun _ => ⟨_, hclusters, fun i hik hi j hj => hg.apart k i hk.1 hi (Ne.symm hik) j hj,
    fun j hj hR => (hg.reserved j hR).2.2 k hk.1 hj⟩) fun _ i hik hi hn => ?_, ht, ?_, ⟨hlive, by rw [hs.attr]; exact hk.2⟩,
    hs.name⟩, hclusters.chain_eq (h.layout.limit_fat ▸ hg.geometry.limit_le), hs.size⟩
  · rw [hs.name] at hn
    exact hik (hg.names i k hi hk hn)
  · unfold Rest
    rw [h.rest]

/-- `writeLoop` on the chain of a file -/
theorem writeLoop_edit (pad : Bool) (code : Nat) (hg : Good s R) (hk : s.IsFile k) (i r : Nat) :
    if s.chain k ≠ [] ∧ i ≤ (s.chain k).length * s.len_clu then
      ∃ s', writeLoop pad code (i + 1) s (s.word (s.entry k + 0x1a)) i r = .ok s' ∧ Written s pad (s.chain k) i r s'
    else writeLoop pad code (i + 1) s (s.word (s.entry k + 0x1a)) i r = .error (.errend code) := by
  have hc := hg.clusters k hk.1
  obtain ⟨e, he, hl⟩ := hc.ends
  have hspec := writeLoop_spec pad code he (i := i) (r := r) hg.geometry hl hc.nodup hc.inside (Nat.lt_succ_self i)
  have hstart : s.word (s.entry k + 0x1a) = first 0 (s.chain k) := hc.start
  rw [hstart]
  cases hch : s.chain k with
  | nil =>
    rw [if_neg (by simp)]
    rfl
  | cons j l =>
    rw [hch] at hspec
    exact hspec

/-! ## writefile and ovrwritefile -/

/-- the number of clusters that a file has -/
def Image.owned (s : Image) (filename : List (BitVec 8)) : Nat :=
  ((s.find filename).map fun i => (s.chain i).length).getD 0

/-- an entry for a file of `len` bytes in `n` clusters, and as many clusters, with no byte outside of them -/
structure Image.Writable (s : Image) (filename : List (BitVec 8)) (n alloc0 len : Nat) : Prop where
  slot : s.HasSlot filename
  room : n ≤ s.owned filename + room s.limit_fat s.fat alloc0
  pos : 0 < n
  enough : len ≤ n * s.len_clu

/-- the file in entry `k` is `bs`, and the other ones are what they were -/
structure Became (s : Image) (R : Set Nat) (filename bs : List (BitVec 8)) (s' : Image) : Prop where
  wf : Wf s' R
  files : s'.files = Function.update s.files filename (some bs)
  rest : Rest s s'
  kept : Kept R s s'

/-- the last step: the bytes are written to the clusters of the entry -/
theorem finish_write {filename : List (BitVec 8)} {s₁ s₂ : Image} (pad : Bool) (code : Nat) (hw : Wf s R)
    (ho : Opened s R filename s₁ k) (he : Edit s₁ R s₂ k) (bs : List (BitVec 8))
    (hsize : s.len_filebuf ≤ (s₂.chain k).length * s.len_clu → s₂.size k ≤ (s₂.chain k).length * s.len_clu)
    (hbs : ∀ data : List (BitVec 8), data.take s.len_filebuf = read s.filebuf0 0 s.len_filebuf →
      (pad = false → data.drop s.len_filebuf = (s₂.data (s₂.chain k)).drop s.len_filebuf) →
      data.take (s₂.size k) = bs) :
    if s₂.chain k ≠ [] ∧ s.len_filebuf ≤ (s₂.chain k).length * s.len_clu then
      ∃ s', writeLoop pad code (s₂.len_filebuf + 1) s₂ (s₂.word (s.entry k + 0x1a)) s₂.len_filebuf 0 = .ok s' ∧
        Became s R filename bs s'
    else writeLoop pad code (s₂.len_filebuf + 1) s₂ (s₂.word (s.entry k + 0x1a)) s₂.len_filebuf 0 =
      .error (.errend code) := by
  have hrest := ho.rest.trans he.rest
  have htouch := ho.touches.trans hw.toGood he.touches
  have hentry : s₂.entry k = s.entry k := hrest.layout.entry k
  have hloop := writeLoop_edit pad code he.good he.isFile s₂.len_filebuf 0
  rw [hentry, hrest.layout.len_clu, hrest.len_filebuf] at hloop
  rw [hrest.len_filebuf]
  by_cases hc : s₂.chain k ≠ [] ∧ s.len_filebuf ≤ (s₂.chain k).length * s.len_clu
  · rw [if_pos hc] at hloop ⊢
    obtain ⟨s', hok, hwritten⟩ := hloop
    obtain ⟨hedit, hchain, hsz⟩ := hwritten.edit he.good he.isFile
    have htouch' := htouch.trans hw.toGood hedit.touches
    have hname : s'.name k = filename := (hedit.name.trans he.name).trans ho.name
    have hbytes : s'.bytes k = bs := by
      rw [Image.bytes, hchain, hsz]
      apply hbs
      · rw [hwritten.data, hrest.filebuf0]
      · exact hwritten.behind
    refine ⟨s', hok, ⟨⟨hedit.good, fun i hi => ?_⟩, ?_, hrest.trans hedit.rest, htouch'.kept⟩⟩
    · by_cases hik : i = k
      · rw [hik, hsz, hchain, hedit.rest.layout.len_clu, hrest.layout.len_clu]
        exact hsize hc.2
      · exact htouch'.sizes hw hik hi
    · have h := htouch'.files_update hw.toGood hedit.good hedit.isFile fun hk => (ho.old hk).trans hname.symm
      rw [h, hname, hbytes]
  · rw [if_neg hc] at hloop ⊢
    exact hloop

/-- the clusters, the size, the attribute and the time of a file that is to be `len` bytes long -/
theorem resized_edit (hg : Good s R) (hk : s.IsFile k) {n alloc0 : Nat} (ha : 2 ≤ alloc0) (flags : Nat)
    (hlen : s.len_filebuf < 256^4) :
    if n ≤ (s.chain k).length + room s.limit_fat s.fat alloc0 then
      ∃ s₁, resizefile s (s.entry k) n alloc0 = .ok s₁ ∧ ∀ s₂,
        s₂ = storeAttrTime (s₁.store (s.entry k + 0x1c) (toLe 4 s₁.len_filebuf)) (s.entry k) flags →
        Edit s R s₂ k ∧ (s₂.chain k).length = n ∧ s₂.size k = s.len_filebuf
    else resizefile s (s.entry k) n alloc0 = .error (.errend 18) := by
  have hres := resizefile_edit hg hk n ha
  split at hres
  · rename_i hroom
    rw [if_pos hroom]
    obtain ⟨s₁, hok, he, hchain, hsize⟩ := hres
    refine ⟨s₁, hok, fun s₂ hs₂ => ?_⟩
    have hentry : s.entry k = s₁.entry k := (he.rest.layout.entry k).symm
    rw [he.rest.len_filebuf, hentry] at hs₂
    obtain ⟨he₁, hsz₁⟩ := size_edit he.good he.isFile s.len_filebuf
    have hch₁ : (s₁.store (s₁.entry k + 0x1c) (toLe 4 s.len_filebuf)).chain k = s₁.chain k :=
      field_chain s₁ k (Or.inr (Nat.le_refl _))
    obtain ⟨he₂, hch₂, hsz₂, _⟩ := attrTime_edit he₁.good he₁.isFile flags
    rw [Image.entry_store] at he₂ hch₂ hsz₂
    rw [hs₂]
    exact ⟨he.trans hg (he₁.trans he.good he₂), by rw [hch₂, hch₁, hchain],
      by rw [hsz₂, hsz₁, Nat.mod_eq_of_lt hlen]⟩
  · rename_i hroom
    rw [if_neg hroom]
    exact hres

/-- **`writefile`** makes a file of the bytes in `filebuf0` iff there are an entry and clusters for it. -/
theorem writefile_spec (os : Os) (hw : Wf s R) {path : Path} {name : List (BitVec 8)} (hp : imageName path = some name)
    (hn : ValidName name) {alloc0 : Nat} (ha : 2 ≤ alloc0) (asiz : Option Nat) (flags : Nat)
    (hlen : s.len_filebuf < 256^4) {n : Nat} (hasiz : asiz.getD (ceilDiv s.len_filebuf s.len_clu) = n) :
    (s.Writable (FAT_filename name) n alloc0 s.len_filebuf →
      ∃ s', writefile os s path alloc0 asiz flags = .ok s' ∧
        Became s R (FAT_filename name) (read s.filebuf0 0 s.len_filebuf) s') ∧
    (¬ s.Writable (FAT_filename name) n alloc0 s.len_filebuf → ∃ code, writefile os s path alloc0 asiz flags = .error (.errend code) ∧
      (s.HasSlot (FAT_filename name) ∧ n ≤ s.owned (FAT_filename name) + room s.limit_fat s.fat alloc0 → code = 14) ∧
      (¬ (s.HasSlot (FAT_filename name) ∧ n ≤ s.owned (FAT_filename name) + room s.limit_fat s.fat alloc0) → code = 18)) := by
  obtain ⟨hopen, hfull⟩ := opened_spec hw hn
  have hflag := hw.geometry.flag
  unfold writefile
  simp only [hp, hasiz, if_neg hflag]
  cases hdc : dir_create s name 0xd8 0x00 0x00 with
  | error e =>
    obtain ⟨h18, hslot⟩ := hfull e hdc
    refine ⟨fun h => absurd h.slot hslot, fun _ => ⟨18, ?_, fun h => absurd h.1 hslot, fun _ => rfl⟩⟩
    rw [h18]
    rfl
  | ok d =>
    obtain ⟨hslot, k, hq, ho⟩ := hopen d hdc
    have hrl := ho.rest.layout
    have hentry : d.2.entry k = s.entry k := hrl.entry k
    have hroom : (d.2.chain k).length + room d.2.limit_fat d.2.fat alloc0 =
        s.owned (FAT_filename name) + room s.limit_fat s.fat alloc0 := by
      rw [ho.chain, hrl.limit_fat, ho.fat]
      rfl
    have hres := resized_edit ho.wf.toGood ho.isFile (n := n) ha flags (by rw [ho.rest.len_filebuf]; exact hlen)
    rw [hroom, hentry] at hres
    show _ ∧ _
    split at hres
    · rename_i hfits
      obtain ⟨s₁, hok, hnext⟩ := hres
      generalize hs₂ : storeAttrTime (s₁.store (s.entry k + 0x1c) (toLe 4 s₁.len_filebuf)) (s.entry k) flags = s₂ at hnext
      obtain ⟨he, hchain, hsize⟩ := hnext s₂ rfl
      have hsize' : s₂.size k = s.len_filebuf := hsize.trans ho.rest.len_filebuf
      have hstep : ((Except.ok d : Except Halt (Nat × Image)) >>= fun d => resizefile d.2 d.1 n alloc0 >>= fun s =>
          let s := storeAttrTime (s.store (d.1 + 0x1c) (toLe 4 s.len_filebuf)) d.1 flags
          writeLoop true 14 (s.len_filebuf + 1) s (s.word (d.1 + 0x1a)) s.len_filebuf 0) =
          writeLoop true 14 (s₂.len_filebuf + 1) s₂ (s₂.word (s.entry k + 0x1a)) s₂.len_filebuf 0 := by
        show (resizefile d.2 d.1 n alloc0 >>= fun s => _) = _
        rw [hq, hok, ← hs₂]
        rfl
      have hfinish := finish_write true 14 hw ho he (read s.filebuf0 0 s.len_filebuf)
        (fun h => by rwa [hsize']) (fun data hdata _ => by rw [hsize', hdata])
      have hiff : s₂.chain k ≠ [] ∧ s.len_filebuf ≤ (s₂.chain k).length * s.len_clu ↔
          0 < n ∧ s.len_filebuf ≤ n * s.len_clu := by
        rw [hchain, ← List.length_pos_iff, hchain]
      rw [hstep]
      constructor
      · intro h
        rw [if_pos (hiff.mpr ⟨h.pos, h.enough⟩)] at hfinish
        exact hfinish
      · intro h
        rw [if_neg fun hc => h ⟨hslot, hfits, (hiff.mp hc).1, (hiff.mp hc).2⟩] at hfinish
        exact ⟨14, hfinish, fun _ => rfl, fun hc => absurd ⟨hslot, hfits⟩ hc⟩
    · rename_i hfits
      refine ⟨fun h => absurd h.room hfits, fun _ => ⟨18, ?_, fun h => absurd h.2 hfits, fun _ => rfl⟩⟩
      show (resizefile d.2 d.1 n alloc0 >>= fun s => _) = _
      rw [hq, hres]
      rfl

/-- an entry for the file, and clusters for it if it gets longer -/
def Image.Overwritable (s : Image) (filename : List (BitVec 8)) (n alloc0 len : Nat) : Prop :=
  if ((s.files filename).getD []).length < len then s.Writable filename n alloc0 len
  else s.HasSlot filename ∧ 0 < s.owned filename

theorem bytes_length (hw : Wf s R) (hk : s.IsFile k) : (s.bytes k).length = s.size k := by
  rw [Image.bytes, List.length_take, data_length, Nat.min_eq_left (hw.sizes k hk)]

/-- **`ovrwritefile`** puts the bytes in `filebuf0` over the start of a file iff there are an entry and clusters for it. -/
theorem ovrwritefile_spec (os : Os) (hw : Wf s R) {path : Path} {name : List (BitVec 8)}
    (hp : imageName path = some name) (hn : ValidName name) {alloc0 : Nat} (ha : 2 ≤ alloc0) (asiz : Option Nat)
    (flags : Nat) (hlen : s.len_filebuf < 256^4) {n : Nat} (hasiz : asiz.getD (ceilDiv s.len_filebuf s.len_clu) = n) :
    (s.Overwritable (FAT_filename name) n alloc0 s.len_filebuf →
      ∃ s', ovrwritefile os s path alloc0 asiz flags = .ok s' ∧ Became s R (FAT_filename name)
        (read s.filebuf0 0 s.len_filebuf ++ ((s.files (FAT_filename name)).getD []).drop s.len_filebuf) s') ∧
    (¬ s.Overwritable (FAT_filename name) n alloc0 s.len_filebuf →
      ∃ code, ovrwritefile os s path alloc0 asiz flags = .error (.errend code) ∧ (code = 15 ∨ code = 18)) := by
  obtain ⟨hopen, hfull⟩ := opened_spec hw hn
  have hflag := hw.geometry.flag
  unfold ovrwritefile
  simp only [hp, hasiz, if_neg hflag]
  cases hdc : dir_create s name 0xd8 0x00 0x00 with
  | error e =>
    obtain ⟨h18, hslot⟩ := hfull e hdc
    refine ⟨fun h => absurd ?_ hslot, fun _ => ⟨18, ?_, Or.inr rfl⟩⟩
    · unfold Image.Overwritable at h
      split at h
      · exact h.slot
      · exact h.1
    · rw [h18]
      rfl
  | ok d =>
    obtain ⟨hslot, k, hq, ho⟩ := hopen d hdc
    have hrl := ho.rest.layout
    have hentry : d.2.entry k = s.entry k := hrl.entry k
    have hsize : d.2.dword (d.1 + 0x1c) = ((s.files (FAT_filename name)).getD []).length := by
      rw [← ho.bytes, bytes_length ho.wf ho.isFile, Image.size, hentry, hq]
    have hdlen := ho.rest.len_filebuf
    show _ ∧ _
    unfold Image.Overwritable
    by_cases hshort : ((s.files (FAT_filename name)).getD []).length < s.len_filebuf
    · -- the file gets longer, and all of it is written
      rw [if_pos hshort]
      have hroom : (d.2.chain k).length + room d.2.limit_fat d.2.fat alloc0 =
          s.owned (FAT_filename name) + room s.limit_fat s.fat alloc0 := by
        rw [ho.chain, hrl.limit_fat, ho.fat]
        rfl
      have hres := resized_edit ho.wf.toGood ho.isFile (n := n) ha flags (by rw [hdlen]; exact hlen)
      rw [hroom, hentry] at hres
      split at hres
      · rename_i hfits
        obtain ⟨s₁, hok, hnext⟩ := hres
        generalize hs₂ : storeAttrTime (s₁.store (s.entry k + 0x1c) (toLe 4 s₁.len_filebuf)) (s.entry k) flags = s₂
          at hnext
        obtain ⟨he, hchain, hsz⟩ := hnext s₂ rfl
        have hsz' : s₂.size k = s.len_filebuf := hsz.trans hdlen
        have hgrow : growfile d.2 d.1 n alloc0 = .ok (s₁.store (s.entry k + 0x1c) (toLe 4 s₁.len_filebuf)) := by
          unfold growfile
          rw [hsize, hdlen, if_pos hshort, hq, hok]
          rfl
        have hstep : ((Except.ok d : Except Halt (Nat × Image)) >>= fun d => growfile d.2 d.1 n alloc0 >>= fun s =>
            let s := storeAttrTime s d.1 flags
            writeLoop false 15 (s.len_filebuf + 1) s (s.word (d.1 + 0x1a)) s.len_filebuf 0) =
            writeLoop false 15 (s₂.len_filebuf + 1) s₂ (s₂.word (s.entry k + 0x1a)) s₂.len_filebuf 0 := by
          show (growfile d.2 d.1 n alloc0 >>= fun s => _) = _
          rw [hgrow, hq, ← hs₂]
          rfl
        have hfinish := finish_write false 15 hw ho he
          (read s.filebuf0 0 s.len_filebuf ++ ((s.files (FAT_filename name)).getD []).drop s.len_filebuf)
          (fun h => by rwa [hsz']) (fun data hdata _ => by
            rw [hsz', hdata, List.drop_eq_nil_of_le (Nat.le_of_lt hshort), List.append_nil])
        have hiff : s₂.chain k ≠ [] ∧ s.len_filebuf ≤ (s₂.chain k).length * s.len_clu ↔
            0 < n ∧ s.len_filebuf ≤ n * s.len_clu := by
          rw [hchain, ← List.length_pos_iff, hchain]
        rw [hstep]
        constructor
        · intro h
          rw [if_pos (hiff.mpr ⟨h.pos, h.enough⟩)] at hfinish
          exact hfinish
        · intro h
          rw [if_neg fun hc => h ⟨hslot, hfits, (hiff.mp hc).1, (hiff.mp hc).2⟩] at hfinish
          exact ⟨15, hfinish, Or.inl rfl⟩
      · rename_i hfits
        refine ⟨fun h => absurd h.room hfits, fun _ => ⟨18, ?_, Or.inr rfl⟩⟩
        have hgrow : growfile d.2 d.1 n alloc0 = .error (.errend 18) := by
          unfold growfile
          rw [hsize, hdlen, if_pos hshort, hq, hres]
          rfl
        show (growfile d.2 d.1 n alloc0 >>= fun s => _) = _
        rw [hgrow]
        rfl
    · -- the file keeps its clusters, its size and what is behind the new bytes
      rw [if_neg hshort]
      have hfile := ho.isFile
      obtain ⟨he, hchain, hsz, hcluster, _⟩ := attrTime_edit ho.wf.toGood hfile flags
      rw [hentry] at he hchain hsz hcluster
      generalize hs₂ : storeAttrTime d.2 (s.entry k) flags = s₂ at he hchain hsz hcluster
      have hdsz : d.2.size k = ((s.files (FAT_filename name)).getD []).length := by
        rw [← ho.bytes, bytes_length ho.wf hfile]
      have hle : d.2.size k ≤ (d.2.chain k).length * s.len_clu := by
        have := ho.wf.sizes k hfile
        rwa [hrl.len_clu] at this
      have hdata : s₂.data (s₂.chain k) = d.2.data (d.2.chain k) := by
        rw [hchain, data_congr fun j _ => hcluster j]
      have hgrow : growfile d.2 d.1 n alloc0 = .ok d.2 := by
        unfold growfile
        rw [hsize, hdlen, if_neg hshort]
      have hstep : ((Except.ok d : Except Halt (Nat × Image)) >>= fun d => growfile d.2 d.1 n alloc0 >>= fun s =>
          let s := storeAttrTime s d.1 flags
          writeLoop false 15 (s.len_filebuf + 1) s (s.word (d.1 + 0x1a)) s.len_filebuf 0) =
          writeLoop false 15 (s₂.len_filebuf + 1) s₂ (s₂.word (s.entry k + 0x1a)) s₂.len_filebuf 0 := by
        show (growfile d.2 d.1 n alloc0 >>= fun s => _) = _
        rw [hgrow, hq, ← hs₂]
        rfl
      have hfinish := finish_write false 15 hw ho he
        (read s.filebuf0 0 s.len_filebuf ++ ((s.files (FAT_filename name)).getD []).drop s.len_filebuf)
        (fun _ => by rwa [hsz, hchain]) (fun data h1 h2 => by
          have h3 := h2 rfl
          rw [hdata] at h3
          rw [hsz, ← List.take_append_drop s.len_filebuf data, h1, h3, ← ho.bytes, Image.bytes, List.drop_take,
            List.take_append, List.take_of_length_le (by rw [read_length, hdsz]; omega), read_length])
      have hiff : s₂.chain k ≠ [] ∧ s.len_filebuf ≤ (s₂.chain k).length * s.len_clu ↔
          0 < s.owned (FAT_filename name) := by
        have howned : (d.2.chain k).length = s.owned (FAT_filename name) := ho.chain
        rw [hchain, ← List.length_pos_iff, ← howned]
        omega
      rw [hstep]
      constructor
      · intro h
        rw [if_pos (hiff.mpr h.2)] at hfinish
        exact hfinish
      · intro h
        rw [if_neg fun hc => h ⟨hslot, hiff.mp hc⟩] at hfinish
        exact ⟨15, hfinish, Or.inl rfl⟩

end Clubcos.Edimg
