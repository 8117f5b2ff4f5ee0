import Clubcos.Edimg.Boot
import Clubcos.Edimg.Script

/-!
# Images saved and loaded again

* `loadFat_spec`    what is in the variables when an image is loaded;
* `Agrees.wf`       an image with the same directory, table and clusters has the same files;
* `save_reload`     **what a script leaves in an image** is in the file that `opt_imgout` writes.
-/

set_option linter.unusedVariables false

namespace Clubcos.Edimg
open Bytes Word

variable {s s' : Image} {b : Bpb} {R : Set Nat}

/-! ## the variables of an image that is loaded -/

theorem flag_and (x k : Nat) {c : Nat} (hc : 0xf8 &&& c = 0) : (x &&& 0xf8 ||| k) &&& c = k &&& c := by
  rw [Nat.and_or_distrib_right, Nat.and_assoc, hc, Nat.and_zero, Nat.zero_or]

/-- The table is of one kind or the other, and SF16 is FAT16. -/
def Kinds (f : Nat) : Prop :=
  (f &&& 1 = 1 ∧ f &&& 2 = 0 ∧ f &&& 4 = 0) ∨ (f &&& 1 = 0 ∧ f &&& 2 = 2 ∧ f &&& 4 = 0) ∨
    (f &&& 1 = 1 ∧ f &&& 2 = 0 ∧ f &&& 4 = 4)

theorem BpbSpec.kinds {m : Nat → BitVec 8} {p x : Nat} (h : BpbSpec m p (x &&& 0xf8) b) : Kinds b.places.flag := by
  rcases h.flag with hf | hf | hf <;> rw [hf] <;> unfold Kinds <;>
    rw [flag_and x _ (c := 1) rfl, flag_and x _ (c := 2) rfl, flag_and x _ (c := 4) rfl] <;> simp

theorem BpbSpec.flags {m : Nat → BitVec 8} {p x : Nat} (h : BpbSpec m p (x &&& 0xf8) b) :
    b.places.flag &&& 0xf8 = x &&& 0xf8 := by
  have hmask : ∀ k, k &&& 0xf8 = 0 → (x &&& 0xf8 ||| k) &&& 0xf8 = x &&& 0xf8 := by
    intro k hk
    rw [Nat.and_or_distrib_right, hk, Nat.or_zero, Nat.and_assoc, Nat.and_self]
  rcases h.flag with hf | hf | hf
  · rw [hf]
    exact hmask 1 rfl
  · rw [hf]
    exact hmask 2 rfl
  · rw [hf]
    exact hmask 5 rfl

theorem restoreEfat_lt {fat : Nat → Nat} {j : Nat} (h : fat j < 65536) : restoreEfat fat j < 65536 := by
  unfold restoreEfat
  split
  · rename_i hj
    rw [hj] at h
    exact Nat.xor_lt_two_pow (n := 16) h (by omega)
  · split
    · omega
    · exact h

structure LoadSpec (s : Image) (b : Bpb) (s' : Image) : Prop where
  places : s'.places = b.places
  limit : s'.limit_fat = b.limit_fat
  length : s'.len_imgbuf = max s.len_imgbuf b.len_img
  imgbuf0 : ∀ a, a ≠ b.places.BPB + 0x47 → s'.imgbuf0 a = s.imgbuf0 a
  /-- the mark of a table with `0xfffe` in it is taken away -/
  mark : b.places.flag &&& 4 ≠ 0 → s'.imgbuf0 (b.places.BPB + 0x47) &&& 0x10 = 0
  fat16 : b.places.flag &&& 1 ≠ 0 → (b.places.flag &&& 4 = 0 ∨ s.imgbuf0 (b.places.BPB + 0x47) &&& 0x10 = 0) →
    s'.fat = loadFat16 s.imgbuf0 b.places.fat0 b.len_fat s.fat
  fat12 : b.places.flag &&& 2 ≠ 0 → s'.fat = loadFat12 s.imgbuf0 b.places.fat0 b.len_fat s.fat
  values16 : b.places.flag &&& 1 ≠ 0 → ∀ j, 2 * (j + 1) ≤ b.len_fat → s'.fat j < 65536
  values12 : b.places.flag &&& 2 ≠ 0 → ∀ j, 3 * (j + 1) ≤ 2 * b.len_fat → Fits12 (s'.fat j)

/-- the variables for the parts of the image -/
def Image.placed (s : Image) (b : Bpb) : Image :=
  { s with
    flag := b.places.flag, len_sec := b.places.len_sec, len_clu := b.places.len_clu, BPB := b.places.BPB
    fat0 := b.places.fat0, fat1 := b.places.fat1, dir0 := b.places.dir0, clu0002 := b.places.clu0002
    limit_fat := b.limit_fat, len_imgbuf := max s.len_imgbuf b.len_img }

theorem loadFat_spec (s : Image) (hk : Kinds b.places.flag) : LoadSpec s b (loadFat s b) := by
  rcases hk with ⟨h1, h2, h4⟩ | ⟨h1, h2, h4⟩ | ⟨h1, h2, h4⟩
  · have hload : loadFat s b = { s.placed b with fat := loadFat16 s.imgbuf0 b.places.fat0 b.len_fat s.fat } := by
      unfold loadFat
      simp only [h1, h2, h4, Nat.one_ne_zero, if_true, if_false, or_true]
      rfl
    rw [hload]
    exact {
      places := rfl
      limit := rfl
      length := rfl
      imgbuf0 := fun _ _ => rfl
      mark := fun h => absurd h4 h
      fat16 := fun _ _ => rfl
      fat12 := fun h => absurd h2 h
      values16 := fun _ j hj => loadFat16_lt hj
      values12 := fun h => absurd h2 h
    }
  · have hload : loadFat s b = { s.placed b with fat := loadFat12 s.imgbuf0 b.places.fat0 b.len_fat s.fat } := by
      unfold loadFat
      simp only [h1, h2, h4, Nat.reduceEqDiff, if_true, if_false, or_true]
      rfl
    rw [hload]
    exact {
      places := rfl
      limit := rfl
      length := rfl
      imgbuf0 := fun _ _ => rfl
      mark := fun h => absurd h4 h
      fat16 := fun h => absurd h1 h
      fat12 := fun _ => rfl
      values16 := fun h => absurd h1 h
      values12 := fun _ j hj => loadFat12_fits hj
    }
  · have hload : loadFat s b = { s.placed b with
        fat := if s.imgbuf0 (b.places.BPB + 0x47) &&& 0x10 = 0 then loadFat16 s.imgbuf0 b.places.fat0 b.len_fat s.fat
          else restoreEfat (loadFat16 s.imgbuf0 b.places.fat0 b.len_fat s.fat),
        imgbuf0 := Function.update s.imgbuf0 (b.places.BPB + 0x47) (s.imgbuf0 (b.places.BPB + 0x47) &&& 0xcf) } := by
      unfold loadFat
      simp only [h1, h2, h4, Nat.one_ne_zero, Nat.reduceEqDiff, if_true, if_false, or_self]
      rfl
    rw [hload]
    refine {
      places := rfl
      limit := rfl
      length := rfl
      imgbuf0 := fun a ha => Function.update_of_ne ha _ _
      mark := fun _ => ?_
      fat16 := fun _ h => if_pos (h.resolve_left (by omega))
      fat12 := fun h => absurd h2 h
      values16 := fun _ j hj => ?_
      values12 := fun h => absurd h2 h
    }
    · show Function.update s.imgbuf0 (b.places.BPB + 0x47) _ (b.places.BPB + 0x47) &&& 0x10 = 0
      rw [Function.update_self, BitVec.and_assoc]
      simp
    · show (if _ then _ else _ : Nat → Nat) j < 65536
      split
      · exact loadFat16_lt hj
      · exact restoreEfat_lt (loadFat16_lt hj)

/-! ## images with the same files -/

/-- `s'` has the directory of `s`, and its table as far as `s` has one, with the same clusters. -/
structure Agrees (s s' : Image) : Prop where
  places : s'.places = s.places
  limit : s.limit_fat ≤ s'.limit_fat
  imgbuf0 : ∀ a, s.dir0 ≤ a → a < s.clusterAt s.limit_fat → s'.imgbuf0 a = s.imgbuf0 a
  fat : ∀ j < s.limit_fat, s'.fat j = s.fat j
  free : ∀ j, s.limit_fat ≤ j → j < s'.limit_fat → s'.fat j = 0

section
variable {k : Nat}

theorem Agrees.dir0 (h : Agrees s s') : s'.dir0 = s.dir0 := congrArg Places.dir0 h.places

theorem Agrees.clu0002 (h : Agrees s s') : s'.clu0002 = s.clu0002 := congrArg Places.clu0002 h.places

theorem Agrees.len_clu (h : Agrees s s') : s'.len_clu = s.len_clu := congrArg Places.len_clu h.places

theorem Agrees.clusterAt (h : Agrees s s') (j : Nat) : s'.clusterAt j = s.clusterAt j := by
  rw [Image.clusterAt, h.clu0002, h.len_clu]
  rfl

theorem Agrees.entries (h : Agrees s s') : s'.entries = s.entries := by
  rw [Image.entries, h.clu0002, h.dir0]
  rfl

theorem Agrees.sameEntry (h : Agrees s s') (hg : Geometry s) (hk : k < s.entries) : SameEntry s s' k := by
  have hle := hg.entry_le hk
  have hentry : s'.entry k = s.entry k := by
    rw [Image.entry, h.dir0]
    rfl
  refine ⟨hentry, fun x hx => h.imgbuf0 _ ?_ ?_⟩
  · unfold Image.entry
    omega
  · exact Nat.lt_of_lt_of_le (by omega) (clusterAt_ge s s.limit_fat)

theorem Agrees.live (h : Agrees s s') (hg : Geometry s) (k : Nat) : s'.Live k ↔ s.Live k := by
  have hhead : ∀ i < s.entries, s'.imgbuf0 (s'.entry i) = s.imgbuf0 (s.entry i) := fun i hi => (h.sameEntry hg hi).head
  unfold Image.Live Image.Reached
  rw [h.entries]
  constructor
  · rintro ⟨⟨hk, hall⟩, hne⟩
    exact ⟨⟨hk, fun i hi => by rw [← hhead i (by omega)]; exact hall i hi⟩, by rw [← hhead k hk]; exact hne⟩
  · rintro ⟨⟨hk, hall⟩, hne⟩
    exact ⟨⟨hk, fun i hi => by rw [hhead i (by omega)]; exact hall i hi⟩, by rw [hhead k hk]; exact hne⟩

theorem Agrees.cluster (h : Agrees s s') (hg : Geometry s) {j : Nat} (hj : 2 ≤ j ∧ j < s.limit_fat) :
    s'.cluster j = s.cluster j := by
  rw [Image.cluster, h.clusterAt, h.len_clu]
  refine read_congr fun i hi => h.imgbuf0 _ ?_ ?_
  · have := hg.dir_le
    have := clusterAt_ge s j
    omega
  · have := clusterAt_lt (s := s) hj.1 hj.2
    omega

theorem Agrees.clusters (h : Agrees s s') (hg : Good s R) (hk : s.Live k) :
    Clusters s'.limit_fat s'.fat (s'.start k) (s.chain k) := by
  have hc := (hg.clusters k hk).congr fun j hj => h.fat j ((hg.clusters k hk).inside j hj).2
  rw [(h.sameEntry hg.geometry hk.lt).start]
  exact ⟨hc.start, hc.ends, fun j hj => ⟨(hc.inside j hj).1, Nat.lt_of_lt_of_le (hc.inside j hj).2 h.limit⟩, hc.nodup⟩

/-- **An image that agrees** with a well-formed one is well formed, and its files are the same. -/
theorem Agrees.wf (h : Agrees s s') (hw : Wf s R) (hlimit : s'.limit_fat ≤ 0xfff7)
    (hfits : s'.clusterAt s'.limit_fat ≤ SIZ_IMGBUF) : Wf s' R ∧ s'.files = s.files := by
  have hg := hw.geometry
  have hflag : s'.flag = s.flag := congrArg Places.flag h.places
  have hchain : ∀ k, s.Live k → s'.chain k = s.chain k := fun k hk => (h.clusters hw.toGood hk).chain_eq hlimit
  have hfile : ∀ k, s'.IsFile k ↔ s.IsFile k := by
    intro k
    by_cases hk : k < s.entries
    · exact (h.sameEntry hg hk).isFile (h.live hg k)
    · exact iff_of_false (fun hf => hk (h.entries ▸ hf.1.lt)) fun hf => hk hf.1.lt
  have hname : ∀ k, s.IsFile k → s'.name k = s.name k := fun k hk => (h.sameEntry hg hk.1.lt).name
  have hbytes : ∀ k, s.IsFile k → s'.bytes k = s.bytes k := by
    intro k hk
    unfold Image.bytes
    rw [hchain k hk.1, (h.sameEntry hg hk.1.lt).size,
      data_congr fun j hj => h.cluster hg ((hw.clusters k hk.1).inside j hj)]
  have hgood : Good s' R := by
    refine ⟨⟨?_, ?_, ?_, ?_, hg.limit.trans h.limit, hlimit, hfits⟩, fun k hk => ?_, fun k k' hk hk' hne j hj => ?_,
      fun k k' hk hk' hn => ?_, fun j hj => ?_, fun j hj hne => ?_⟩
    · rw [hflag]
      exact hg.flag
    · rw [h.clu0002, h.dir0, h.entries]
      exact hg.dir
    · rw [h.entries]
      exact hg.entries
    · rw [h.len_clu]
      exact hg.cluster
    · rw [hchain k ((h.live hg k).mp hk)]
      exact h.clusters hw.toGood ((h.live hg k).mp hk)
    · rw [hchain k ((h.live hg k).mp hk)] at hj
      rw [hchain k' ((h.live hg k').mp hk')]
      exact hw.apart k k' ((h.live hg k).mp hk) ((h.live hg k').mp hk') hne j hj
    · rw [hname k ((hfile k).mp hk), hname k' ((hfile k').mp hk')] at hn
      exact hw.names k k' ((hfile k).mp hk) ((hfile k').mp hk') hn
    · obtain ⟨h2, ⟨hlt, hne⟩, hapart⟩ := hw.reserved j hj
      rw [h.fat j hlt]
      refine ⟨h2, ⟨Nat.lt_of_lt_of_le hlt h.limit, hne⟩, fun k hk => ?_⟩
      rw [hchain k ((h.live hg k).mp hk)]
      exact hapart k ((h.live hg k).mp hk)
    · have hlt : j < s.limit_fat := by
        by_contra hge
        exact hne (h.free j (Nat.le_of_not_lt hge) hj.2)
      rw [h.fat j hlt] at hne
      rcases hw.lost j ⟨hj.1, hlt⟩ hne with hR | ⟨k, hk, hjk⟩
      · exact Or.inl hR
      · exact Or.inr ⟨k, (h.live hg k).mpr hk, by rw [hchain k hk]; exact hjk⟩
  refine ⟨⟨hgood, fun k hk => ?_⟩, ?_⟩
  · have hks := (hfile k).mp hk
    rw [(h.sameEntry hg hks.1.lt).size, hchain k hks.1, h.len_clu]
    exact hw.sizes k hks
  · funext filename
    rcases exists_file_or s filename with ⟨k, hk, hn⟩ | hnone
    · have h1 := files_eq_some hw.toGood hk
      have h2 := files_eq_some hgood ((hfile k).mpr hk)
      rw [hname k hk, hbytes k hk] at h2
      rw [← hn, h1, h2]
    · rw [files_eq_none hnone]
      refine files_eq_none fun k hk hn => hnone k ((hfile k).mp hk) ?_
      rw [← hname k ((hfile k).mp hk)]
      exact hn

end

/-! ## saving -/

/-- an image that the file of `opt_imgout` has room for -/
structure Savable (s : Image) : Prop where
  boot : s.BPB + 0x48 ≤ s.fat0
  table16 : s.flag &&& 1 ≠ 0 → 2 * s.limit_fat ≤ s.dir0 - s.fat1
  table12 : s.flag &&& 2 ≠ 0 → s.limit_fat ≤ 0xff7 ∧ 3 * s.limit_fat ≤ 2 * (s.dir0 - s.fat1)
  length : s.len_imgbuf < SIZ_IMGBUF
  plain : ¬ Packed s.imgbuf0

theorem Relinked.lt {limit : Nat} {fat fat' : Nat → Nat} (h : Relinked limit fat fat') (hlimit : limit ≤ 65536) {j : Nat}
    (hj : fat j < 65536) : fat' j < 65536 := by
  have := h j
  omega

theorem Relinked.fits12 {limit : Nat} {fat fat' : Nat → Nat} (h : Relinked limit fat fat') (hlimit : limit ≤ 0xff7)
    {j : Nat} (hj : Fits12 (fat j)) : Fits12 (fat' j) := by
  have := h j
  unfold Fits12 at hj ⊢
  omega

theorem packed_congr {m m' : Nat → BitVec 8} (h : ∀ a < 0x10, m' a = m a) : Packed m' ↔ Packed m := by
  unfold Packed
  rw [read_local h (by omega), read_local h (by omega)]

theorem fileMemory_apply {m : Nat → BitVec 8} {n a : Nat} (hn : n ≤ SIZ_IMGBUF) (ha : a < n) :
    fileMemory (read m 0 n) m a = m a := by
  rw [fileMemory, if_pos (Nat.lt_of_lt_of_le ha hn), List.getD_eq_getElem?_getD, getElem?_read, if_pos ha, Nat.zero_add,
    Option.getD_some]

/-- what holds from the load of an image on: its boot sector is the one that was read, and the table can be saved -/
structure Ready (s : Image) (b : Bpb) : Prop where
  boot : bootOf s.imgbuf0 (s.flag &&& 0xf8) = some b
  stored : b.stored ≤ SIZ_FAT
  places : s.places = b.places
  limit : s.limit_fat ≤ b.limit_fat
  sector : b.places.BPB + 0x48 ≤ b.places.fat0
  plain : ¬ Packed s.imgbuf0
  mark : b.places.flag &&& 4 ≠ 0 → s.imgbuf0 (b.places.BPB + 0x47) &&& 0x10 = 0
  length : s.clusterAt s.limit_fat ≤ s.len_imgbuf ∧ s.len_imgbuf < SIZ_IMGBUF
  table16 : b.places.flag &&& 1 ≠ 0 → ∀ j < b.limit_fat, 2 * (j + 1) ≤ b.len_fat ∧ s.fat j < 65536
  table12 : b.places.flag &&& 2 ≠ 0 → b.limit_fat ≤ 0xff7 ∧ ∀ j < b.limit_fat, 3 * (j + 1) ≤ 2 * b.len_fat ∧ Fits12 (s.fat j)
  free : ∀ j, s.limit_fat ≤ j → j < b.limit_fat → s.fat j = 0

theorem Ready.spec (h : Ready s b) : BpbSpec s.imgbuf0 b.places.BPB (s.flag &&& 0xf8) b := bootOf_spec h.boot

theorem Ready.fat0_le (h : Ready s b) : b.places.fat0 + b.len_fat ≤ s.dir0 := by
  have hdir : s.dir0 = b.places.dir0 := congrArg Places.dir0 h.places
  have h1 := h.spec.fat1
  have h2 := h.spec.dir0
  omega

theorem imageEnd_eq (hg : Geometry s) :
    (imageEnd s.clu0002 s.limit_fat s.len_clu).toNat = s.clusterAt s.limit_fat := by
  have hfits := hg.fits
  have hlimit := hg.limit
  have hle := hg.limit_le
  unfold SIZ_IMGBUF at hfits
  have hsub : sub32 s.limit_fat 2 = s.limit_fat - 2 := by
    unfold sub32
    omega
  unfold imageEnd Image.clusterAt
  rw [hsub, u32_of_lt (by omega), BitVec.toNat_ofNat, Nat.mod_eq_of_lt (by omega)]

/-- **An image that is loaded** and fits into its own tables is ready. -/
theorem ready_of_load {s₀ : Image} {src : Path} (hin : opt_imgin s₀ src = .ok s) (hg : Geometry s) (hs : Savable s) :
    ∃ b, Ready s b ∧ s.limit_fat = b.limit_fat := by
  obtain ⟨file, b, _, hboot, hfat, hload⟩ := opt_imgin_some hin
  have hspec := bootOf_spec hboot
  have hl : LoadSpec (s₀.withFile file) b s := hload ▸ loadFat_spec (s₀.withFile file) hspec.kinds
  have hflag : s.flag = b.places.flag := congrArg Places.flag hl.places
  have hBPB : s.BPB = b.places.BPB := congrArg Places.BPB hl.places
  have hfat0 : s.fat0 = b.places.fat0 := congrArg Places.fat0 hl.places
  have hfat1 : s.fat1 = b.places.fat1 := congrArg Places.fat1 hl.places
  have hdir0 : s.dir0 = b.places.dir0 := congrArg Places.dir0 hl.places
  have hclu : s.clu0002 = b.places.clu0002 := congrArg Places.clu0002 hl.places
  have hlen : s.len_clu = b.places.len_clu := congrArg Places.len_clu hl.places
  have hsector := hs.boot
  rw [hBPB, hfat0] at hsector
  have htable : s.dir0 - s.fat1 = b.len_fat := by
    have := hspec.dir0
    omega
  have h16 := hs.table16
  have h12 := hs.table12
  rw [hflag, htable, hl.limit] at h16 h12
  have hend : b.len_img = s.clusterAt s.limit_fat := by
    rw [← imageEnd_eq hg, hclu, hlen, hl.limit]
    exact hspec.len_img
  refine ⟨b, ⟨?_, hfat, hl.places, Nat.le_of_eq hl.limit, hsector, hs.plain, hl.mark, ⟨?_, hs.length⟩, fun h j hj => ?_,
    fun h => ⟨(h12 h).1, fun j hj => ?_⟩, fun j h1 h2 => absurd h2 (Nat.not_lt_of_le (hl.limit ▸ h1))⟩, hl.limit⟩
  · rw [hflag, hspec.flags]
    exact bootOf_local hboot fun a ha => hl.imgbuf0 a (by omega)
  · rw [hl.length, ← hend]
    exact Nat.le_max_right _ _
  · have hle : 2 * (j + 1) ≤ b.len_fat := by
      have := h16 h
      omega
    exact ⟨hle, hl.values16 h j hle⟩
  · have hle : 3 * (j + 1) ≤ 2 * b.len_fat := by
      have := (h12 h).2
      omega
    exact ⟨hle, hl.values12 h j hle⟩

/-- and it stays ready -/
theorem Ready.kept (h : Ready s b) (hg : Geometry s) (hk : Kept R s s') : Ready s' b := by
  have hfat0 := h.fat0_le
  have hsector := h.sector
  have hheader : ∀ a < b.places.BPB + 0x48, s'.imgbuf0 a = s.imgbuf0 a := fun a ha => hk.header a (by omega)
  have hflag : s'.flag = s.flag := congrArg Places.flag hk.places
  have hlimit := hk.limit
  have hle := hg.limit_le
  obtain ⟨hlen, hsiz⟩ := h.length
  obtain ⟨h1, h2⟩ := hk.length hlen
  refine ⟨?_, h.stored, hk.places.trans h.places, hlimit.trans h.limit, hsector, ?_, fun h4 => ?_, ⟨h1, h2.trans_lt hsiz⟩,
    fun h1 j hj => ?_, fun h2 => ⟨(h.table12 h2).1, fun j hj => ?_⟩, fun j h1 h2 => ?_⟩
  · rw [hflag]
    exact bootOf_local h.boot fun a ha => hheader a (by omega)
  · rw [packed_congr fun a ha => hheader a (by omega)]
    exact h.plain
  · rw [hheader _ (by omega)]
    exact h.mark h4
  · obtain ⟨h3, h4⟩ := h.table16 h1 j hj
    exact ⟨h3, hk.fat.lt (by omega) h4⟩
  · obtain ⟨hsmall, hall⟩ := h.table12 h2
    obtain ⟨h3, h4⟩ := hall j hj
    exact ⟨h3, hk.fat.fits12 (h.limit.trans hsmall) h4⟩
  · by_cases hj : j < s.limit_fat
    · exact hk.cut j h1 hj
    · rw [hk.beyond j (Nat.le_of_not_lt hj), h.free j (Nat.le_of_not_lt hj) h2]

/-! ## saved and loaded again -/

/-- what `opt_imgout` leaves in front of the table and behind it -/
theorem Ready.saved_outside (h : Ready s b) {a : Nat} (ha : a < b.places.fat0 ∨ s.dir0 ≤ a) :
    (saveFat s).imgbuf0 a = s.imgbuf0 a := by
  have hfat0 : s.fat0 = b.places.fat0 := congrArg Places.fat0 h.places
  have hfat1 : s.fat1 = b.places.fat1 := congrArg Places.fat1 h.places
  have hdir0 : s.dir0 = b.places.dir0 := congrArg Places.dir0 h.places
  have hBPB : s.BPB = b.places.BPB := congrArg Places.BPB h.places
  have hsec : s.len_sec = b.places.len_sec := congrArg Places.len_sec h.places
  have hlen : s.word (s.BPB + 0x16) * s.len_sec = b.len_fat := by
    rw [hBPB, hsec]
    exact h.spec.len_fat.symm
  have h1 := h.spec.fat1
  have h2 := h.spec.dir0
  rw [saveFat_apply s fun _ => by rw [hlen]; omega, hlen]
  exact savedTable_outside s (by omega)

/-- and the table itself -/
theorem Ready.saved_inside (h : Ready s b) {i : Nat} (hi : i < b.len_fat) :
    (saveFat s).imgbuf0 (b.places.fat0 + i) = savedTable s b.len_fat (b.places.fat0 + i) := by
  have hfat0 : s.fat0 = b.places.fat0 := congrArg Places.fat0 h.places
  have hfat1 : s.fat1 = b.places.fat1 := congrArg Places.fat1 h.places
  have hBPB : s.BPB = b.places.BPB := congrArg Places.BPB h.places
  have hsec : s.len_sec = b.places.len_sec := congrArg Places.len_sec h.places
  have hlen : s.word (s.BPB + 0x16) * s.len_sec = b.len_fat := by
    rw [hBPB, hsec]
    exact h.spec.len_fat.symm
  have h1 := h.spec.fat1
  rw [saveFat_apply s fun _ => by omega, hlen]

/-- **The table** comes back from any memory that has the saved one in its place. -/
theorem Ready.loaded_fat (h : Ready s b) {s₁ s₂ : Image} (hl : LoadSpec s₁ b s₂)
    (hm : ∀ i < b.len_fat, s₁.imgbuf0 (b.places.fat0 + i) = savedTable s b.len_fat (b.places.fat0 + i))
    (hmark : b.places.flag &&& 4 ≠ 0 → s₁.imgbuf0 (b.places.BPB + 0x47) &&& 0x10 = 0) :
    ∀ j < b.limit_fat, s₂.fat j = s.fat j := by
  intro j hj
  have hflag : s.flag = b.places.flag := congrArg Places.flag h.places
  have hfat0 : s.fat0 = b.places.fat0 := congrArg Places.fat0 h.places
  rcases h.spec.kinds with ⟨h1, h2, h4⟩ | ⟨h1, h2, h4⟩ | ⟨h1, h2, h4⟩
  · obtain ⟨h3, h5⟩ := h.table16 (by omega) j hj
    have hsave : savedTable s b.len_fat = saveFat16 s.fat b.places.fat0 b.len_fat s.imgbuf0 := by
      unfold savedTable
      simp only [hflag, h1, h2, hfat0, Nat.one_ne_zero, if_true, if_false]
    rw [hl.fat16 (by omega) (Or.inl h4)]
    exact load_save16 (fun i hi => hsave ▸ hm i hi) h3 h5
  · obtain ⟨_, hall⟩ := h.table12 (by omega)
    obtain ⟨h3, h5⟩ := hall j hj
    have hsave : savedTable s b.len_fat = saveFat12 s.fat b.places.fat0 b.len_fat s.imgbuf0 := by
      unfold savedTable
      simp only [hflag, h1, h2, hfat0, Nat.reduceEqDiff, if_true, if_false]
    rw [hl.fat12 (by omega)]
    exact load_save12 (fun i hi => hsave ▸ hm i hi) h3 h5
  · obtain ⟨h3, h5⟩ := h.table16 (by omega) j hj
    have hsave : savedTable s b.len_fat = saveFat16 s.fat b.places.fat0 b.len_fat s.imgbuf0 := by
      unfold savedTable
      simp only [hflag, h1, h2, hfat0, Nat.one_ne_zero, if_true, if_false]
    rw [hl.fat16 (by omega) (Or.inr (hmark (by omega)))]
    exact load_save16 (fun i hi => hsave ▸ hm i hi) h3 h5

/-- **The image that `opt_imgout` writes** is loaded again, with the same directory, table and clusters. -/
theorem Ready.reload (h : Ready s b) (hg : Geometry s) {os : Os} {dst : Path} (hout : opt_imgout os s dst = .ok s') :
    ∃ s₂, opt_imgin s' dst = .ok s₂ ∧ Agrees s s₂ ∧ s₂.limit_fat = b.limit_fat := by
  have hs' : ∃ host, s' = { saveFat s with host := host } ∧
      host dst = some (read (saveFat s).imgbuf0 0 (saveFat s).len_imgbuf) := by
    unfold opt_imgout at hout
    split at hout
    · cases hout
    · simp only at hout
      split at hout
      · exact ⟨_, (Except.ok.inj hout).symm, Function.update_self ..⟩
      · cases hout
  obtain ⟨host, hs', hdst⟩ := hs'
  have hlen : (saveFat s).len_imgbuf = s.len_imgbuf := by rw [saveFat_eq s]
  have hflag' : s'.flag = s.flag := by rw [hs', saveFat_eq s]
  have hmem : s'.imgbuf0 = (saveFat s).imgbuf0 := by rw [hs']
  generalize hfile : read (saveFat s).imgbuf0 0 (saveFat s).len_imgbuf = file at hdst
  have hhost : s'.host dst = some file := by
    rw [hs']
    exact hdst
  have hsize : file.length = s.len_imgbuf := by rw [← hfile, read_length, hlen]
  obtain ⟨hend, hsiz⟩ := h.length
  have hfat0 := h.fat0_le
  have hsector := h.sector
  have hdir := hg.dir_le
  have hclu := clusterAt_ge s s.limit_fat
  -- the memory that the file is read into
  have hm : ∀ a < s.len_imgbuf, fileMemory file s'.imgbuf0 a = (saveFat s).imgbuf0 a := by
    intro a ha
    rw [← hfile, hmem]
    exact fileMemory_apply (hlen ▸ Nat.le_of_lt hsiz) (hlen ▸ ha)
  have hheader : ∀ a < b.places.BPB + 0x48, fileMemory file s'.imgbuf0 a = s.imgbuf0 a := fun a ha =>
    (hm a (by omega)).trans (h.saved_outside (Or.inl (by omega)))
  have hboot : bootOf (fileMemory file s'.imgbuf0) (s'.flag &&& 0xf8) = some b := by
    rw [hflag']
    exact bootOf_local h.boot fun a ha => hheader a (by omega)
  have hlong : 512 < file.length := by
    obtain ⟨n, hn⟩ := h.spec.fat0
    have h256 := h.spec.len_sec
    have htable := h.spec.table
    have hn1 : 1 ≤ n := by
      by_contra hzero
      have hzero' : n = 0 := by omega
      rw [hzero', Nat.zero_mul] at hn
      omega
    have := Nat.le_mul_of_pos_left b.places.len_sec hn1
    have := hg.dir
    have := hg.entries
    omega
  have hplain : ¬ Packed (fileMemory file s'.imgbuf0) := by
    rw [packed_congr fun a ha => hheader a (by omega)]
    exact h.plain
  refine ⟨_, opt_imgin_ok hhost ⟨hlong, by omega⟩ hplain hboot h.stored, ?_⟩
  have hl : LoadSpec (s'.withFile file) b (loadFat (s'.withFile file) b) := loadFat_spec _ h.spec.kinds
  have htable : ∀ j < b.limit_fat, (loadFat (s'.withFile file) b).fat j = s.fat j := by
    refine h.loaded_fat hl (fun i hi => ?_) fun h4 => ?_
    · exact (hm _ (by omega)).trans (h.saved_inside hi)
    · show fileMemory file s'.imgbuf0 (b.places.BPB + 0x47) &&& 0x10 = 0
      rw [hheader _ (by omega)]
      exact h.mark h4
  refine ⟨⟨hl.places.trans h.places.symm, ?_, fun a h1 h2 => ?_, fun j hj => htable j (Nat.lt_of_lt_of_le hj h.limit),
    fun j h1 h2 => ?_⟩, hl.limit⟩
  · rw [hl.limit]
    exact h.limit
  · rw [hl.imgbuf0 a (by omega)]
    exact (hm a (by omega)).trans (h.saved_outside (Or.inr h1))
  · rw [hl.limit] at h2
    rw [htable j h2, h.free j h1 h2]

/-- an image file of FAT12, with one cluster a sector of 256 bytes -/
def bootFile : List (BitVec 8) :=
  [0, 0, 0, 0, 0, 0, 0, 0, 0, 0, 0, 0, 1, 1, 1, 0, 1, 8, 0, 13, 0, 0, 1, 0] ++ List.replicate 490 0

/-- a host with an image and a file to copy -/
def bootHost : Image :=
  { blankDisk with host := fun path => if path = [0x69] then some bootFile else if path = [0x61] then some [1, 2, 3] else none }

def bootDisk : Image := loadFat (bootHost.withFile bootFile) ⟨⟨2, 256, 256, 0, 256, 256, 512, 768⟩, 12, 256, 3328⟩

set_option maxRecDepth 8000 in
theorem not_live_bootDisk (k : Nat) : ¬ bootDisk.Live k := fun h => h.1.2 0 (Nat.succ_pos k) rfl

set_option maxRecDepth 8000 in
theorem free_bootDisk : ∀ j < 12, bootDisk.fat j = 0 := by decide

theorem wf_bootDisk : Wf bootDisk ∅ where
  geometry := by constructor <;> decide
  clusters := fun k hk => absurd hk (not_live_bootDisk k)
  apart := fun k _ hk => absurd hk (not_live_bootDisk k)
  names := fun k _ hk => absurd hk.1 (not_live_bootDisk k)
  reserved := fun j hj => absurd hj (Set.notMem_empty j)
  lost := fun j hj hne => absurd (free_bootDisk j hj.2) hne
  sizes := fun k hk => absurd hk.1 (not_live_bootDisk k)

set_option maxRecDepth 8000 in
theorem savable_bootDisk : Savable bootDisk where
  boot := by decide
  table16 := fun h => absurd rfl h
  table12 := fun _ => by decide
  length := by decide
  plain := fun h => absurd h.1 (by decide)

end Clubcos.Edimg
