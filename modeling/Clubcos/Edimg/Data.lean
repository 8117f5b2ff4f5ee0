import Clubcos.Edimg.Dir

/-!
# The bytes of a file

* `Image.data`         the bytes of the clusters of a chain;
* `readLoop_spec`      `readfile` reads the first of them;
* `writeLoop_spec`     **`writefile` and `ovrwritefile` write them** iff the chain is long enough, and nothing else.
-/

set_option linter.unusedVariables false

namespace Clubcos.Edimg
open Bytes Chain

def Image.cluster (s : Image) (j : Nat) : List (BitVec 8) := read s.imgbuf0 (s.clusterAt j) s.len_clu

def Image.data (s : Image) (l : List Nat) : List (BitVec 8) := l.flatMap s.cluster

variable {s s' : Image}

@[simp] theorem cluster_length (s : Image) (j : Nat) : (s.cluster j).length = s.len_clu := read_length _ _ _

@[simp] theorem data_nil (s : Image) : s.data [] = [] := rfl

@[simp] theorem data_cons (s : Image) (j : Nat) (l : List Nat) : s.data (j :: l) = s.cluster j ++ s.data l := rfl

theorem data_length (s : Image) (l : List Nat) : (s.data l).length = l.length * s.len_clu := by
  induction l with
  | nil => simp
  | cons j l ih =>
    rw [data_cons, List.length_append, cluster_length, ih, List.length_cons, Nat.succ_mul]
    omega

theorem take_data_cons (s : Image) (j : Nat) (l : List Nat) (n : Nat) :
    (s.data (j :: l)).take (s.len_clu + n) = s.cluster j ++ (s.data l).take n := by
  have h := cluster_length s j
  rw [data_cons, ← h, List.take_length_add_append]

theorem drop_data_cons (s : Image) (j : Nat) (l : List Nat) (n : Nat) :
    (s.data (j :: l)).drop (s.len_clu + n) = (s.data l).drop n := by
  have h := cluster_length s j
  rw [data_cons, ← h, List.drop_length_add_append]

theorem data_congr {l : List Nat} (h : ∀ j ∈ l, s'.cluster j = s.cluster j) : s'.data l = s.data l := by
  induction l with
  | nil => rfl
  | cons j l ih =>
    rw [data_cons, data_cons, h j List.mem_cons_self, ih fun i hi => h i (List.mem_cons_of_mem j hi)]

/-! ## where the clusters lie -/

theorem clusterAt_ge (s : Image) (j : Nat) : s.clu0002 ≤ s.clusterAt j := Nat.le_add_right _ _

theorem clusterAt_lt {i j : Nat} (hi : 2 ≤ i) (hij : i < j) : s.clusterAt i + s.len_clu ≤ s.clusterAt j := by
  obtain ⟨d, rfl⟩ := Nat.exists_eq_add_of_lt hij
  have e : i + d + 1 - 2 = (i - 2) + d + 1 := by omega
  unfold Image.clusterAt
  rw [e, Nat.succ_mul, Nat.add_mul]
  omega

theorem clusterAt_apart {i j : Nat} (hi : 2 ≤ i) (hj : 2 ≤ j) (hij : i ≠ j) :
    s.clusterAt i + s.len_clu ≤ s.clusterAt j ∨ s.clusterAt j + s.len_clu ≤ s.clusterAt i :=
  (Nat.lt_or_gt_of_ne hij).imp (clusterAt_lt hi) (clusterAt_lt hj)

theorem Geometry.cluster_fits (hg : Geometry s) {j : Nat} (hj : 2 ≤ j ∧ j < s.limit_fat) :
    s.clusterAt j + s.len_clu ≤ SIZ_IMGBUF := by
  have h1 := hg.fits
  have h2 : s.clusterAt j + s.len_clu ≤ s.clusterAt s.limit_fat := clusterAt_lt hj.1 hj.2
  exact h2.trans h1

/-- the cluster is the same if its bytes are -/
theorem cluster_congr (hl : SameLayout s s') {j : Nat} (h : ∀ a, s.clusterAt j ≤ a → a < s.clusterAt j + s.len_clu →
    s'.imgbuf0 a = s.imgbuf0 a) : s'.cluster j = s.cluster j := by
  unfold Image.cluster
  rw [hl.clusterAt, hl.len_clu]
  apply read_congr
  intro i hi
  exact h _ (Nat.le_add_right _ _) (by omega)

/-- a write into another cluster -/
theorem cluster_store_apart {i j : Nat} (hi : 2 ≤ i) (hj : 2 ≤ j) (hij : i ≠ j) {bs : List (BitVec 8)}
    (hbs : bs.length ≤ s.len_clu) : (s.store (s.clusterAt i) bs).cluster j = s.cluster j := by
  have := clusterAt_apart (s := s) hi hj hij
  apply cluster_congr (sameLayout_store _ _ _)
  intro a h1 h2
  exact write_apart _ _ (by omega)

/-- a write into a cluster -/
theorem cluster_store (s : Image) (j : Nat) {bs : List (BitVec 8)} (hbs : bs.length ≤ s.len_clu) :
    (s.store (s.clusterAt j) bs).cluster j = bs ++ (s.cluster j).drop bs.length := by
  have h0 : 0 + bs.length ≤ s.len_clu := by omega
  have h := read_write_middle s.imgbuf0 (s.clusterAt j) h0
  rw [List.take_zero, List.nil_append, Nat.zero_add, Nat.add_zero] at h
  exact h

/-! ## reading -/

theorem readLoop_spec (hg : Geometry s) {e : Nat} {l : List Nat} : ∀ {j i q fuel : Nat} {buf : Nat → BitVec 8},
    Leads s.fat e (j :: l) → (∀ x ∈ j :: l, 2 ≤ x ∧ x < s.limit_fat) → i ≤ (j :: l).length * s.len_clu → i < fuel →
    ∃ buf', readLoop s fuel j i q buf = .ok buf' ∧ read buf' q i = (s.data (j :: l)).take i ∧ ∀ x < q, buf' x = buf x := by
  induction l with
  | nil =>
    intro j i q fuel buf _ hl hi hfuel
    obtain ⟨fuel, rfl⟩ := Nat.exists_eq_add_one_of_ne_zero (Nat.ne_of_gt (Nat.zero_lt_of_lt hfuel))
    have hj := hl j (by simp)
    have hfits := hg.cluster_fits hj
    have := hg.limit_le
    rw [List.length_singleton, Nat.one_mul] at hi
    refine ⟨write buf q (s.cluster j), ?_, ?_, fun x hx => write_below _ _ hx⟩
    · rw [readLoop, if_neg (by omega), if_neg (by omega), if_neg (by omega), if_neg (by omega)]
      rfl
    · have h := read_write buf q (cluster_length s j)
      rw [data_cons, data_nil, List.append_nil, ← h, take_read _ _ hi]
      rw [h]
  | cons b l ih =>
    intro j i q fuel buf h hl hi hfuel
    obtain ⟨fuel, rfl⟩ := Nat.exists_eq_add_one_of_ne_zero (Nat.ne_of_gt (Nat.zero_lt_of_lt hfuel))
    have hj := hl j (by simp)
    have hfits := hg.cluster_fits hj
    have hpos := hg.cluster
    have := hg.limit_le
    have hnext : s.fat j = b := h.1
    have hw := read_write buf q (cluster_length s j)
    by_cases hlt : s.len_clu < i
    · have hi' : i - s.len_clu ≤ (b :: l).length * s.len_clu := by
        rw [List.length_cons, Nat.succ_mul] at hi
        omega
      obtain ⟨buf', hok, hread, hsame⟩ := @ih b (i - s.len_clu) (q + s.len_clu) fuel (write buf q (s.cluster j)) h.2
        (fun x hx => hl x (List.mem_cons_of_mem j hx)) hi' (by omega)
      refine ⟨buf', ?_, ?_, fun x hx => (hsame x (by omega)).trans (write_below _ _ hx)⟩
      · rw [readLoop, if_neg (by omega), if_neg (by omega), if_neg (by omega), if_pos hlt, hnext]
        exact hok
      · obtain ⟨d, rfl⟩ := Nat.exists_eq_add_of_lt hlt
        have hd : s.len_clu + d + 1 - s.len_clu = d + 1 := by omega
        rw [hd] at hread
        have hfirst : read buf' q s.len_clu = s.cluster j := by
          rw [read_congr fun x hx => hsame (q + x) (by omega)]
          exact hw
        rw [Nat.add_assoc, read_add, hread, hfirst, take_data_cons]
    · refine ⟨write buf q (s.cluster j), ?_, ?_, fun x hx => write_below _ _ hx⟩
      · rw [readLoop, if_neg (by omega), if_neg (by omega), if_neg (by omega), if_neg hlt]
        rfl
      · rw [data_cons, List.take_append_of_le_length (by rw [cluster_length]; omega), ← take_read _ _ (by omega : i ≤ s.len_clu),
          hw]

/-- a file without clusters cannot be read -/
theorem readLoop_none (s : Image) {i q fuel : Nat} (hfuel : 0 < fuel) (buf : Nat → BitVec 8) :
    readLoop s fuel 0 i q buf = .error (.errend 13) := by
  obtain ⟨fuel, rfl⟩ := Nat.exists_eq_add_one_of_ne_zero (Nat.ne_of_gt hfuel)
  rfl

/-! ## writing -/

/-- what the loop leaves in the clusters of `l` of the `i` bytes from `r` on -/
structure Written (s : Image) (pad : Bool) (l : List Nat) (i r : Nat) (s' : Image) : Prop where
  rest : s' = { s with imgbuf0 := s'.imgbuf0 }
  outside : ∀ a, (∀ j ∈ l, a < s.clusterAt j ∨ s.clusterAt j + s.len_clu ≤ a) → s'.imgbuf0 a = s.imgbuf0 a
  data : (s'.data l).take i = read s.filebuf0 r i
  behind : pad = false → (s'.data l).drop i = (s.data l).drop i

theorem Written.layout {pad : Bool} {l : List Nat} {i r : Nat} (h : Written s pad l i r s') : SameLayout s s' := by
  rw [h.rest]
  exact ⟨rfl, rfl, rfl⟩

theorem Written.cluster {pad : Bool} {l : List Nat} {i r : Nat} (h : Written s pad l i r s') (hl : ∀ x ∈ l, 2 ≤ x)
    {j : Nat} (hj : 2 ≤ j) (hjl : j ∉ l) : s'.cluster j = s.cluster j := by
  apply cluster_congr h.layout
  intro a h1 h2
  apply h.outside
  intro x hx
  have := clusterAt_apart (s := s) (hl x hx) hj (ne_of_mem_of_not_mem hx hjl)
  omega

/-- the last cluster that is written -/
theorem written_last (s : Image) (pad : Bool) (j : Nat) {i : Nat} (r : Nat) (hi : i ≤ s.len_clu) :
    Written s pad [j] i r (s.store (s.clusterAt j) (if s.len_clu ≤ i then read s.filebuf0 r s.len_clu
      else read s.filebuf0 r i ++ if pad then List.replicate (s.len_clu - i) 0 else [])) := by
  have hbs : ∃ z, (if s.len_clu ≤ i then read s.filebuf0 r s.len_clu
      else read s.filebuf0 r i ++ if pad then List.replicate (s.len_clu - i) (0 : BitVec 8) else []) =
        read s.filebuf0 r i ++ z ∧ i + z.length ≤ s.len_clu ∧ (pad = false → z = []) := by
    split
    · have : i = s.len_clu := by omega
      exact ⟨[], by rw [List.append_nil, this], by rw [List.length_nil]; omega, fun _ => rfl⟩
    · refine ⟨_, rfl, ?_, fun h => by rw [h]; rfl⟩
      split
      · rw [List.length_replicate]
        omega
      · rw [List.length_nil]
        omega
  obtain ⟨z, hz, hlen, hpad⟩ := hbs
  rw [hz]
  have hl : (read s.filebuf0 r i ++ z).length = i + z.length := by
    rw [List.length_append, read_length]
  have hcluster : (s.store (s.clusterAt j) (read s.filebuf0 r i ++ z)).data [j] =
      read s.filebuf0 r i ++ (z ++ (s.cluster j).drop (i + z.length)) := by
    rw [data_cons, data_nil, List.append_nil, cluster_store s j (by rw [hl]; omega), hl, List.append_assoc]
  refine ⟨rfl, fun a ha => write_apart _ _ ?_, ?_, fun h => ?_⟩
  · have := ha j (by simp)
    omega
  · rw [hcluster]
    exact List.take_left' (read_length _ _ _)
  · rw [hcluster, List.drop_left' (read_length _ _ _), hpad h]
    simp

/-- a whole cluster is written, and then the others -/
theorem written_cons {pad : Bool} {j i r : Nat} {l : List Nat} (hj : 2 ≤ j) (hjl : j ∉ l) (hl : ∀ x ∈ l, 2 ≤ x)
    (hi : s.len_clu < i)
    (h : Written (s.store (s.clusterAt j) (read s.filebuf0 r s.len_clu)) pad l (i - s.len_clu) (r + s.len_clu) s') :
    Written s pad (j :: l) i r s' := by
  have hlen : (read s.filebuf0 r s.len_clu).length ≤ s.len_clu := Nat.le_of_eq (read_length _ _ _)
  have hfirst : s'.cluster j = read s.filebuf0 r s.len_clu := by
    rw [h.cluster hl hj hjl, cluster_store s j hlen, read_length, List.drop_eq_nil_of_le (Nat.le_of_eq (cluster_length s j)),
      List.append_nil]
  have hdata : (s.store (s.clusterAt j) (read s.filebuf0 r s.len_clu)).data l = s.data l :=
    data_congr fun x hx => cluster_store_apart hj (hl x hx) (ne_of_mem_of_not_mem hx hjl).symm hlen
  obtain ⟨d, rfl⟩ := Nat.exists_eq_add_of_lt hi
  have hd : s.len_clu + d + 1 - s.len_clu = d + 1 := by omega
  refine ⟨?_, fun a ha => ?_, ?_, fun hp => ?_⟩
  · rw [h.rest]
    rfl
  · rw [h.outside a fun x hx => ha x (List.mem_cons_of_mem j hx)]
    have := ha j (by simp)
    exact write_apart _ _ (by rw [read_length]; omega)
  · have hdat := h.data
    rw [hd] at hdat
    have ht := take_data_cons s' j l (d + 1)
    rw [h.layout.len_clu, hfirst, hdat] at ht
    rw [Nat.add_assoc, read_add]
    exact ht
  · have hb := h.behind hp
    rw [hd, hdata] at hb
    have ht := drop_data_cons s' j l (d + 1)
    rw [h.layout.len_clu, hb] at ht
    rw [Nat.add_assoc, drop_data_cons]
    exact ht

theorem Written.more {pad : Bool} {j i r : Nat} {l : List Nat} (hj : 2 ≤ j) (hjl : j ∉ l) (hl : ∀ x ∈ l, 2 ≤ x)
    (hi : i ≤ s.len_clu) (h : Written s pad [j] i r s') : Written s pad (j :: l) i r s' := by
  have hdata : s'.data l = s.data l := data_congr fun x hx =>
    h.cluster (by simpa using hj) (hl x hx) (by simpa using ne_of_mem_of_not_mem hx hjl)
  refine ⟨h.rest, fun a ha => h.outside a fun x hx => ha x ?_, ?_, fun hp => ?_⟩
  · rw [List.mem_singleton.mp hx]
    exact List.mem_cons_self
  · have := h.data
    rw [data_cons, data_nil, List.append_nil] at this
    rw [data_cons, List.take_append_of_le_length (by rw [cluster_length, h.layout.len_clu]; exact hi), this]
  · have := h.behind hp
    rw [data_cons, data_nil, List.append_nil, data_cons, data_nil, List.append_nil] at this
    rw [data_cons, data_cons, hdata, List.drop_append_of_le_length (by rw [cluster_length, h.layout.len_clu]; exact hi),
      List.drop_append_of_le_length (by rw [cluster_length]; exact hi), this]

/-- **The bytes are written** if the chain has room for them, and else there is an error. -/
theorem writeLoop_spec (pad : Bool) (code : Nat) {e : Nat} (he : 0xfff8 ≤ e) {l : List Nat} : ∀ {s : Image}
    {i r fuel : Nat}, Geometry s → Leads s.fat e l → l.Nodup → (∀ x ∈ l, 2 ≤ x ∧ x < s.limit_fat) → i < fuel →
    if l ≠ [] ∧ i ≤ l.length * s.len_clu then
      ∃ s', writeLoop pad code fuel s (first e l) i r = .ok s' ∧ Written s pad l i r s'
    else writeLoop pad code fuel s (first e l) i r = .error (.errend code) := by
  induction l with
  | nil =>
    intro s i r fuel hg h _ _ hfuel
    obtain ⟨fuel, rfl⟩ := Nat.exists_eq_add_one_of_ne_zero (Nat.ne_of_gt (Nat.zero_lt_of_lt hfuel))
    rw [if_neg (by simp), first_nil, writeLoop, if_neg (by omega), if_pos (by omega)]
  | cons j l ih =>
    intro s i r fuel hg h hn hl hfuel
    obtain ⟨fuel, rfl⟩ := Nat.exists_eq_add_one_of_ne_zero (Nat.ne_of_gt (Nat.zero_lt_of_lt hfuel))
    have hj := hl j (by simp)
    have hfits := hg.cluster_fits hj
    have hpos := hg.cluster
    have hlimit := hg.limit_le
    have hnext : s.fat j = first e l := h.1
    have hjl : j ∉ l := (List.nodup_cons.mp hn).1
    have hl' : ∀ x ∈ l, 2 ≤ x ∧ x < s.limit_fat := fun x hx => hl x (List.mem_cons_of_mem j hx)
    have hl2 : ∀ x ∈ l, 2 ≤ x := fun x hx => (hl' x hx).1
    by_cases hlt : s.len_clu < i
    · have hstep : writeLoop pad code (fuel + 1) s (first e (j :: l)) i r =
          writeLoop pad code fuel (s.store (s.clusterAt j) (read s.filebuf0 r s.len_clu)) (first e l) (i - s.len_clu)
            (r + s.len_clu) := by
        rw [first_cons, writeLoop, if_neg (by omega), if_neg (by omega), if_neg (by omega)]
        simp only [if_pos (Nat.le_of_lt hlt)]
        rw [← hnext]
        exact if_pos hlt
      have hfuel' : i - s.len_clu < fuel := by omega
      have hrec := ih (s := s.store (s.clusterAt j) (read s.filebuf0 r s.len_clu)) (i := i - s.len_clu)
        (r := r + s.len_clu) ((sameLayout_store _ _ _).geometry hg) h.2 (List.nodup_cons.mp hn).2 hl' hfuel'
      have hiff : (l ≠ [] ∧ i - s.len_clu ≤ l.length * s.len_clu) ↔
          (j :: l ≠ [] ∧ i ≤ (j :: l).length * s.len_clu) := by
        rw [List.length_cons, Nat.succ_mul]
        constructor
        · rintro ⟨_, h2⟩
          exact ⟨List.cons_ne_nil j l, by omega⟩
        · rintro ⟨_, h2⟩
          refine ⟨?_, by omega⟩
          rintro rfl
          rw [List.length_nil, Nat.zero_mul] at h2
          omega
      rw [hstep]
      by_cases hc : j :: l ≠ [] ∧ i ≤ (j :: l).length * s.len_clu
      · rw [if_pos hc]
        obtain ⟨s', hok, hw⟩ := (if_pos (hiff.mpr hc)).mp hrec
        exact ⟨s', hok, written_cons hj.1 hjl hl2 hlt hw⟩
      · rw [if_neg hc]
        exact (if_neg (mt hiff.mp hc)).mp hrec
    · have hle : i ≤ s.len_clu := Nat.le_of_not_lt hlt
      have hc : j :: l ≠ [] ∧ i ≤ (j :: l).length * s.len_clu := by
        rw [List.length_cons, Nat.succ_mul]
        exact ⟨List.cons_ne_nil j l, by omega⟩
      rw [if_pos hc]
      refine ⟨_, ?_, (written_last s pad j r hle).more hj.1 hjl hl2 hle⟩
      rw [first_cons, writeLoop, if_neg (by omega), if_neg (by omega), if_neg (by omega)]
      exact if_neg hlt

end Clubcos.Edimg
