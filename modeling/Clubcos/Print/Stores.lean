import Clubcos.Print.Model

/-!
# What a step stores

Texts are stored behind each other.  The counter lets `(size - 1)` of their characters through, where 0 wraps around.

* `Out.Clean`                   the stores so far are inside the buffer, with room for a `'\0'`;
* `clean_write`                 when a text keeps it so;
* `putAll_ok`, `putAll_error`   how far a text gets;
* `print_clean`                 **what a step stores**, as one text.
-/

set_option linter.unusedVariables false

namespace Clubcos
open Word

/-! ## clean states -/

/-- the stores so far are inside the buffer, and no `'\0'` is in the text -/
structure Out.Inside (n : Nat) (o : Out) : Prop where
  stores : ∀ i ∈ o.stores, i < n
  text : ∀ i < o.str, o.buf i ≠ 0

/-- and there is room for the `'\0'` -/
structure Out.Clean (n : Nat) (o : Out) : Prop extends o.Inside n where
  room : o.str < n

section
variable {n : Nat}

theorem inside_store {o : Out} {c : Byte} : (o.store c).Inside n ↔ o.Inside n ∧ o.str < n := by
  have hbuf : ∀ i < o.str, (o.store c).buf i = o.buf i := fun i hi => Function.update_of_ne (Nat.ne_of_lt hi) _ _
  constructor
  · intro h
    refine ⟨⟨fun i hi => h.stores i (List.mem_append_left _ hi), fun i hi => ?_⟩, ?_⟩
    · rw [← hbuf i hi]
      exact h.text i hi
    · exact h.stores o.str (List.mem_append_right _ List.mem_cons_self)
  · rintro ⟨h, hroom⟩
    refine ⟨fun i hi => ?_, fun i hi => ?_⟩
    · rcases List.mem_append.mp hi with hi | hi
      · exact h.stores i hi
      · exact List.mem_singleton.mp hi ▸ hroom
    · rw [hbuf i hi]
      exact h.text i hi

theorem inside_push {o : Out} {c : Byte} : (o.push c).Inside n ↔ o.Inside n ∧ o.str < n ∧ c ≠ 0 := by
  have hlast : (o.push c).buf o.str = c := Function.update_self _ _ _
  constructor
  · intro h
    have hstore : (o.store c).Inside n := ⟨h.stores, fun i hi => h.text i (Nat.lt_succ_of_lt hi)⟩
    obtain ⟨h1, h2⟩ := inside_store.mp hstore
    refine ⟨h1, h2, ?_⟩
    rw [← hlast]
    exact h.text o.str (Nat.lt_succ_self o.str)
  · rintro ⟨h, hroom, hc⟩
    have hstore : (o.store c).Inside n := inside_store.mpr ⟨h, hroom⟩
    refine ⟨hstore.stores, fun i hi => ?_⟩
    rcases Nat.lt_succ_iff_lt_or_eq.mp hi with hi | rfl
    · exact hstore.text i hi
    · rw [hlast]
      exact hc

theorem clean_store {o : Out} {c : Byte} : (o.store c).Clean n ↔ o.Clean n := by
  constructor
  · intro h
    exact ⟨(inside_store.mp h.toInside).1, h.room⟩
  · intro h
    exact ⟨inside_store.mpr ⟨h.toInside, h.room⟩, h.room⟩

/-- the state behind a text -/
def Out.write (o : Out) (t : List Byte) : Out := t.foldl Out.push o

theorem write_str (t : List Byte) (o : Out) : (o.write t).str = o.str + t.length := by
  induction t generalizing o with
  | nil => rfl
  | cons c t ih =>
    show ((o.push c).write t).str = _
    rw [ih, List.length_cons]
    show o.str + 1 + t.length = _
    omega

theorem write_append (t t' : List Byte) (o : Out) : o.write (t ++ t') = (o.write t).write t' := List.foldl_append

/-- **A text is stored inside the buffer** exactly if it leaves room for the `'\0'`. -/
theorem clean_write {t : List Byte} {o : Out} :
    (o.write t).Clean n ↔ o.Inside n ∧ o.str + t.length < n ∧ 0 ∉ t := by
  induction t generalizing o with
  | nil =>
    constructor
    · intro h
      exact ⟨h.toInside, h.room, List.not_mem_nil⟩
    · rintro ⟨h, hroom, _⟩
      exact ⟨h, hroom⟩
  | cons c t ih =>
    show ((o.push c).write t).Clean n ↔ _
    rw [ih, inside_push, List.length_cons, List.mem_cons]
    show (o.Inside n ∧ o.str < n ∧ c ≠ 0) ∧ o.str + 1 + t.length < n ∧ 0 ∉ t ↔ _
    constructor
    · rintro ⟨⟨h, _, hc⟩, hroom, ht⟩
      exact ⟨h, by omega, not_or.mpr ⟨hc.symm, ht⟩⟩
    · rintro ⟨h, hroom, hc⟩
      obtain ⟨hc, ht⟩ := not_or.mp hc
      exact ⟨⟨h, by omega, Ne.symm hc⟩, by omega, ht⟩

/-- what is stored at the place of the next character does not matter -/
theorem clean_write_store {t : List Byte} {o : Out} {c : Byte} :
    ((o.store c).write t).Clean n ↔ (o.write t).Clean n := by
  rw [clean_write, clean_write, inside_store]
  show (o.Inside n ∧ o.str < n) ∧ o.str + t.length < n ∧ _ ↔ _
  constructor
  · rintro ⟨⟨h, _⟩, h'⟩
    exact ⟨h, h'⟩
  · rintro ⟨h, hroom, ht⟩
    exact ⟨⟨h, by omega⟩, hroom, ht⟩

end

/-! ## the counter -/

/-- the counter does not matter to what is stored -/
theorem write_size (t : List Byte) (o : Out) (size : BitVec 32) :
    Out.write { o with size := size } t = { o.write t with size := size } := by
  induction t generalizing o with
  | nil => rfl
  | cons c t ih => exact ih (o.push c)

theorem size_write (t : List Byte) (o : Out) : (o.write t).size = o.size := by
  induction t generalizing o with
  | nil => rfl
  | cons c t ih => exact ih (o.push c)

/-- a character behind its test -/
theorem write_tick_push (c : Byte) (t : List Byte) (o : Out) :
    (o.tick.push c).write t = { o.write (c :: t) with size := o.size - 1 } := write_size t (o.push c) (o.size - 1)

/-- a test that fails leaves one less -/
theorem tick_toNat {size : BitVec 32} (h : size ≠ 1) : (size - 1 - 1).toNat + 1 = (size - 1).toNat := by
  bv_omega

theorem putAll_append (t t' : List Byte) (o : Out) : putAll (t ++ t') o = (putAll t o).bind (putAll t') := by
  induction t generalizing o with
  | nil => rfl
  | cons c t ih =>
    show (put c o).bind (putAll (t ++ t')) = ((put c o).bind (putAll t)).bind (putAll t')
    cases put c o with
    | error o => rfl
    | ok o => exact ih o

/-- a text that the counter lets through -/
theorem putAll_ok {t : List Byte} {o : Out} (h : t.length ≤ (o.size - 1).toNat) :
    putAll t o = .ok { o.write t with size := o.size - BitVec.ofNat 32 t.length } := by
  induction t generalizing o with
  | nil =>
    have hsize : o.size - BitVec.ofNat 32 0 = o.size := by simp
    show Except.ok o = .ok { o with size := o.size - BitVec.ofNat 32 0 }
    rw [hsize]
  | cons c t ih =>
    rw [List.length_cons] at h
    have hne : o.size ≠ 1 := by
      intro e
      rw [e] at h
      exact absurd h (Nat.not_succ_le_zero _)
    have htick := tick_toNat hne
    show (put c o).bind (putAll t) = _
    unfold put
    rw [if_neg hne]
    show putAll t (o.tick.push c) = _
    have hrest : t.length ≤ ((o.tick.push c).size - 1).toNat := by
      show t.length ≤ (o.size - 1 - 1).toNat
      omega
    have hsize : o.size - 1 - BitVec.ofNat 32 t.length = o.size - BitVec.ofNat 32 (t.length + 1) := by
      rw [BitVec.ofNat_add]
      bv_omega
    rw [ih hrest, write_tick_push, List.length_cons, ← hsize]
    rfl

/-- a text that is cut off leaves 0 -/
theorem putAll_error {t : List Byte} {o : Out} (h : (o.size - 1).toNat < t.length) :
    putAll t o = .error { o.write (t.take (o.size - 1).toNat) with size := 0 } := by
  induction t generalizing o with
  | nil => exact absurd h (Nat.not_lt_zero _)
  | cons c t ih =>
    show (put c o).bind (putAll t) = _
    unfold put
    by_cases hone : o.size = 1
    · rw [if_pos hone, hone]
      show Except.error { o with size := o.size - 1 } = _
      rw [hone]
      rfl
    · rw [if_neg hone]
      have htick := tick_toNat hone
      rw [List.length_cons] at h
      have hrest : ((o.tick.push c).size - 1).toNat < t.length := by
        show (o.size - 1 - 1).toNat < t.length
        omega
      show putAll t (o.tick.push c) = _
      rw [ih hrest, write_tick_push, ← htick, List.take_succ_cons]
      rfl

theorem clean_congr {n : Nat} {o o' : Out} (hstr : o'.str = o.str) (hbuf : o'.buf = o.buf)
    (hstores : o'.stores = o.stores) : o'.Clean n ↔ o.Clean n := by
  constructor
  · intro h
    exact ⟨⟨hstores ▸ h.stores, hbuf ▸ hstr ▸ h.text⟩, hstr ▸ h.room⟩
  · intro h
    exact ⟨⟨hstores.symm ▸ h.stores, hbuf.symm ▸ hstr.symm ▸ h.text⟩, hstr.symm ▸ h.room⟩

theorem clean_write_size {n : Nat} (t : List Byte) (o : Out) (size : BitVec 32) :
    (Out.write { o with size := size } t).Clean n ↔ (o.write t).Clean n := by
  rw [write_size]
  exact clean_congr rfl rfl rfl

/-! ## what a step stores -/

/-- the text of a step that is not cut off -/
def Piece.textOf (size : BitVec 32) : Piece → List Byte
  | .text t => t
  | .string pads len s blanks =>
    let left := (size - BitVec.ofNat 32 pads).toNat
    if pads ≤ (size - 1).toNat ∧ len < left then s ++ List.replicate (min blanks (left - len)) (chr ' ') else []
  | .number lead hex rest =>
    if hex then
      if size - BitVec.ofNat 32 lead.length ≤ 2 then lead else lead ++ [chr '0', chr 'x'] ++ rest
    else lead ++ rest
  | .count => []

/-- the counter is tested before every store -/
def Piece.Tested : Piece → Prop
  | .string .. => False
  | _ => True

/-- what gets past the tests -/
def Piece.stored (size : BitVec 32) : Piece → List Byte
  | .string pads len s blanks => (Piece.string pads len s blanks).textOf size
  | p => (p.textOf size).take (size - 1).toNat

section
variable {n : Nat}

theorem putAll_clean (t : List Byte) (o : Out) :
    (merge (putAll t o)).Clean n ↔ (o.write (t.take (o.size - 1).toNat)).Clean n := by
  rcases Nat.lt_or_ge (o.size - 1).toNat t.length with h | h
  · rw [putAll_error h]
    exact clean_congr rfl rfl rfl
  · rw [putAll_ok h, List.take_of_length_le h]
    exact clean_congr rfl rfl rfl

/-- the prefix and the digits behind it -/
theorem hexPrefix_clean (rest : List Byte) {o : Out} (h : ¬ o.size ≤ 2) :
    (merge ((hexPrefix true o).bind (putAll rest))).Clean n ↔
      (o.write (([chr '0', chr 'x'] ++ rest).take (o.size - 1).toNat)).Clean n := by
  have hgt : (o.size - 1).toNat = (o.size - 2 - 1).toNat + 2 := by bv_omega
  unfold hexPrefix
  rw [if_pos rfl, if_neg h, hgt]
  show (merge (putAll rest (Out.write { o with size := o.size - 2 } [chr '0', chr 'x']))).Clean n ↔ _
  rw [putAll_clean, size_write, ← write_append, clean_write_size]
  rfl

theorem number_clean (lead : List Byte) (hex : Bool) (rest : List Byte) (o : Out) :
    (merge (((putAll lead o).bind (hexPrefix hex)).bind (putAll rest))).Clean n ↔
      (o.write ((Piece.number lead hex rest).stored o.size)).Clean n := by
  cases hex with
  | false =>
    have hplain : (putAll lead o).bind (hexPrefix false) = putAll lead o := by
      cases putAll lead o <;> rfl
    rw [hplain, ← putAll_append]
    exact putAll_clean (lead ++ rest) o
  | true =>
    have hstored : (Piece.number lead true rest).stored o.size =
        (if o.size - BitVec.ofNat 32 lead.length ≤ 2 then lead else lead ++ [chr '0', chr 'x'] ++ rest).take
          (o.size - 1).toNat := rfl
    rw [hstored]
    rcases Nat.lt_or_ge (o.size - 1).toNat lead.length with h | h
    · rw [putAll_error h]
      have htake : (if o.size - BitVec.ofNat 32 lead.length ≤ 2 then lead
          else lead ++ [chr '0', chr 'x'] ++ rest).take (o.size - 1).toNat = lead.take (o.size - 1).toNat := by
        split
        · rfl
        · rw [List.append_assoc, List.take_append_of_le_length (Nat.le_of_lt h)]
      rw [htake]
      exact clean_congr rfl rfl rfl
    · rw [putAll_ok h]
      by_cases h2 : o.size - BitVec.ofNat 32 lead.length ≤ 2
      · rw [if_pos h2, List.take_of_length_le h]
        show (merge ((hexPrefix true { o.write lead with size := _ }).bind (putAll rest))).Clean n ↔ _
        unfold hexPrefix
        rw [if_pos rfl, if_pos h2]
        exact clean_congr rfl rfl rfl
      · have hlets : (o.size - 1).toNat = lead.length + (o.size - BitVec.ofNat 32 lead.length - 1).toNat := by
          bv_omega
        rw [if_neg h2, hlets, List.append_assoc, List.take_length_add_append, write_append]
        exact (hexPrefix_clean rest h2).trans (clean_write_size _ _ _)

/-- the blanks in front of a string are all stored at its place -/
theorem padString_ok {pads : Nat} {o : Out} (h : pads ≤ (o.size - 1).toNat) : ∃ o', padString pads o = .ok o' ∧
    o'.size = o.size - BitVec.ofNat 32 pads ∧ ∀ t, (o'.write t).Clean n ↔ (o.write t).Clean n := by
  induction pads generalizing o with
  | zero => exact ⟨o, rfl, by simp, fun t => Iff.rfl⟩
  | succ pads ih =>
    have hne : o.size ≠ 1 := by
      intro e
      rw [e] at h
      exact absurd h (Nat.not_succ_le_zero _)
    have htick := tick_toNat hne
    obtain ⟨o', ho', hsize, hclean⟩ := ih (o := o.tick.store (chr ' ')) (by
      show pads ≤ (o.size - 1 - 1).toNat
      omega)
    refine ⟨o', ?_, ?_, fun t => ?_⟩
    · unfold padString
      rw [if_neg hne, ho']
    · rw [hsize, BitVec.ofNat_add]
      show o.size - 1 - _ = _
      bv_omega
    · rw [hclean, clean_write_store]
      exact clean_write_size t o (o.size - 1)

theorem padString_error {pads : Nat} {o : Out} (h : (o.size - 1).toNat < pads) :
    ∃ o', padString pads o = .error o' ∧ (o'.Clean n ↔ o.Clean n) := by
  induction pads generalizing o with
  | zero => exact absurd h (Nat.not_lt_zero _)
  | succ pads ih =>
    by_cases hone : o.size = 1
    · refine ⟨o.tick, ?_, clean_congr rfl rfl rfl⟩
      unfold padString
      rw [if_pos hone]
    · have htick := tick_toNat hone
      obtain ⟨o', ho', hclean⟩ := ih (o := o.tick.store (chr ' ')) (by
        show (o.size - 1 - 1).toNat < pads
        omega)
      refine ⟨o', ?_, hclean.trans (clean_store.trans (clean_congr rfl rfl rfl))⟩
      unfold padString
      rw [if_neg hone, ho']

/-- the blanks behind a string: the last one is stored when the counter is 1 already -/
theorem trailBlanks_clean {blanks : Nat} {o : Out} (h : o.size ≠ 0) : (merge (trailBlanks blanks o)).Clean n ↔
    (o.write (List.replicate (min blanks o.size.toNat) (chr ' '))).Clean n := by
  induction blanks generalizing o with
  | zero =>
    rw [Nat.zero_min]
    exact Iff.rfl
  | succ blanks ih =>
    unfold trailBlanks
    by_cases hone : o.size = 1
    · rw [if_pos hone, hone]
      have hmin : min (blanks + 1) (1 : BitVec 32).toNat = 1 := Nat.min_eq_right (Nat.succ_pos blanks)
      rw [hmin]
      exact clean_congr rfl rfl rfl
    · rw [if_neg hone]
      have hne : o.size - 1 ≠ 0 := by bv_omega
      have hmin : min (blanks + 1) o.size.toNat = min blanks (o.size - 1).toNat + 1 := by bv_omega
      rw [ih (o := (o.push (chr ' ')).tick) hne, hmin, List.replicate_succ]
      exact clean_write_size _ (o.push (chr ' ')) (o.size - 1)

theorem string_clean (pads len : Nat) (str : List Byte) (blanks : Nat) (o : Out) :
    (merge ((Piece.string pads len str blanks).print o)).Clean n ↔
      (o.write ((Piece.string pads len str blanks).stored o.size)).Clean n := by
  have hstored : (Piece.string pads len str blanks).stored o.size =
      if pads ≤ (o.size - 1).toNat ∧ len < (o.size - BitVec.ofNat 32 pads).toNat then
        str ++ List.replicate (min blanks ((o.size - BitVec.ofNat 32 pads).toNat - len)) (chr ' ') else [] := rfl
  rw [hstored]
  show (merge (((padString pads o).bind (copyString len str)).bind (trailBlanks blanks))).Clean n ↔ _
  rcases Nat.lt_or_ge (o.size - 1).toNat pads with h | h
  · obtain ⟨o', ho', hclean⟩ := padString_error (n := n) h
    rw [ho', if_neg fun hp => absurd hp.1 (Nat.not_le.mpr h)]
    exact hclean
  · obtain ⟨o', ho', hsize, hclean⟩ := padString_ok (n := n) h
    rw [ho', ← hsize]
    show (merge ((copyString len str o').bind (trailBlanks blanks))).Clean n ↔ _
    unfold copyString
    by_cases hlen : o'.size.toNat ≤ len
    · rw [if_pos hlen, if_neg fun hp => absurd hp.2 (Nat.not_lt.mpr hlen)]
      exact hclean []
    · have hleft : (o'.size - BitVec.ofNat 32 len).toNat = o'.size.toNat - len := by bv_omega
      have hne : o'.size - BitVec.ofNat 32 len ≠ 0 := by bv_omega
      rw [if_neg hlen, if_pos ⟨h, Nat.lt_of_not_le hlen⟩]
      show (merge (trailBlanks blanks (Out.write { o' with size := o'.size - BitVec.ofNat 32 len } str))).Clean n ↔ _
      rw [trailBlanks_clean (by rw [size_write]; exact hne), size_write, ← write_append, clean_write_size, hclean,
        hleft]

/-- **What a step stores** is one text. -/
theorem print_clean (p : Piece) (o : Out) : (merge (p.print o)).Clean n ↔ (o.write (p.stored o.size)).Clean n := by
  cases p with
  | text t => exact putAll_clean t o
  | string pads len s blanks => exact string_clean pads len s blanks o
  | number lead hex rest =>
    rw [← number_clean]
    unfold Piece.print
    simp only []
    split <;> exact Iff.rfl
  | count =>
    show Out.Clean n { o with counts := o.counts ++ [o.str] } ↔ (o.write (List.take _ [])).Clean n
    rw [List.take_nil]
    exact clean_congr rfl rfl rfl

end

end Clubcos
