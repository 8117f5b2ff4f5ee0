import Mathlib.Data.List.Chain
import Mathlib.Logic.Function.Basic

/-!
# Circular doubly linked lists

The two link fields of an address space `A` are a pair of functions.  `IsRing k d xs` says that the
addresses `xs` lie in this order on a circular list with the head `d`, linked both ways.

* `IsRing.push`    linking an address in before the head appends it;
* `IsRing.erase`   unlinking an address removes it from wherever it is;
* `IsRing.pop`     unlinking the address behind the head removes the first one;
* `IsRing.frame`   a ring is untouched as long as the links of its members are;
* `IsRing.forth`, `IsRing.back`   walking around it in both directions;
* `IsRing.unique`  the pointers spell one sequence.
-/

namespace Ring

structure Links (A : Type*) where
  next : A → A
  prev : A → A

variable {A : Type*}

/-- linked both ways -/
def Joined (k : Links A) (a b : A) : Prop := k.next a = b ∧ k.prev b = a

/-- the circular list with the head `d` and the elements `xs` -/
def IsRing (k : Links A) (d : A) (xs : List A) : Prop := List.IsChain (Joined k) ((d :: xs) ++ [d])

theorem isRing_nil {k : Links A} {d : A} : IsRing k d [] ↔ k.next d = d ∧ k.prev d = d :=
  List.isChain_pair

/-- the links between the members determine a ring -/
theorem IsRing.frame {k k' : Links A} {d : A} {xs : List A} (h : IsRing k d xs)
    (hn : ∀ a ∈ d :: xs, k'.next a = k.next a) (hp : ∀ a ∈ d :: xs, k'.prev a = k.prev a) :
    IsRing k' d xs := by
  have hmem : ∀ a ∈ (d :: xs) ++ [d], a ∈ d :: xs := by
    intro a ha
    rcases List.mem_append.mp ha with ha | ha
    · exact ha
    · exact List.mem_cons.mpr (Or.inl (List.mem_singleton.mp ha))
  refine List.IsChain.imp_of_mem_imp (fun a b ha hb hab => ?_) h
  exact ⟨(hn a (hmem a ha)).trans hab.1, (hp b (hmem b hb)).trans hab.2⟩

/-! ## the neighbours of a member -/

section
variable {k : Links A} {d n : A} {xs ys : List A}

theorem IsRing.next_head (h : IsRing k d xs) : k.next d = xs.headD d := by
  cases xs with
  | nil => exact (isRing_nil.mp h).1
  | cons x xs => exact (List.isChain_cons_cons.mp h).1.1

/-- the last member is the one before the head -/
theorem IsRing.prev_head (h : IsRing k d xs) : k.prev d = xs.getLastD d := by
  rcases List.eq_nil_or_concat' xs with rfl | ⟨zs, z, rfl⟩
  · exact (isRing_nil.mp h).2
  · have h1 : List.IsChain (Joined k) ((d :: zs) ++ z :: d :: []) := by
      have e : (d :: (zs ++ [z])) ++ [d] = (d :: zs) ++ z :: d :: [] := by simp
      exact e ▸ h
    have h2 := (List.isChain_append_cons_cons.mp h1).2.1.2
    rw [h2, List.getLastD_concat]

/-- a ring around a member: the part before it and the part behind it -/
theorem isRing_split : IsRing k d (xs ++ n :: ys) ↔
    List.IsChain (Joined k) ((d :: xs) ++ [n]) ∧ List.IsChain (Joined k) (n :: (ys ++ [d])) := by
  have e : (d :: (xs ++ n :: ys)) ++ [d] = (d :: xs) ++ n :: (ys ++ [d]) := by simp
  show List.IsChain _ ((d :: (xs ++ n :: ys)) ++ [d]) ↔ _
  rw [e]
  exact List.isChain_split

theorem IsRing.next_mem (h : IsRing k d (xs ++ n :: ys)) : k.next n = ys.headD d := by
  have h2 := (isRing_split.mp h).2
  cases ys with
  | nil => exact (List.isChain_cons_cons.mp h2).1.1
  | cons y ys => exact (List.isChain_cons_cons.mp h2).1.1

theorem IsRing.prev_mem (h : IsRing k d (xs ++ n :: ys)) : k.prev n = xs.getLastD d := by
  have h1 := (isRing_split.mp h).1
  rcases List.eq_nil_or_concat' xs with rfl | ⟨zs, z, rfl⟩
  · exact (List.isChain_pair.mp h1).2
  · have h2 : List.IsChain (Joined k) ((d :: zs) ++ z :: n :: []) := by
      have e : (d :: (zs ++ [z])) ++ [n] = (d :: zs) ++ z :: n :: [] := by simp
      exact e ▸ h1
    have h3 := (List.isChain_append_cons_cons.mp h2).2.1.2
    rw [h3, List.getLastD_concat]

theorem IsRing.prev_first (h : IsRing k d (n :: ys)) : k.prev n = d :=
  IsRing.prev_mem (show IsRing k d ([] ++ n :: ys) from h)

theorem headD_mem (d : A) (xs : List A) : xs.headD d ∈ d :: xs := by
  cases xs with
  | nil => exact List.mem_cons_self
  | cons x xs => exact List.mem_cons_of_mem _ List.mem_cons_self

theorem getLastD_mem (d : A) (xs : List A) : xs.getLastD d ∈ d :: xs := by
  rcases List.eq_nil_or_concat' xs with rfl | ⟨zs, z, rfl⟩
  · exact List.mem_cons_self
  · rw [List.getLastD_concat]
    exact List.mem_cons_of_mem _ (List.mem_append_right _ (List.mem_singleton.mpr rfl))

/-- the neighbours of a member are the head or members -/
theorem IsRing.neighbours (h : IsRing k d xs) (hn : n ∈ d :: xs) :
    k.next n ∈ d :: xs ∧ k.prev n ∈ d :: xs := by
  rcases List.mem_cons.mp hn with rfl | hn
  · rw [h.next_head, h.prev_head]
    exact ⟨headD_mem _ _, getLastD_mem _ _⟩
  · obtain ⟨ys, zs, rfl⟩ := List.append_of_mem hn
    rw [h.next_mem, h.prev_mem]
    constructor
    · rcases List.mem_cons.mp (headD_mem d zs) with e | hm
      · rw [e]
        exact List.mem_cons_self
      · exact List.mem_cons_of_mem _ (List.mem_append_right _ (List.mem_cons_of_mem _ hm))
    · rcases List.mem_cons.mp (getLastD_mem d ys) with e | hm
      · rw [e]
        exact List.mem_cons_self
      · exact List.mem_cons_of_mem _ (List.mem_append_left _ hm)

/-- the successor of a member points back to it -/
theorem IsRing.prev_next (h : IsRing k d xs) (hn : n ∈ xs) : k.prev (k.next n) = n := by
  obtain ⟨ys, zs, rfl⟩ := List.append_of_mem hn
  have h2 := (isRing_split.mp h).2
  cases zs with
  | nil =>
    have h3 := (List.isChain_cons_cons.mp h2).1
    rw [h3.1]
    exact h3.2
  | cons z zs =>
    have h3 := (List.isChain_cons_cons.mp h2).1
    rw [h3.1]
    exact h3.2

/-- the predecessor of a member, or of the head, points forward to it -/
theorem IsRing.next_prev (h : IsRing k d xs) (hn : n ∈ d :: xs) : k.next (k.prev n) = n := by
  rcases List.mem_cons.mp hn with rfl | hn
  · rw [h.prev_head]
    rcases List.eq_nil_or_concat' xs with rfl | ⟨zs, z, rfl⟩
    · exact (isRing_nil.mp h).1
    · rw [List.getLastD_concat]
      exact h.next_mem
  · obtain ⟨ys, zs, rfl⟩ := List.append_of_mem hn
    have h1 := (isRing_split.mp h).1
    have hlast : (d :: ys).getLast? = some (k.prev n) := by
      rw [h.prev_mem, List.getLast?_cons]
      rcases List.eq_nil_or_concat' ys with rfl | ⟨ws, w, rfl⟩
      · rfl
      · simp
    exact ((List.isChain_append.mp h1).2.2 _ hlast n rfl).1

end

/-! ## linking and unlinking -/

section
variable [DecidableEq A]

/-- link `n` in before the head `d` -/
def Links.push (k : Links A) (d n : A) : Links A where
  next := Function.update (Function.update k.next n d) (k.prev d) n
  prev := Function.update (Function.update k.prev n (k.prev d)) d n

/-- unlink `n` -/
def Links.erase (k : Links A) (n : A) : Links A where
  next := Function.update k.next (k.prev n) (k.next n)
  prev := Function.update k.prev (k.next n) (k.prev n)

/-- unlink the address behind the head `d` -/
def Links.pop (k : Links A) (d : A) : Links A where
  next := Function.update k.next d (k.next (k.next d))
  prev := Function.update k.prev (k.next (k.next d)) d

variable {k : Links A} {d n : A} {xs ys : List A}

theorem IsRing.push (h : IsRing k d xs) (hd : d ∉ xs) (hn : n ∉ d :: xs) :
    IsRing (k.push d n) d (xs ++ [n]) := by
  have hlast : (d :: xs).getLast? = some (k.prev d) := by
    rw [h.prev_head, List.getLast?_cons]
    rcases List.eq_nil_or_concat' xs with rfl | ⟨zs, z, rfl⟩
    · rfl
    · simp
  have hp : k.prev d ∈ d :: xs := List.mem_of_getLast? hlast
  have hnp : n ≠ k.prev d := fun e => hn (e ▸ hp)
  have hnd : n ≠ d := fun e => hn (e ▸ List.mem_cons_self)
  have hsplit := List.isChain_append.mp h
  have hpd : k.next (k.prev d) = d := (hsplit.2.2 _ hlast d rfl).1
  refine isRing_split.mpr ⟨List.isChain_append.mpr ⟨?_, List.isChain_singleton n, ?_⟩, ?_⟩
  · -- inside the old list nothing but the last link is redirected
    refine List.IsChain.imp_of_mem_tail_imp (fun a b ha hb hab => ⟨?_, ?_⟩) hsplit.1
    · show Function.update (Function.update k.next n d) (k.prev d) n a = b
      have h1 : a ≠ k.prev d := by
        intro e
        have h2 : d = b := by rw [← hab.1, e, hpd]
        exact hd (h2 ▸ hb)
      rw [Function.update_of_ne h1, Function.update_of_ne fun (e : a = n) => hn (e ▸ ha)]
      exact hab.1
    · show Function.update (Function.update k.prev n (k.prev d)) d n b = a
      have h1 : b ≠ d := fun e => hd (e ▸ hb)
      have h2 : b ≠ n := fun e => hn (e ▸ List.mem_of_mem_tail hb)
      rw [Function.update_of_ne h1, Function.update_of_ne h2]
      exact hab.2
  · intro a ha b hb
    obtain rfl : k.prev d = a := Option.some.inj (hlast.symm.trans ha)
    obtain rfl : n = b := Option.some.inj hb
    refine ⟨Function.update_self _ _ _, ?_⟩
    show Function.update (Function.update k.prev n (k.prev d)) d n n = _
    rw [Function.update_of_ne hnd, Function.update_self]
  · refine List.isChain_pair.mpr ⟨?_, Function.update_self _ _ _⟩
    show Function.update (Function.update k.next n d) (k.prev d) n n = d
    rw [Function.update_of_ne hnp, Function.update_self]

theorem IsRing.erase (h : IsRing k d (xs ++ n :: ys)) (hx : n ∉ d :: xs) (hy : n ∉ ys) :
    IsRing (k.erase n) d (xs ++ ys) := by
  obtain ⟨h1, h2⟩ := isRing_split.mp h
  obtain ⟨hA, _, hl⟩ := List.isChain_append.mp h1
  obtain ⟨hr, hB⟩ := List.isChain_cons.mp h2
  have hlast : (d :: xs).getLast? = some (k.prev n) := by
    rw [h.prev_mem, List.getLast?_cons]
    rcases List.eq_nil_or_concat' xs with rfl | ⟨zs, z, rfl⟩
    · rfl
    · simp
  have hhead : (ys ++ [d]).head? = some (k.next n) := by
    rw [h.next_mem]
    cases ys <;> rfl
  have hpn : k.next (k.prev n) = n := (hl _ hlast n rfl).1
  have hqn : k.prev (k.next n) = n := (hr _ hhead).2
  have hyd : n ∉ ys ++ [d] := by
    intro hm
    rcases List.mem_append.mp hm with hm | hm
    · exact hy hm
    · exact hx (List.mem_cons.mpr (Or.inl (List.mem_singleton.mp hm)))
  -- a link between two other members is not one of the two that are redirected
  have hkeep : ∀ l : List A, n ∉ l → List.IsChain (Joined k) l → List.IsChain (Joined (k.erase n)) l := by
    intro l hnl hl'
    refine List.IsChain.imp_of_mem_imp (fun a b ha hb hab => ⟨?_, ?_⟩) hl'
    · show Function.update k.next (k.prev n) (k.next n) a = b
      have h3 : a ≠ k.prev n := by
        intro e
        have h4 : n = b := by rw [← hab.1, e, hpn]
        exact hnl (h4 ▸ hb)
      rw [Function.update_of_ne h3]
      exact hab.1
    · show Function.update k.prev (k.next n) (k.prev n) b = a
      have h3 : b ≠ k.next n := by
        intro e
        have h4 : n = a := by rw [← hab.2, e, hqn]
        exact hnl (h4 ▸ ha)
      rw [Function.update_of_ne h3]
      exact hab.2
  have e : (d :: (xs ++ ys)) ++ [d] = (d :: xs) ++ (ys ++ [d]) := by simp
  show List.IsChain _ ((d :: (xs ++ ys)) ++ [d])
  rw [e]
  refine List.isChain_append.mpr ⟨hkeep _ hx hA, hkeep _ hyd hB, fun a ha b hb => ?_⟩
  obtain rfl : k.prev n = a := Option.some.inj (hlast.symm.trans ha)
  obtain rfl : k.next n = b := Option.some.inj (hhead.symm.trans hb)
  exact ⟨Function.update_self _ _ _, Function.update_self _ _ _⟩

/-- unlinking behind the head is unlinking the first member -/
theorem IsRing.pop_eq (h : IsRing k d (n :: ys)) : k.pop d = k.erase n := by
  have h1 : k.next d = n := h.next_head
  have h2 : k.prev n = d := h.prev_first
  rw [Links.pop, Links.erase, h1, h2]

theorem IsRing.pop (h : IsRing k d (n :: ys)) (hx : n ≠ d) (hy : n ∉ ys) : IsRing (k.pop d) d ys := by
  rw [h.pop_eq]
  have h' : IsRing k d ([] ++ n :: ys) := h
  exact h'.erase (fun hm => hx (List.mem_singleton.mp hm)) hy

/-! ## what linking and unlinking leave alone -/

/-- linking in writes the links of the new address, of the head and of the last member -/
theorem push_agree {a : A} (hd : a ≠ d) (hn : a ≠ n) (hl : a ≠ k.prev d) :
    (k.push d n).next a = k.next a ∧ (k.push d n).prev a = k.prev a := by
  refine ⟨?_, ?_⟩
  · show Function.update (Function.update k.next n d) (k.prev d) n a = _
    rw [Function.update_of_ne hl, Function.update_of_ne hn]
  · show Function.update (Function.update k.prev n (k.prev d)) d n a = _
    rw [Function.update_of_ne hd, Function.update_of_ne hn]

/-- unlinking writes the links of the two neighbours -/
theorem erase_agree {a : A} (hp : a ≠ k.prev n) (hn : a ≠ k.next n) :
    (k.erase n).next a = k.next a ∧ (k.erase n).prev a = k.prev a :=
  ⟨Function.update_of_ne hp _ _, Function.update_of_ne hn _ _⟩

/-! ## walking around -/

/-- the addresses met behind `a` until the walk is at `d`, if that takes less than `rounds` steps -/
def walk (f : A → A) (d : A) : (rounds : Nat) → A → Option (List A)
  | 0, _ => none
  | rounds + 1, a => if f a = d then some [] else (walk f d rounds (f a)).map (f a :: ·)

theorem walk_chain {f : A → A} : ∀ {xs : List A} {a : A} {rounds : Nat}, d ∉ xs → xs.length < rounds →
    List.IsChain (fun a b => f a = b) (a :: (xs ++ [d])) → walk f d rounds a = some xs
  | _, _, 0, _, hr, _ => absurd hr (Nat.not_lt_zero _)
  | [], a, rounds + 1, _, _, h => by
    simp only [walk, if_pos (List.isChain_pair.mp h)]
  | x :: xs, a, rounds + 1, hd, hr, h => by
    obtain ⟨h1, h2⟩ := List.isChain_cons_cons.mp h
    have hx : x ≠ d := fun e => hd (e ▸ List.mem_cons_self)
    have hxs : d ∉ xs := fun hm => hd (List.mem_cons_of_mem x hm)
    have ih := walk_chain hxs (Nat.lt_of_succ_lt_succ hr) h2
    simp only [walk, h1, if_neg hx, ih, Option.map_some]

theorem IsRing.forth (h : IsRing k d xs) (hd : d ∉ xs) {rounds : Nat} (hr : xs.length < rounds) :
    walk k.next d rounds d = some xs :=
  walk_chain hd hr (List.IsChain.imp (fun _ _ hab => hab.1) h)

/-- the pointers spell one sequence only -/
theorem IsRing.unique (h : IsRing k d xs) (h' : IsRing k d ys) (hd : d ∉ xs) (hd' : d ∉ ys) : xs = ys := by
  have h1 := h.forth hd (Nat.lt_add_right ys.length (Nat.lt_succ_self xs.length))
  have h2 := h'.forth hd' (Nat.lt_add_left xs.length (Nat.lt_succ_self ys.length))
  have hr : xs.length + 1 + ys.length = xs.length + (ys.length + 1) := by omega
  exact Option.some.inj (h1.symm.trans (hr ▸ h2))

theorem IsRing.back (h : IsRing k d xs) (hd : d ∉ xs) {rounds : Nat} (hr : xs.length < rounds) :
    walk k.prev d rounds d = some xs.reverse := by
  have h1 : List.IsChain (fun a b => k.prev a = b) ((d :: xs) ++ [d]).reverse :=
    List.isChain_reverse.mpr (List.IsChain.imp (fun _ _ hab => hab.2) h)
  apply walk_chain
  · simpa using hd
  · simpa using hr
  · simpa using h1

end

end Ring
