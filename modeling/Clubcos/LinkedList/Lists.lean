import Mathlib.Data.List.Nodup
import Clubcos.LinkedList.Model

/-!
# A family of intrusive lists as a family of sequences

`Lists h act c`: every list `l` with `act l` is well formed and holds exactly the nodes `c l`, in this
order, no node is in two of them and every `size` is right.  Lists outside `act` may be in any state.

* `Lists.init`     an initialized list joins the family, empty;
* `Lists.push`     a node in no list of the family is appended;
* `Lists.erase`    a node is removed from the list it is in;
* `Lists.move`     a node goes from its list to the end of one;
* `Lists.pop_cons`  the first node is erased and returned;
* `Lists.push_other`, `Lists.erase_other`   no other list is touched;
* `Lists.unique`   the sequences are those that the heap spells;
* `pushBack_eq`, `Lists.pop_eq`   the two variants agree when no interrupt comes in between.
-/

set_option linter.unusedVariables false
set_option linter.unusedSectionVars false

namespace Clubcos
open Word Ring

variable {L N : Type} [DecidableEq L] [DecidableEq N]

structure Lists (h : Heap L N) (act : L → Prop) (c : L → List N) : Prop where
  ring : ∀ l, act l → IsRing h.links (.dummy l) ((c l).map .node)
  nodup : ∀ l, act l → (c l).Nodup
  apart : ∀ l l' n, act l → act l' → n ∈ c l → n ∈ c l' → l = l'
  size : ∀ l, act l → h.size l = u32 (c l).length

/-- every field of the list `l` with the nodes `ns` is as it was -/
def Kept (h h' : Heap L N) (l : L) (ns : List N) : Prop :=
  h'.size l = h.size l ∧ ∀ a ∈ Addr.dummy l :: ns.map .node,
    h'.links.next a = h.links.next a ∧ h'.links.prev a = h.links.prev a

/-! ## the operations in terms of rings -/

theorem init_links (h : Heap L N) (l : L) :
    (ckLinkedListInit h l).links = ⟨Function.update h.links.next (.dummy l) (.dummy l),
      Function.update h.links.prev (.dummy l) (.dummy l)⟩ := rfl

theorem init_size (h : Heap L N) (l : L) :
    (ckLinkedListInit h l).size = Function.update h.size l 0 := rfl

theorem init_ring (h : Heap L N) (l : L) : IsRing (ckLinkedListInit h l).links (.dummy l) [] := by
  rw [init_links]
  exact isRing_nil.mpr ⟨Function.update_self _ _ _, Function.update_self _ _ _⟩

theorem push_links (h : Heap L N) (l : L) (n : N) :
    (ckLinkedListPushBack_lockfree h l n).links = h.links.push (.dummy l) (.node n) := rfl

theorem push_size (h : Heap L N) (l : L) (n : N) :
    (ckLinkedListPushBack_lockfree h l n).size = Function.update h.size l (u32 (h.size l + 1)) := rfl

theorem pushBack_eq (h : Heap L N) (l : L) (n : N) :
    ckLinkedListPushBack h l n = ckLinkedListPushBack_lockfree h l n := rfl

theorem erase_links (h : Heap L N) (l : L) (n : N) :
    (ckLinkedListErase h l n).links = h.links.erase (.node n) := rfl

theorem erase_size (h : Heap L N) (l : L) (n : N) :
    (ckLinkedListErase h l n).size = Function.update h.size l (sub32 (h.size l) 1) := rfl

theorem dummy_notMem (l : L) (ns : List N) : (Addr.dummy l : Addr L N) ∉ ns.map .node := by
  intro h
  obtain ⟨n, _, e⟩ := List.mem_map.mp h
  cases e

theorem node_mem {l : L} {n : N} {ns : List N} :
    (Addr.node n : Addr L N) ∈ Addr.dummy l :: ns.map .node ↔ n ∈ ns := by
  rw [List.mem_cons, List.mem_map]
  constructor
  · rintro (e | ⟨m, hm, e⟩)
    · cases e
    · cases e
      exact hm
  · exact fun h => Or.inr ⟨n, h, rfl⟩

theorem dummy_mem {l l' : L} {ns : List N} :
    (Addr.dummy l' : Addr L N) ∈ Addr.dummy l :: ns.map .node ↔ l' = l := by
  rw [List.mem_cons]
  constructor
  · rintro (e | hm)
    · cases e
      rfl
    · exact absurd hm (dummy_notMem l' ns)
  · rintro rfl
    exact Or.inl rfl

theorem init_other (h : Heap L N) {l l' : L} (hne : l' ≠ l) (ns : List N) : Kept h (ckLinkedListInit h l) l' ns := by
  refine ⟨Function.update_of_ne hne _ _, fun a hm => ?_⟩
  have h1 : a ≠ .dummy l := by
    rintro rfl
    exact hne (dummy_mem.mp hm).symm
  exact ⟨Function.update_of_ne h1 _ _, Function.update_of_ne h1 _ _⟩

section
variable {h : Heap L N} {act : L → Prop} {c : L → List N} (hl : Lists h act c)
include hl

/-- a member of one ring is no member of another -/
theorem Lists.members_apart {l l' : L} (ha : act l) (ha' : act l') (hne : l' ≠ l) {a : Addr L N}
    (hm : a ∈ Addr.dummy l :: (c l).map .node) : a ∉ Addr.dummy l' :: (c l').map .node := by
  intro hm'
  cases a with
  | null =>
    rcases List.mem_cons.mp hm with e | hm
    · cases e
    · obtain ⟨_, _, e⟩ := List.mem_map.mp hm
      cases e
  | dummy l0 => exact hne ((dummy_mem.mp hm').symm.trans (dummy_mem.mp hm))
  | node n => exact hne (hl.apart l' l n ha' ha (node_mem.mp hm') (node_mem.mp hm))

theorem Lists.mono {act' : L → Prop} (hs : ∀ l, act' l → act l) : Lists h act' c :=
  ⟨fun l ha => hl.ring l (hs l ha), fun l ha => hl.nodup l (hs l ha),
    fun l l' n ha ha' => hl.apart l l' n (hs l ha) (hs l' ha'), fun l ha => hl.size l (hs l ha)⟩

theorem Lists.congr {c' : L → List N} (e : ∀ l, act l → c l = c' l) : Lists h act c' where
  ring l ha := e l ha ▸ hl.ring l ha
  nodup l ha := e l ha ▸ hl.nodup l ha
  apart l l' n ha ha' hn hn' := hl.apart l l' n ha ha' (e l ha ▸ hn) (e l' ha' ▸ hn')
  size l ha := e l ha ▸ hl.size l ha

/-- one list of the family changes: its new ring and size, and what the rest of the heap keeps -/
theorem Lists.change {h' : Heap L N} {l : L} {ns : List N} (hring : IsRing h'.links (.dummy l) (ns.map .node))
    (hnd : ns.Nodup) (hsize : h'.size l = u32 ns.length)
    (hother : ∀ l', act l' → l' ≠ l → Kept h h' l' (c l'))
    (hnew : ∀ n ∈ ns, ∀ l', act l' → l' ≠ l → n ∉ c l') :
    Lists h' (fun l' => act l' ∨ l' = l) (Function.update c l ns) := by
  have hact : ∀ l', act l' ∨ l' = l → l' ≠ l → act l' := fun l' ha hne => ha.resolve_right hne
  refine ⟨fun l' ha => ?_, fun l' ha => ?_, fun l1 l2 n h1 h2 hn1 hn2 => ?_, fun l' ha => ?_⟩
  · by_cases e : l' = l
    · subst e
      rwa [Function.update_self]
    · rw [Function.update_of_ne e]
      have ho := (hother l' (hact l' ha e) e).2
      exact (hl.ring l' (hact l' ha e)).frame (fun a hm => (ho a hm).1) fun a hm => (ho a hm).2
  · by_cases e : l' = l
    · subst e
      rwa [Function.update_self]
    · rw [Function.update_of_ne e]
      exact hl.nodup l' (hact l' ha e)
  · by_cases e1 : l1 = l
    · by_cases e2 : l2 = l
      · rw [e1, e2]
      · rw [e1, Function.update_self] at hn1
        rw [Function.update_of_ne e2] at hn2
        exact absurd hn2 (hnew n hn1 l2 (hact l2 h2 e2) e2)
    · rw [Function.update_of_ne e1] at hn1
      by_cases e2 : l2 = l
      · rw [e2, Function.update_self] at hn2
        exact absurd hn1 (hnew n hn2 l1 (hact l1 h1 e1) e1)
      · rw [Function.update_of_ne e2] at hn2
        exact hl.apart l1 l2 n (hact l1 h1 e1) (hact l2 h2 e2) hn1 hn2
  · by_cases e : l' = l
    · subst e
      rwa [Function.update_self]
    · rw [Function.update_of_ne e, (hother l' (hact l' ha e) e).1]
      exact hl.size l' (hact l' ha e)

theorem Lists.unique {c' : L → List N} (hl' : Lists h act c') {l : L} (ha : act l) : c l = c' l := by
  have hinj : Function.Injective (Addr.node : N → Addr L N) := fun n m e => by
    cases e
    rfl
  exact hinj.list_map ((hl.ring l ha).unique (hl'.ring l ha) (dummy_notMem l _) (dummy_notMem l _))

/-! ## the operations -/

theorem Lists.init (l : L) :
    Lists (ckLinkedListInit h l) (fun l' => act l' ∨ l' = l) (Function.update c l []) := by
  refine hl.change ?_ List.nodup_nil ?_ ?_ ?_
  · exact init_ring h l
  · rw [init_size]
    exact Function.update_self _ _ _
  · exact fun l' _ hne => init_other h hne (c l')
  · exact fun n hn => absurd hn List.not_mem_nil

theorem Lists.push_other {l l' : L} {n : N} (ha : act l) (ha' : act l') (hne : l' ≠ l) (hn : n ∉ c l') :
    Kept h (ckLinkedListPushBack_lockfree h l n) l' (c l') := by
  refine ⟨Function.update_of_ne hne _ _, fun a hm => ?_⟩
  have hap : a ∉ Addr.dummy l :: (c l).map .node := fun hm' => hl.members_apart ha ha' hne hm' hm
  have hnot : (Addr.node n : Addr L N) ∉ Addr.dummy l' :: (c l').map .node := fun hm => hn (node_mem.mp hm)
  rw [push_links]
  refine push_agree (fun e => hap (e ▸ List.mem_cons_self)) (fun e => hnot (e ▸ hm)) fun e => ?_
  exact hap (e ▸ ((hl.ring l ha).neighbours List.mem_cons_self).2)

theorem Lists.erase_other {l l' : L} {n : N} (ha : act l) (ha' : act l') (hne : l' ≠ l) (hn : n ∈ c l) :
    Kept h (ckLinkedListErase h l n) l' (c l') := by
  refine ⟨Function.update_of_ne hne _ _, fun a hm => ?_⟩
  have hap : a ∉ Addr.dummy l :: (c l).map .node := fun hm' => hl.members_apart ha ha' hne hm' hm
  have hnb := (hl.ring l ha).neighbours (node_mem.mpr hn)
  rw [erase_links]
  exact erase_agree (fun e => hap (e ▸ hnb.2)) fun e => hap (e ▸ hnb.1)

theorem Lists.push {l : L} {n : N} (ha : act l) (hn : ∀ l', act l' → n ∉ c l') :
    Lists (ckLinkedListPushBack_lockfree h l n) act (Function.update c l (c l ++ [n])) := by
  have hnot : (Addr.node n : Addr L N) ∉ Addr.dummy l :: (c l).map .node := fun hm => hn l ha (node_mem.mp hm)
  refine Lists.mono (Lists.change hl ?_ ?_ ?_ ?_ ?_) fun l' h1 => Or.inl h1
  · rw [push_links, List.map_append]
    exact (hl.ring l ha).push (dummy_notMem l _) hnot
  · refine List.Nodup.append (hl.nodup l ha) (List.nodup_singleton n) ?_
    exact List.disjoint_singleton.mpr (hn l ha)
  · rw [push_size, Function.update_self, hl.size l ha, List.length_append]
    exact u32_succ _
  · exact fun l' ha' hne => hl.push_other ha ha' hne (hn l' ha')
  · intro m hm l' ha' hne
    rcases List.mem_append.mp hm with hm | hm
    · exact fun hm' => hne (hl.apart l' l m ha' ha hm' hm)
    · rw [List.mem_singleton.mp hm]
      exact hn l' ha'

theorem Lists.erase {l : L} {n : N} (ha : act l) (hn : n ∈ c l) :
    Lists (ckLinkedListErase h l n) act (Function.update c l ((c l).erase n)) := by
  have hr := hl.ring l ha
  obtain ⟨xs, ys, hx, e, hers⟩ := List.exists_erase_eq hn
  have hnd := hl.nodup l ha
  have hy : n ∉ ys := by
    rw [e] at hnd
    exact (List.nodup_cons.mp (List.nodup_append.mp hnd).2.1).1
  refine Lists.mono (Lists.change hl ?_ ?_ ?_ ?_ ?_) fun l' h1 => Or.inl h1
  · rw [erase_links, hers, List.map_append]
    rw [e, List.map_append, List.map_cons] at hr
    refine hr.erase (fun hm => hx (node_mem.mp hm)) fun hm => ?_
    obtain ⟨m, hm, em⟩ := List.mem_map.mp hm
    cases em
    exact hy hm
  · exact hnd.erase n
  · have hpos := List.length_pos_of_mem hn
    have e1 : (c l).length = ((c l).length - 1) + 1 := by omega
    rw [erase_size, Function.update_self, hl.size l ha, List.length_erase_of_mem hn, e1]
    exact sub32_succ _
  · exact fun l' ha' hne => hl.erase_other ha ha' hne hn
  · intro m hm l' ha' hne hm'
    exact hne (hl.apart l' l m ha' ha hm' (List.mem_of_mem_erase hm))

/-- an erased node is in no list, and the others are where they were -/
theorem Lists.mem_erased {l l' : L} {n : N} (ha : act l) (ha' : act l') (hn : n ∈ c l) (m : N) :
    m ∈ Function.update c l ((c l).erase n) l' ↔ m ≠ n ∧ m ∈ c l' := by
  by_cases e : l' = l
  · rw [e, Function.update_self]
    exact (hl.nodup l ha).mem_erase_iff
  · rw [Function.update_of_ne e]
    refine ⟨fun hm => ⟨?_, hm⟩, fun hm => hm.2⟩
    rintro rfl
    exact e (hl.apart l' l m ha' ha hm hn)

/-- a node goes from its list to the end of another or the same one -/
theorem Lists.move {l k : L} {n : N} (ha : act l) (hk : act k) (hn : n ∈ c l) :
    Lists (ckLinkedListPushBack_lockfree (ckLinkedListErase h l n) k n) act
      (Function.update (Function.update c l ((c l).erase n)) k (Function.update c l ((c l).erase n) k ++ [n])) :=
  (hl.erase ha hn).push hk fun l' ha' hm => ((hl.mem_erased ha ha' hn n).mp hm).1 rfl

theorem Lists.head {l : L} (ha : act l) :
    h.pNext (.dummy l) = ((c l).map Addr.node).headD (.dummy l) := (hl.ring l ha).next_head

theorem Lists.pop_nil {l : L} (ha : act l) (hc : c l = []) :
    ckLinkedListPopFront_lockfree h l = some (.null, h) := by
  have h1 := hl.head ha
  rw [hc] at h1
  exact if_pos h1

/-- the pop of a nonempty list erases its first node -/
theorem Lists.pop_cons {l : L} {n : N} {ns : List N} (ha : act l) (hc : c l = n :: ns) :
    ckLinkedListPopFront_lockfree h l = some (.node n, ckLinkedListErase h l n) := by
  have h1 := hl.head ha
  have hr := hl.ring l ha
  rw [hc] at h1 hr
  have h2 : h.pPrev (h.pNext (.node n)) = .node n := hr.prev_next List.mem_cons_self
  have h3 : h.pPrev (.node n) = .dummy l := hr.prev_first
  show (if h.pNext (.dummy l) = .dummy l then _ else if h.pPrev (h.pNext (h.pNext (.dummy l)))
    = h.pNext (.dummy l) then _ else none) = _
  have h1' : h.pNext (.dummy l) = .node n := h1
  rw [h1', if_neg (fun e => by cases e), if_pos h2, ckLinkedListErase, h3]
  rfl

/-- On a well-formed list the two variants of the pop agree. -/
theorem Lists.pop_eq {l : L} (ha : act l) :
    ckLinkedListPopFront_lockfree h l = some (ckLinkedListPopFront h l) := by
  have h1 := hl.head ha
  cases hc : c l with
  | nil =>
    rw [hc] at h1
    rw [hl.pop_nil ha hc]
    exact congrArg some (if_pos h1).symm
  | cons n ns =>
    rw [hc] at h1
    have h1' : h.pNext (.dummy l) = .node n := h1
    have h2 : h.pPrev (.node n) = .dummy l := (hc ▸ hl.ring l ha).prev_first
    rw [hl.pop_cons ha hc, ckLinkedListPopFront, ckLinkedListErase, h1', h2, if_neg fun e => by cases e]

end

end Clubcos
