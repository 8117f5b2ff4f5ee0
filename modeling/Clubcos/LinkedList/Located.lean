import Mathlib.Data.Fintype.Card
import Clubcos.LinkedList.Lists

/-!
# Which list a node is in

`Located h act f`: every list with `act` is well formed, and a node `n` is in the list `l` exactly if
`f n = some l`.  What is left out is the order of the nodes in the lists.

* `Located.init`, `push`, `erase`, `pop`   the operations, as changes of `f`;
* `Located.spelled`                        the lists written out, with sizes that have not wrapped.
-/

set_option linter.unusedVariables false
set_option linter.unusedSectionVars false

namespace Clubcos
open Word Ring

variable {L N : Type} [DecidableEq L] [DecidableEq N]

def Located (h : Heap L N) (act : L → Prop) (f : N → Option L) : Prop :=
  ∃ c, Lists h act c ∧ ∀ l, act l → ∀ n, n ∈ c l ↔ f n = some l

/-- the list `l` is a ring through the nodes `ns`, each once, and its `size` is their number -/
structure Spelled (h : Heap L N) (l : L) (ns : List N) : Prop where
  ring : IsRing h.links (.dummy l) (ns.map .node)
  nodup : ns.Nodup
  size : h.size l = ns.length

section
variable {h : Heap L N} {act : L → Prop} {f : N → Option L} (hl : Located h act f)
include hl

theorem Located.mono {act' : L → Prop} (hs : ∀ l, act' l → act l) : Located h act' f := by
  obtain ⟨c, hc, hf⟩ := hl
  exact ⟨c, hc.mono hs, fun l ha => hf l (hs l ha)⟩

theorem Located.congr {f' : N → Option L} (hs : ∀ l, act l → ∀ n, f n = some l ↔ f' n = some l) :
    Located h act f' := by
  obtain ⟨c, hc, hf⟩ := hl
  exact ⟨c, hc, fun l ha n => (hf l ha n).trans (hs l ha n)⟩

theorem Located.init {l : L} (hn : ∀ n, f n ≠ some l) :
    Located (ckLinkedListInit h l) (fun l' => act l' ∨ l' = l) f := by
  obtain ⟨c, hc, hf⟩ := hl
  refine ⟨_, hc.init l, fun l' ha n => ?_⟩
  by_cases e : l' = l
  · rw [e, Function.update_self]
    exact ⟨fun h => absurd h List.not_mem_nil, fun h => absurd h (hn n)⟩
  · rw [Function.update_of_ne e]
    exact hf l' (ha.resolve_right e) n

theorem Located.push {l : L} {n : N} (ha : act l) (hn : ∀ l', act l' → f n ≠ some l') :
    Located (ckLinkedListPushBack_lockfree h l n) act (Function.update f n (some l)) := by
  obtain ⟨c, hc, hf⟩ := hl
  refine ⟨_, hc.push ha fun l' ha' hm => hn l' ha' ((hf l' ha' n).mp hm), fun l' ha' m => ?_⟩
  by_cases em : m = n
  · subst em
    rw [Function.update_self]
    by_cases e : l' = l
    · rw [e, Function.update_self]
      exact ⟨fun _ => rfl, fun _ => List.mem_append_right _ (List.mem_singleton.mpr rfl)⟩
    · rw [Function.update_of_ne e, hf l' ha' m]
      exact ⟨fun h => absurd h (hn l' ha'), fun h => absurd (Option.some.inj h).symm e⟩
  · rw [Function.update_of_ne em]
    by_cases e : l' = l
    · rw [e, Function.update_self, List.mem_append, List.mem_singleton, hf l ha m]
      exact ⟨fun h => h.resolve_right em, Or.inl⟩
    · rw [Function.update_of_ne e]
      exact hf l' ha' m

theorem Located.erase {l : L} {n : N} (ha : act l) (hn : f n = some l) :
    Located (ckLinkedListErase h l n) act (Function.update f n none) := by
  obtain ⟨c, hc, hf⟩ := hl
  have hmem := (hf l ha n).mpr hn
  refine ⟨_, hc.erase ha hmem, fun l' ha' m => ?_⟩
  by_cases em : m = n
  · subst em
    rw [Function.update_self]
    exact ⟨fun h => absurd rfl ((hc.mem_erased ha ha' hmem m).mp h).1, fun h => by cases h⟩
  · rw [Function.update_of_ne em, hc.mem_erased ha ha' hmem, and_iff_right em]
    exact hf l' ha' m

/-- a pop returns a node of the list, if there is one -/
theorem Located.pop {l : L} (ha : act l) :
    (∀ n, f n ≠ some l) ∧ ckLinkedListPopFront_lockfree h l = some (.null, h) ∨
      ∃ n, f n = some l ∧ ckLinkedListPopFront_lockfree h l = some (.node n, ckLinkedListErase h l n) := by
  obtain ⟨c, hc, hf⟩ := hl
  cases e : c l with
  | nil =>
    refine Or.inl ⟨fun n hn => ?_, hc.pop_nil ha e⟩
    have := (hf l ha n).mpr hn
    rw [e] at this
    exact absurd this List.not_mem_nil
  | cons n ns => exact Or.inr ⟨n, (hf l ha n).mp (e ▸ List.mem_cons_self), hc.pop_cons ha e⟩

theorem Located.spelled [Fintype N] (hN : Fintype.card N < 2^32) {l : L} (ha : act l) :
    ∃ ns, Spelled h l ns ∧ ∀ n, n ∈ ns ↔ f n = some l := by
  obtain ⟨c, hc, hf⟩ := hl
  have hlen := (hc.nodup l ha).length_le_card
  refine ⟨c l, ⟨hc.ring l ha, hc.nodup l ha, ?_⟩, hf l ha⟩
  rw [hc.size l ha]
  exact u32_of_lt (by omega)

end

/-- a heap in which no list is looked at -/
theorem Located.none (h : Heap L N) (f : N → Option L) : Located h (fun _ => False) f :=
  ⟨fun _ => [], ⟨fun _ ha => ha.elim, fun _ ha => ha.elim, fun _ _ _ ha => ha.elim, fun _ ha => ha.elim⟩,
    fun _ ha => ha.elim⟩

end Clubcos
