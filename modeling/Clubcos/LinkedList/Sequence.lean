import Clubcos.Lib.Machine
import Clubcos.LinkedList.Lists

/-!
# The intrusive lists refine sequences

Any calls of linkedlist.h, one after the other and each in the plain or in the `_lockfree` variant, beside the same
operations on abstract sequences (`none` is a list that has not been initialized).

* `ListOp.exec`       what a call returns and the heap behind it, `none` for a loop without an end;
* `ListOp.Allowed`    a node is pushed that is in no list, and a node is erased from the list it is in;
* `ListOp.spec`       what the call means for the sequences;
* `Models.step`       one call, with what it leaves alone;
* `list_refines`      all of them, from any memory.
-/

set_option linter.unusedVariables false
set_option linter.unusedSectionVars false

namespace Clubcos
open Word Ring Machine

variable {L N : Type} [DecidableEq L] [DecidableEq N]

/-- the functions of linkedlist.h, and those of linkedlist.c -/
inductive Variant where
  | plain
  | lockfree

inductive ListOp (L N : Type) where
  | init (l : L)
  | pushBack (v : Variant) (l : L) (n : N)
  | popFront (v : Variant) (l : L)
  | erase (l : L) (n : N)

/-- `NULL` where the source returns nothing -/
def ListOp.exec (h : Heap L N) : ListOp L N → Option (Addr L N × Heap L N)
  | .init l => some (.null, ckLinkedListInit h l)
  | .pushBack .plain l n => some (.null, ckLinkedListPushBack h l n)
  | .pushBack .lockfree l n => some (.null, ckLinkedListPushBack_lockfree h l n)
  | .popFront .plain l => some (ckLinkedListPopFront h l)
  | .popFront .lockfree l => ckLinkedListPopFront_lockfree h l
  | .erase l n => some (.null, ckLinkedListErase h l n)

/-- the same call, in the plain variant -/
def ListOp.plain : ListOp L N → ListOp L N
  | .pushBack _ l n => .pushBack .plain l n
  | .popFront _ l => .popFront .plain l
  | t => t

/-! ## sequences -/

/-- the nodes of each list that has been initialized -/
abbrev Seqs (L N : Type) : Type := L → Option (List N)

def Seqs.none : Seqs L N := fun _ => .none

def Seqs.get (q : Seqs L N) (l : L) : List N := (q l).getD []

/-- the list that a call is about -/
def ListOp.list : ListOp L N → L
  | .init l => l
  | .pushBack _ l _ => l
  | .popFront _ l => l
  | .erase l _ => l

def ListOp.Allowed (q : Seqs L N) : ListOp L N → Prop
  | .init _ => True
  | .pushBack _ l n => (q l).isSome ∧ ∀ l', n ∉ q.get l'
  | .popFront _ l => (q l).isSome
  | .erase l n => n ∈ q.get l

def ListOp.onList (ns : List N) : ListOp L N → List N
  | .init _ => []
  | .pushBack _ _ n => ns ++ [n]
  | .popFront _ _ => ns.tail
  | .erase _ n => ns.erase n

def ListOp.result (ns : List N) : ListOp L N → Option N
  | .popFront _ _ => ns.head?
  | _ => none

/-- the sequences behind the call -/
def ListOp.apply (q : Seqs L N) (t : ListOp L N) : Seqs L N :=
  Function.update q t.list (some (t.onList (q.get t.list)))

def ListOp.spec (q : Seqs L N) (t : ListOp L N) : Option N × Seqs L N := (t.result (q.get t.list), t.apply q)

def ListOp.Accepted (ts : List (ListOp L N)) : Prop := Permitted ListOp.spec (fun q t => t.Allowed q) Seqs.none ts

/-- the pointer that is returned for a node -/
def toAddr (r : Option N) : Addr L N := r.elim .null .node

/-! ## one call -/

/-- the lists of the heap are the sequences -/
def Models (h : Heap L N) (q : Seqs L N) : Prop := Lists h (fun l => (q l).isSome) q.get

theorem models_none (h : Heap L N) : Models h Seqs.none :=
  ⟨fun l ha => absurd ha Bool.false_ne_true, fun l ha => absurd ha Bool.false_ne_true,
    fun l l' n ha => absurd ha Bool.false_ne_true, fun l ha => absurd ha Bool.false_ne_true⟩

theorem get_update (q : Seqs L N) (l : L) (ns : List N) :
    Seqs.get (Function.update q l (some ns)) = Function.update q.get l ns := by
  funext l'
  by_cases e : l' = l
  · subst e
    simp only [Seqs.get, Function.update_self, Option.getD_some]
  · simp only [Seqs.get, Function.update_of_ne e]

theorem isSome_update (q : Seqs L N) (l : L) (ns : List N) (l' : L) :
    (Function.update q l (some ns) l').isSome ↔ (q l').isSome ∨ l' = l := by
  by_cases e : l' = l
  · subst e
    simp only [Function.update_self, Option.isSome_some, or_true]
  · simp only [Function.update_of_ne e, e, or_false]

/-- the family after a call, of the lists that were initialized or just are -/
theorem models_update {h : Heap L N} {q : Seqs L N} {l : L} {ns : List N}
    (hl : Lists h (fun l' => (q l').isSome ∨ l' = l) (Function.update q.get l ns)) :
    Models h (Function.update q l (some ns)) := by
  rw [Models, get_update]
  exact hl.mono fun l' ha => (isSome_update q l ns l').mp ha

/-- an initialized list stays one of the family -/
theorem models_keep {h : Heap L N} {q : Seqs L N} {l : L} {ns : List N} (ha : (q l).isSome)
    (hl : Lists h (fun l' => (q l').isSome) (Function.update q.get l ns)) :
    Models h (Function.update q l (some ns)) :=
  models_update (hl.mono fun l' ha' => ha'.elim id fun e => e ▸ ha)

theorem eq_some_get {q : Seqs L N} {l : L} (ha : (q l).isSome) : q l = some (q.get l) := by
  obtain ⟨ns, e⟩ := Option.isSome_iff_exists.mp ha
  rw [Seqs.get, e, Option.getD_some]

theorem get_of_eq {q : Seqs L N} {l : L} {ns : List N} (e : q l = some ns) : q.get l = ns := by
  rw [Seqs.get, e, Option.getD_some]

theorem isSome_of_mem {q : Seqs L N} {l : L} {n : N} (hn : n ∈ q.get l) : (q l).isSome := by
  cases e : q l with
  | none =>
    rw [Seqs.get, e] at hn
    exact absurd hn List.not_mem_nil
  | some ns => rfl

section
variable {h : Heap L N} {q : Seqs L N} (hm : Models h q)
include hm

/-- the variants of a call do the same -/
theorem Models.exec_plain {t : ListOp L N} (ha : t.Allowed q) : t.plain.exec h = t.exec h := by
  cases t with
  | init l => rfl
  | erase l n => rfl
  | pushBack v l n =>
    cases v with
    | plain => rfl
    | lockfree => exact congrArg (fun h' => some (Addr.null, h')) (pushBack_eq h l n)
  | popFront v l =>
    cases v with
    | plain => rfl
    | lockfree => exact (Lists.pop_eq hm ha).symm

theorem Models.erase {l : L} {n : N} (hn : n ∈ q.get l) :
    Models (ckLinkedListErase h l n) (Function.update q l (some ((q.get l).erase n))) ∧
    ∀ l' ns, l' ≠ l → q l' = some ns → Kept h (ckLinkedListErase h l n) l' ns := by
  have ha := isSome_of_mem hn
  refine ⟨models_keep ha (Lists.erase hm ha hn), fun l' ns hne e => ?_⟩
  exact get_of_eq e ▸ Lists.erase_other hm ha (e ▸ rfl) hne hn

/-- what a call returns, the sequences behind it and that no other list is touched -/
theorem Models.step {t : ListOp L N} (ha : t.Allowed q) :
    ∃ h', t.exec h = some (toAddr (t.result (q.get t.list)), h') ∧ Models h' (t.apply q) ∧
      ∀ l' ns, l' ≠ t.list → q l' = some ns → Kept h h' l' ns := by
  rw [← hm.exec_plain ha]
  cases t with
  | init l =>
    refine ⟨_, rfl, models_update (Lists.init hm l), ?_⟩
    intro l' ns hne _
    exact init_other h hne ns
  | pushBack v l n =>
    refine ⟨_, rfl, models_keep ha.1 (Lists.push hm ha.1 fun l' _ => ha.2 l'), ?_⟩
    intro l' ns hne e
    exact get_of_eq e ▸ Lists.push_other hm ha.1 (e ▸ rfl) hne (ha.2 l')
  | erase l n =>
    exact ⟨_, rfl, hm.erase ha⟩
  | popFront v l =>
    have hpop := Lists.pop_eq hm ha
    cases hc : q.get l with
    | nil =>
      rw [Lists.pop_nil hm ha hc] at hpop
      refine ⟨h, hpop.symm.trans ?_, ?_, ?_⟩
      · rw [ListOp.list, hc]
        rfl
      · -- the sequence stays empty
        have h1 : (ListOp.popFront v l).apply q = q := by
          rw [ListOp.apply, ListOp.list, hc]
          exact Function.update_eq_self_iff.mpr ((eq_some_get ha).trans (congrArg some hc)).symm
        rw [h1]
        exact hm
      · exact fun l' ns _ _ => ⟨rfl, fun a _ => ⟨rfl, rfl⟩⟩
    | cons n ns =>
      have hn : n ∈ q.get l := hc ▸ List.mem_cons_self
      rw [Lists.pop_cons hm ha hc] at hpop
      refine ⟨_, hpop.symm.trans ?_, ?_, (hm.erase hn).2⟩
      · rw [ListOp.list, hc]
        rfl
      · have h1 : (ListOp.popFront v l).apply q = Function.update q l (some ((q.get l).erase n)) := by
          rw [ListOp.apply, ListOp.list, hc, List.erase_cons_head]
          rfl
        rw [h1]
        exact (hm.erase hn).1

end

/-! ## a run -/

theorem models_step (h : Heap L N) (q : Seqs L N) (t : ListOp L N) (hm : Models h q) (ha : t.Allowed q) :
    ∃ h', t.exec h = some (toAddr (t.spec q).1, h') ∧ Models h' (t.spec q).2 := by
  obtain ⟨h', hexec, hm', _⟩ := hm.step ha
  exact ⟨h', hexec, hm'⟩

theorem plain_spec (q : Seqs L N) (t : ListOp L N) : t.plain.spec q = t.spec q := by cases t <;> rfl

theorem plain_allowed {q : Seqs L N} {t : ListOp L N} : t.plain.Allowed q ↔ t.Allowed q := by cases t <;> exact Iff.rfl

theorem plain_permitted {q : Seqs L N} {ts : List (ListOp L N)} :
    Permitted ListOp.spec (fun q t => t.Allowed q) q (ts.map ListOp.plain) ↔
    Permitted ListOp.spec (fun q t => t.Allowed q) q ts := by
  induction ts generalizing q with
  | nil => exact Iff.rfl
  | cons t ts ih =>
    simp only [List.map_cons, Permitted, plain_allowed, plain_spec, ih]

/-- replacing calls by their counterparts changes nothing -/
theorem run_plain (h : Heap L N) {ts : List (ListOp L N)} (ha : ListOp.Accepted ts) :
    run ListOp.exec h (ts.map ListOp.plain) = run ListOp.exec h ts :=
  run_congr models_step (fun _ _ _ hm hallowed => hm.exec_plain hallowed) (models_none h) ha

/-- **The lists are the sequences, in both variants.**  Whatever the memory was before, allowed calls return what the
operations on the sequences return; behind them every initialized list is walked in both directions from its dummy and
back, and holds its size; the next call touches no other list; and the other variant of any call gives the same. -/
theorem list_refines (h : Heap L N) (ts : List (ListOp L N)) (ha : ListOp.Accepted ts) :
    ∃ h', run ListOp.exec h ts = some ((answers ListOp.spec Seqs.none ts).map toAddr, h') ∧
      (∀ l ns, final ListOp.spec Seqs.none ts l = some ns →
        (∀ rounds, ns.length < rounds →
          walk h'.pNext (.dummy l) rounds (.dummy l) = some (ns.map .node) ∧
          walk h'.pPrev (.dummy l) rounds (.dummy l) = some (ns.map .node).reverse) ∧
        h'.size l = u32 ns.length ∧ (ns.length < 2^32 → h'.size l = ns.length)) ∧
      (∀ t : ListOp L N, t.Allowed (final ListOp.spec Seqs.none ts) → ∃ r h'', t.exec h' = some (r, h'') ∧
        ∀ l ns, l ≠ t.list → final ListOp.spec Seqs.none ts l = some ns → Kept h' h'' l ns) ∧
      ∀ ts', ts'.map ListOp.plain = ts.map ListOp.plain → run ListOp.exec h ts' = run ListOp.exec h ts := by
  obtain ⟨h', hexec, hm⟩ := run_refines models_step (models_none h) ha
  refine ⟨h', hexec, fun l ns e => ?_, fun t hallowed => ?_, fun ts' e => ?_⟩
  · have hsome : (final ListOp.spec Seqs.none ts l).isSome := e ▸ rfl
    have hget := get_of_eq e
    have hr := hget ▸ hm.ring l hsome
    have hsize := hget ▸ hm.size l hsome
    refine ⟨fun rounds hlt => ?_, hsize, fun hlt => hsize.trans (u32_of_lt hlt)⟩
    have hlen : (ns.map (Addr.node : N → Addr L N)).length < rounds := by simpa using hlt
    exact ⟨hr.forth (dummy_notMem l ns) hlen, hr.back (dummy_notMem l ns) hlen⟩
  · obtain ⟨h'', hstep, _, hkept⟩ := hm.step hallowed
    exact ⟨_, h'', hstep, hkept⟩
  · have ha' : ListOp.Accepted ts' := by
      rw [ListOp.Accepted, ← plain_permitted, e, plain_permitted]
      exact ha
    rw [← run_plain h ha', e, run_plain h ha]

/-- two lists, a node that moves from one to the other, and the first node erased by a pop -/
def swapRun : List (ListOp Bool Nat) :=
  [.init true, .init false, .pushBack .plain true 7, .pushBack .lockfree true 8, .erase true 8, .pushBack .plain false 8,
    .popFront .lockfree true, .popFront .plain true]

theorem list_refines_swapRun : ListOp.Accepted swapRun ∧
    ∃ h', run ListOp.exec Heap.zero swapRun = some ((answers ListOp.spec Seqs.none swapRun).map toAddr, h') ∧
      walk h'.pNext (.dummy false) 2 (.dummy false) = some [.node 8] := by
  have ha : ListOp.Accepted swapRun := by
    simp [swapRun, ListOp.Accepted, Permitted, ListOp.Allowed, ListOp.spec, ListOp.apply, ListOp.onList, ListOp.list,
      Seqs.none, Seqs.get, Function.update]
  obtain ⟨h', hexec, hlists, _⟩ := list_refines Heap.zero swapRun ha
  exact ⟨ha, h', hexec, ((hlists false [8] rfl).1 2 (by decide)).1⟩

end Clubcos
