import Clubcos.LinkedList.Lists

/-!
# One consumer and an interrupting producer

The consumer runs `ckLinkedListPopFront_lockfree` over and over, every read of a link field, every
compare-and-swap and the update of `size` being a step of its own.  Between any two of its steps the
producer, an interrupt handler, may run a whole `ckLinkedListPushBack_lockfree`.

* `Spsc`, `popStep`, `pushStep`   the states and the steps;
* `SpscRun ok`                    the runs whose pushes all happen in a state with `ok`;
* `spsc_lossless`                 no node is lost as long as no push falls between the two
                                  compare-and-swaps of a pop that takes out the only node;
* `window_push_lost`              a push at that point is lost.
-/

set_option linter.unusedVariables false
set_option linter.unusedSectionVars false

namespace Clubcos
open Word Ring

variable {N : Type} [DecidableEq N]

/-- where the consumer stands in `ckLinkedListPopFront_lockfree`, with the local variables in use -/
inductive PopPc (N : Type) where
  /-- between two calls -/
  | idle
  /-- about to read `ptr->pNext` -/
  | loop (ptr : Addr Unit N)
  /-- about to swap `next->pPrev` -/
  | swing (ptr next : Addr Unit N)
  /-- about to read `dummy->pNext` -/
  | swung (ptr next : Addr Unit N)
  /-- about to swap `dummy->pNext` -/
  | relink (ptr next dnext : Addr Unit N)
  /-- about to decrement `size` -/
  | discount (ptr : Addr Unit N)
deriving DecidableEq

/-- the list, the consumer, the nodes pushed so far and the nodes returned so far -/
structure Spsc (N : Type) where
  heap : Heap Unit N
  pc : PopPc N
  pushed : List N
  popped : List (Addr Unit N)

def Spsc.init (h : Heap Unit N) : Spsc N := ⟨ckLinkedListInit h (), .idle, [], []⟩

/-- one step of the consumer -/
def popStep (s : Spsc N) : Spsc N :=
  match s.pc with
  | .idle =>
    let ptr := s.heap.pNext (.dummy ())
    if ptr = .dummy () then s else { s with pc := .loop ptr }
  | .loop ptr => { s with pc := .swing ptr (s.heap.pNext ptr) }
  | .swing ptr next =>
    if s.heap.pPrev next = ptr then
      { s with heap := s.heap.setPrev next (.dummy ()), pc := .swung ptr next }
    else { s with pc := .loop ptr }
  | .swung ptr next => { s with pc := .relink ptr next (s.heap.pNext (.dummy ())) }
  | .relink ptr next dnext =>
    if s.heap.pNext (.dummy ()) = dnext then
      { s with heap := s.heap.setNext (.dummy ()) next, pc := .discount ptr }
    else { s with pc := .discount ptr }
  | .discount ptr =>
    { s with
      heap := s.heap.setSize () (sub32 (s.heap.size ()) 1), pc := .idle, popped := s.popped ++ [ptr] }

/-- the producer pushes `n` -/
def pushStep (s : Spsc N) (n : N) : Spsc N :=
  { s with heap := ckLinkedListPushBack_lockfree s.heap () n, pushed := s.pushed ++ [n] }

/-- the nodes pushed and not yet returned -/
def Spsc.pending (s : Spsc N) : List N := s.pushed.drop s.popped.length

/-- The runs in which every push is one of a node that is not pending, in a state with `ok`. -/
inductive SpscRun (ok : Spsc N → Prop) : Spsc N → Prop
  | init (h) : SpscRun ok (.init h)
  | pop {s} : SpscRun ok s → SpscRun ok (popStep s)
  | push {s} (n) : SpscRun ok s → n ∉ s.pending → ok s → SpscRun ok (pushStep s n)

/-- following `pNext` from the dummy visits `xs` and returns to the dummy -/
def Follows (h : Heap Unit N) (xs : List (Addr Unit N)) : Prop :=
  List.IsChain (fun a b => h.pNext a = b) ((Addr.dummy () :: xs) ++ [Addr.dummy ()])

/-- Nothing is lost: the nodes returned, the one that the running pop has already taken out and the
nodes reachable are the nodes pushed, and between calls `size` is the number of nodes reachable. -/
def Lossless (s : Spsc N) : Prop :=
  ∃ held reach, Follows s.heap reach ∧ s.popped ++ held ++ reach = s.pushed.map .node ∧
    (held = [] ∨ ∃ ptr, held = [ptr] ∧
      ((∃ next dnext, s.pc = .relink ptr next dnext) ∨ s.pc = .discount ptr)) ∧
    (s.pc = .idle → s.heap.size () = u32 reach.length)

/-- the consumer is not between its first compare-and-swap, with no node behind the one it takes out,
and the read of `dummy->pNext` -/
def Quiet (s : Spsc N) : Prop := ∀ ptr, s.pc ≠ .swung ptr (.dummy ())

instance (s : Spsc N) : Decidable (Quiet s) :=
  match h : s.pc with
  | .swung ptr (.dummy ()) => .isFalse fun hq => hq ptr h
  | .swung ptr .null => .isTrue fun p e => by rw [h] at e; cases e
  | .swung ptr (.node n) => .isTrue fun p e => by rw [h] at e; cases e
  | .idle => .isTrue fun p e => by rw [h] at e; cases e
  | .loop _ => .isTrue fun p e => by rw [h] at e; cases e
  | .swing _ _ => .isTrue fun p e => by rw [h] at e; cases e
  | .relink _ _ _ => .isTrue fun p e => by rw [h] at e; cases e
  | .discount _ => .isTrue fun p e => by rw [h] at e; cases e

/-! ## the invariant -/

abbrev listDummy : Addr Unit N := .dummy ()

/-- the links with the head already past the node that is taken out -/
def past (k : Links (Addr Unit N)) (next : Addr Unit N) : Links (Addr Unit N) :=
  { k with next := Function.update k.next listDummy next }

/-- the node `x` is out of the ring of `rest` but for the link of the head to it -/
def HalfOut (k : Links (Addr Unit N)) (x : N) (next : Addr Unit N) (rest : List N) : Prop :=
  k.next listDummy = .node x ∧ k.next (.node x) = next ∧ next = (rest.map Addr.node).headD listDummy ∧
    IsRing (past k next) listDummy (rest.map .node)

/-- what the links look like when the consumer stands at `pc` and `pend` are pending -/
def Shape (k : Links (Addr Unit N)) (pc : PopPc N) (pend : List N) : Prop :=
  match pc with
  | .idle => IsRing k listDummy (pend.map .node)
  | .loop ptr => IsRing k listDummy (pend.map .node) ∧ ∃ x rest, pend = x :: rest ∧ ptr = .node x
  | .swing ptr next => IsRing k listDummy (pend.map .node) ∧
      next ∈ listDummy :: pend.map .node ∧ ∃ x rest, pend = x :: rest ∧ ptr = .node x
  | .swung ptr next => ∃ x rest, pend = x :: rest ∧ ptr = .node x ∧ HalfOut k x next rest
  | .relink ptr next dnext => ∃ x rest, pend = x :: rest ∧ ptr = .node x ∧ dnext = .node x ∧
      (HalfOut k x next rest ∨ IsRing k listDummy (rest.map .node))
  | .discount ptr => ∃ x rest, pend = x :: rest ∧ ptr = .node x ∧ IsRing k listDummy (rest.map .node)

structure SpscInv (s : Spsc N) (out pend : List N) : Prop where
  pushed : s.pushed = out ++ pend
  popped : s.popped = out.map .node
  nodup : pend.Nodup
  size : s.heap.size () = u32 pend.length
  shape : Shape s.heap.links s.pc pend

theorem SpscInv.pending {s : Spsc N} {out pend : List N} (h : SpscInv s out pend) :
    s.pending = pend := by
  rw [Spsc.pending, h.pushed, h.popped, List.length_map, List.drop_left]

theorem node_notMem {x : N} {ns : List N} (h : x ∉ ns) : (Addr.node x : Addr Unit N) ∉ ns.map .node :=
  fun hm => h (node_mem.mp (List.mem_cons_of_mem (Addr.dummy ()) hm))

/-- the address behind the head of a ring that `x` is not in is not `x` -/
theorem head_ne {k : Links (Addr Unit N)} {x : N} {rest : List N}
    (h : IsRing k listDummy (rest.map .node)) (hx : x ∉ rest) : k.next listDummy ≠ .node x := by
  rw [h.next_head]
  intro e
  have hm := headD_mem listDummy (rest.map (Addr.node (L := Unit)))
  rw [e] at hm
  exact hx (node_mem.mp hm)

/-! ## one step of the consumer -/

/-- **The consumer** keeps the invariant; the last step of a call hands the first pending node over. -/
theorem SpscInv.pop {s : Spsc N} {out pend : List N} (h : SpscInv s out pend) :
    ∃ out' pend', SpscInv (popStep s) out' pend' := by
  obtain ⟨heap, pc, pushed, popped⟩ := s
  obtain ⟨h1, h2, h3, h4, h5⟩ := h
  cases pc with
  | idle =>
    refine ⟨out, pend, ?_⟩
    show SpscInv (if heap.pNext listDummy = listDummy then _ else _) out pend
    by_cases e : heap.pNext listDummy = listDummy
    · rw [if_pos e]
      exact ⟨h1, h2, h3, h4, h5⟩
    · rw [if_neg e]
      refine ⟨h1, h2, h3, h4, h5, ?_⟩
      cases pend with
      | nil => exact absurd (isRing_nil.mp h5).1 e
      | cons x rest => exact ⟨x, rest, rfl, IsRing.next_head h5⟩
  | loop ptr =>
    obtain ⟨hr, x, rest, rfl, rfl⟩ := h5
    exact ⟨out, x :: rest, h1, h2, h3, h4, hr, (hr.neighbours (node_mem.mpr List.mem_cons_self)).1,
      x, rest, rfl, rfl⟩
  | swing ptr next =>
    obtain ⟨hr, hm, x, rest, rfl, rfl⟩ := h5
    refine ⟨out, x :: rest, ?_⟩
    show SpscInv (if heap.pPrev next = .node x then _ else _) out (x :: rest)
    by_cases e : heap.pPrev next = .node x
    · rw [if_pos e]
      have hnext : heap.links.next (.node x) = next := by
        have h6 := hr.next_prev hm
        rwa [show heap.links.prev next = .node x from e] at h6
      have hd : heap.links.next listDummy = .node x := hr.next_head
      refine ⟨h1, h2, h3, h4, x, rest, rfl, rfl, hd, hnext, ?_, ?_⟩
      · rw [← hnext]
        exact IsRing.next_mem (show IsRing _ _ ([] ++ Addr.node x :: rest.map .node) from hr)
      · have hpop := IsRing.pop (show IsRing _ _ (Addr.node x :: rest.map .node) from hr)
          (fun e => by cases e) (node_notMem (List.nodup_cons.mp h3).1)
        have e2 : heap.links.pop listDummy = past (heap.setPrev next listDummy).links next := by
          rw [Links.pop, hd, hnext]
          rfl
        rwa [e2] at hpop
    · rw [if_neg e]
      exact ⟨h1, h2, h3, h4, hr, x, rest, rfl, rfl⟩
  | swung ptr next =>
    obtain ⟨x, rest, rfl, rfl, hh⟩ := h5
    exact ⟨out, x :: rest, h1, h2, h3, h4, x, rest, rfl, rfl, hh.1, Or.inl hh⟩
  | relink ptr next dnext =>
    obtain ⟨x, rest, rfl, rfl, rfl, hh⟩ := h5
    refine ⟨out, x :: rest, ?_⟩
    show SpscInv (if heap.pNext listDummy = .node x then _ else _) out (x :: rest)
    have hx := (List.nodup_cons.mp h3).1
    rcases hh with hh | hr
    · have e : heap.pNext listDummy = .node x := hh.1
      rw [if_pos e]
      exact ⟨h1, h2, h3, h4, x, rest, rfl, rfl, hh.2.2.2⟩
    · -- a push has linked a node in at the head: the swap fails, as it should
      have e : ¬ heap.pNext listDummy = .node x := head_ne hr hx
      rw [if_neg e]
      exact ⟨h1, h2, h3, h4, x, rest, rfl, rfl, hr⟩
  | discount ptr =>
    obtain ⟨x, rest, rfl, rfl, hr⟩ := h5
    have hshape : Shape (heap.setSize () (sub32 (heap.size ()) 1)).links .idle rest := by
      rw [Heap.setSize_links]
      exact hr
    refine ⟨out ++ [x], rest, ?_, ?_, (List.nodup_cons.mp h3).2, ?_, hshape⟩
    · show pushed = _
      rw [show pushed = _ from h1, List.append_assoc]
      rfl
    · show popped ++ [Addr.node x] = _
      rw [show popped = _ from h2, List.map_append]
      rfl
    · show Function.update heap.size () (sub32 (heap.size ()) 1) () = _
      rw [Function.update_self, show heap.size () = _ from h4, List.length_cons]
      exact sub32_succ _

/-! ## a push -/

/-- a push behind a nonempty rest does not see that the head is not yet past `x` -/
theorem HalfOut.push {k : Links (Addr Unit N)} {x n : N} {next : Addr Unit N} {rest : List N}
    (h : HalfOut k x next rest) (hne : rest ≠ []) (hx : x ∉ rest) (hn : n ∉ rest) (hxn : n ≠ x) :
    HalfOut (k.push listDummy (.node n)) x next (rest ++ [n]) := by
  obtain ⟨h1, h2, h3, h4⟩ := h
  have hprev : k.prev listDummy = (rest.map Addr.node).getLastD listDummy := h4.prev_head
  have hlast : ∃ l ∈ rest, k.prev listDummy = .node l := by
    rcases List.eq_nil_or_concat' rest with e | ⟨ys, y, rfl⟩
    · exact absurd e hne
    · refine ⟨y, List.mem_append_right _ (List.mem_singleton.mpr rfl), ?_⟩
      rw [hprev, List.map_append, List.map_singleton, List.getLastD_concat]
  obtain ⟨l, hl, el⟩ := hlast
  have hkeep : ∀ a : Addr Unit N, a ≠ .node l → a ≠ .node n →
      (k.push listDummy (.node n)).next a = k.next a := by
    intro a ha ha'
    show Function.update (Function.update k.next (.node n) listDummy) (k.prev listDummy) (.node n) a = _
    rw [el, Function.update_of_ne ha, Function.update_of_ne ha']
  refine ⟨?_, ?_, ?_, ?_⟩
  · rw [hkeep _ (fun e => by cases e) (fun e => by cases e)]
    exact h1
  · rw [hkeep _ (fun e => hx (by cases e; exact hl)) (fun e => hxn (by cases e; rfl))]
    exact h2
  · cases rest with
    | nil => exact absurd rfl hne
    | cons y ys => exact h3
  · have hpush := h4.push (dummy_notMem () rest) (n := Addr.node n) fun hm => hn (node_mem.mp hm)
    have e : past (k.push listDummy (.node n)) next = (past k next).push listDummy (.node n) := by
      unfold past Links.push
      rw [el, Function.update_comm (show (Addr.node l : Addr Unit N) ≠ listDummy from fun e => by cases e),
        Function.update_comm (show (Addr.node n : Addr Unit N) ≠ listDummy from fun e => by cases e)]
    rw [e, List.map_append]
    exact hpush

/-- a push while nothing is behind `x` links the new node in at the head -/
theorem HalfOut.push_nil {k : Links (Addr Unit N)} {x n : N} {next : Addr Unit N}
    (h : HalfOut k x next []) : IsRing (k.push listDummy (.node n)) listDummy [.node n] := by
  have hr := h.2.2.2
  have hprev : k.prev listDummy = listDummy := (isRing_nil.mp hr).2
  have hpush := IsRing.push (n := Addr.node n) hr List.not_mem_nil fun hm => by
    cases List.mem_singleton.mp hm
  have e : (past k next).push listDummy (.node n) = k.push listDummy (.node n) := by
    unfold past Links.push
    rw [hprev, Function.update_comm (show listDummy ≠ (Addr.node n : Addr Unit N) from fun e => by cases e),
      Function.update_idem]
  rwa [e] at hpush

/-- **The producer** keeps the invariant, unless it runs in the window. -/
theorem SpscInv.push {s : Spsc N} {out pend : List N} (h : SpscInv s out pend) {n : N}
    (hn : n ∉ pend) (hq : Quiet s) : SpscInv (pushStep s n) out (pend ++ [n]) := by
  obtain ⟨heap, pc, pushed, popped⟩ := s
  obtain ⟨h1, h2, h3, h4, h5⟩ := h
  have hring : ∀ ns : List N, n ∉ ns → IsRing heap.links listDummy (ns.map .node) →
      IsRing (heap.links.push listDummy (.node n)) listDummy ((ns ++ [n]).map .node) := by
    intro ns hns hr
    rw [List.map_append]
    exact hr.push (dummy_notMem () ns) fun hm => hns (node_mem.mp hm)
  refine ⟨?_, h2, ?_, ?_, ?_⟩
  · show pushed ++ [n] = _
    rw [show pushed = _ from h1, List.append_assoc]
  · exact List.Nodup.append h3 (List.nodup_singleton n) (List.disjoint_singleton.mpr hn)
  · show Function.update heap.size () (u32 (heap.size () + 1)) () = _
    rw [Function.update_self, show heap.size () = _ from h4, List.length_append]
    exact u32_succ _
  · show Shape (heap.links.push listDummy (.node n)) pc (pend ++ [n])
    cases pc with
    | idle => exact hring pend hn h5
    | loop ptr =>
      obtain ⟨hr, x, rest, rfl, rfl⟩ := h5
      exact ⟨hring _ hn hr, x, rest ++ [n], rfl, rfl⟩
    | swing ptr next =>
      obtain ⟨hr, hm, x, rest, rfl, rfl⟩ := h5
      refine ⟨hring _ hn hr, ?_, x, rest ++ [n], rfl, rfl⟩
      rw [List.map_append]
      rcases List.mem_cons.mp hm with e | hm
      · exact List.mem_cons.mpr (Or.inl e)
      · exact List.mem_cons_of_mem _ (List.mem_append_left _ hm)
    | swung ptr next =>
      obtain ⟨x, rest, rfl, rfl, hh⟩ := h5
      have hne : rest ≠ [] := by
        rintro rfl
        exact hq (.node x) (by rw [hh.2.2.1]; rfl)
      exact ⟨x, rest ++ [n], rfl, rfl, hh.push hne (List.nodup_cons.mp h3).1
        (fun hm => hn (List.mem_cons_of_mem _ hm)) fun e => hn (e ▸ List.mem_cons_self)⟩
    | relink ptr next dnext =>
      obtain ⟨x, rest, rfl, rfl, rfl, hh⟩ := h5
      have hnr : n ∉ rest := fun hm => hn (List.mem_cons_of_mem _ hm)
      refine ⟨x, rest ++ [n], rfl, rfl, rfl, ?_⟩
      rcases hh with hh | hr
      · by_cases hne : rest = []
        · subst hne
          exact Or.inr hh.push_nil
        · exact Or.inl (hh.push hne (List.nodup_cons.mp h3).1 hnr fun e =>
            hn (e ▸ List.mem_cons_self))
      · exact Or.inr (hring rest hnr hr)
    | discount ptr =>
      obtain ⟨x, rest, rfl, rfl, hr⟩ := h5
      exact ⟨x, rest ++ [n], rfl, rfl, hring rest (fun hm => hn (List.mem_cons_of_mem _ hm)) hr⟩

/-! ## whole runs -/

/-- **Every run whose pushes keep out of the window** keeps the invariant. -/
theorem SpscRun.inv {s : Spsc N} (h : SpscRun Quiet s) : ∃ out pend, SpscInv s out pend := by
  induction h with
  | init h =>
    refine ⟨[], [], rfl, rfl, List.nodup_nil, ?_, init_ring h ()⟩
    show Function.update h.size () 0 () = _
    rw [Function.update_self]
    rfl
  | pop _ ih =>
    obtain ⟨out, pend, hinv⟩ := ih
    exact hinv.pop
  | push n _ hn hq ih =>
    obtain ⟨out, pend, hinv⟩ := ih
    exact ⟨out, pend ++ [n], hinv.push (hinv.pending ▸ hn) hq⟩

theorem follows_of_ring {h : Heap Unit N} {xs : List (Addr Unit N)} (hr : IsRing h.links listDummy xs) :
    Follows h xs := List.IsChain.imp (fun _ _ hab => hab.1) hr

theorem HalfOut.follows {h : Heap Unit N} {x : N} {next : Addr Unit N} {rest : List N}
    (hh : HalfOut h.links x next rest) : Follows h ((x :: rest).map .node) := by
  obtain ⟨h1, h2, h3, h4⟩ := hh
  -- behind `x` the links are those of the ring of `rest`
  have htail : List.IsChain (fun a b => h.pNext a = b) (rest.map Addr.node ++ [listDummy]) := by
    have h5 := (List.isChain_cons.mp (show List.IsChain _ (listDummy :: (rest.map .node ++ [_])) from h4)).2
    obtain ⟨h6, h7, h8⟩ := List.isChain_append.mp h5
    have hedge : ∀ a ∈ rest.map Addr.node, ∀ b, Joined (past h.links next) a b → h.pNext a = b := by
      intro a ha b hab
      have hne : a ≠ listDummy := by
        rintro rfl
        exact dummy_notMem () rest ha
      have h9 : Function.update h.links.next listDummy next a = b := hab.1
      rwa [Function.update_of_ne hne] at h9
    refine List.isChain_append.mpr ⟨?_, List.isChain_singleton _, fun a ha b hb => ?_⟩
    · exact List.IsChain.imp_of_mem_imp (fun a b ha _ hab => hedge a ha b hab) h6
    · exact hedge a (List.mem_of_getLast? ha) b (h8 a ha b hb)
  refine List.isChain_cons_cons.mpr ⟨h1, List.isChain_cons.mpr ⟨fun b hb => ?_, htail⟩⟩
  rw [show h.pNext (.node x) = next from h2, h3]
  cases rest with
  | nil => exact Option.some.inj hb
  | cons y ys => exact Option.some.inj hb

theorem SpscInv.lossless {s : Spsc N} {out pend : List N} (h : SpscInv s out pend) : Lossless s := by
  obtain ⟨heap, pc, pushed, popped⟩ := s
  obtain ⟨h1, h2, h3, h4, h5⟩ := h
  have hall : popped ++ [] ++ pend.map Addr.node = pushed.map .node := by
    rw [show popped = _ from h2, show pushed = _ from h1, List.append_nil, List.map_append]
  have hheld : ∀ x rest, pend = x :: rest →
      popped ++ [Addr.node x] ++ rest.map .node = pushed.map .node := by
    rintro x rest rfl
    rw [← hall, List.append_nil, List.append_assoc]
    rfl
  cases pc with
  | idle =>
    refine ⟨[], pend.map .node, follows_of_ring h5, hall, Or.inl rfl, fun _ => ?_⟩
    rw [List.length_map]
    exact h4
  | loop ptr => exact ⟨[], pend.map .node, follows_of_ring h5.1, hall, Or.inl rfl, fun e => by cases e⟩
  | swing ptr next =>
    exact ⟨[], pend.map .node, follows_of_ring h5.1, hall, Or.inl rfl, fun e => by cases e⟩
  | swung ptr next =>
    obtain ⟨x, rest, rfl, rfl, hh⟩ := h5
    exact ⟨[], (x :: rest).map .node, hh.follows, hall, Or.inl rfl, fun e => by cases e⟩
  | relink ptr next dnext =>
    obtain ⟨x, rest, rfl, rfl, rfl, hh⟩ := h5
    rcases hh with hh | hr
    · exact ⟨[], (x :: rest).map .node, hh.follows, hall, Or.inl rfl, fun e => by cases e⟩
    · exact ⟨[.node x], rest.map .node, follows_of_ring hr, hheld x rest rfl,
        Or.inr ⟨_, rfl, Or.inl ⟨_, _, rfl⟩⟩, fun e => by cases e⟩
  | discount ptr =>
    obtain ⟨x, rest, rfl, rfl, hr⟩ := h5
    exact ⟨[.node x], rest.map .node, follows_of_ring hr, hheld x rest rfl, Or.inr ⟨_, rfl, Or.inr rfl⟩,
      fun e => by cases e⟩

/-- **Nothing is lost** in a run whose pushes all keep out of the window. -/
theorem spsc_lossless {s : Spsc N} (h : SpscRun Quiet s) : Lossless s := by
  obtain ⟨out, pend, hinv⟩ := h.inv
  exact hinv.lossless

/-! ## the window -/

/-- a list that is empty between calls while a node pushed has not been returned has lost it -/
theorem lost_of_empty {s : Spsc N} (hpc : s.pc = .idle) (hd : s.heap.pNext listDummy = listDummy)
    (hlen : s.popped.length < s.pushed.length) : ¬ Lossless s := by
  rintro ⟨held, reach, hf, hall, hheld, _⟩
  have hnil : held = [] := by
    rcases hheld with h | ⟨ptr, _, ⟨_, _, h⟩ | h⟩
    · exact h
    · rw [hpc] at h
      cases h
    · rw [hpc] at h
      cases h
  have hreach : reach = [] := by
    cases reach with
    | nil => rfl
    | cons a reach =>
      have ha : s.heap.pNext listDummy = a := (List.isChain_cons_cons.mp hf).1
      have hm : a ∈ s.pushed.map (Addr.node (L := Unit)) := by
        rw [← hall]
        exact List.mem_append_right _ List.mem_cons_self
      rw [ha.symm.trans hd] at hm
      exact absurd hm (dummy_notMem () s.pushed)
  rw [hnil, hreach, List.append_nil, List.append_nil] at hall
  rw [hall, List.length_map] at hlen
  exact Nat.lt_irrefl _ hlen

/-- **A push in the window is lost**: when the running pop has come to its end the list is empty. -/
theorem window_push_lost {s : Spsc N} (h : SpscRun Quiet s) {n : N} (hn : n ∉ s.pending)
    (hw : ¬ Quiet s) : ¬ Lossless (popStep (popStep (popStep (pushStep s n)))) := by
  obtain ⟨out, pend, hinv⟩ := h.inv
  rw [hinv.pending] at hn
  obtain ⟨heap, pc, pushed, popped⟩ := s
  obtain ⟨h1, h2, h3, h4, h5⟩ := hinv
  obtain ⟨ptr, hpc⟩ := not_forall_not.mp hw
  obtain rfl : pc = .swung ptr (.dummy ()) := hpc
  obtain ⟨x, rest, rfl, rfl, hh⟩ := h5
  obtain rfl : rest = [] := by
    cases rest with
    | nil => rfl
    | cons y ys => cases hh.2.2.1
  -- the node pushed is what `dnext` is read as, so the second swap succeeds and drops it
  have hstep : popStep (popStep (pushStep ⟨heap, .swung (.node x) (.dummy ()), pushed, popped⟩ n))
      = ⟨(ckLinkedListPushBack_lockfree heap () n).setNext listDummy listDummy, .discount (.node x),
        pushed ++ [n], popped⟩ := if_pos rfl
  refine lost_of_empty ?_ ?_ ?_
  · rw [hstep]
    rfl
  · rw [hstep]
    show Function.update (ckLinkedListPushBack_lockfree heap () n).links.next listDummy listDummy
      listDummy = _
    rw [Function.update_self]
  · rw [hstep]
    show (popped ++ [Addr.node x]).length < (pushed ++ [n]).length
    rw [show popped = _ from h2, show pushed = _ from h1]
    simp

/-- the node 0 is pushed, a pop of it runs up to the window, the node 1 is pushed, the pop ends -/
def spscStart : Spsc Nat := pushStep (.init .zero) 0
def spscWindow : Spsc Nat := popStep (popStep (popStep spscStart))
def spscWindowRun : Spsc Nat := popStep (popStep (popStep (pushStep spscWindow 1)))

theorem spsc_window_loses : ¬ ∀ s : Spsc Nat, SpscRun (fun _ => True) s → Lossless s := by
  intro h
  have h0 : SpscRun (fun _ => True) spscStart := .push 0 (.init .zero) List.not_mem_nil trivial
  have h1 : SpscRun (fun _ => True) spscWindow := h0.pop.pop.pop
  have h2 : SpscRun (fun _ => True) spscWindowRun := (h1.push 1 (by decide) trivial).pop.pop.pop
  exact lost_of_empty rfl rfl (by decide) (h _ h2)

/-- the same two pushes, with the second one a step later -/
theorem spsc_lossless_two : Lossless (popStep (popStep (pushStep (popStep spscWindow) 1))) := by
  have h0 : SpscRun Quiet spscStart := .push 0 (.init .zero) List.not_mem_nil (by decide)
  have h1 : SpscRun Quiet (popStep spscWindow) := h0.pop.pop.pop.pop
  exact spsc_lossless (h1.push 1 (by decide) (by decide)).pop.pop

end Clubcos
