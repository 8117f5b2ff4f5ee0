import Clubcos.Lib.Ring
import Clubcos.Lib.Word

/-!
# linkedlist.c: intrusive circular lists

A `Heap L N` holds the `LinkedListNode`s and the `size` fields of a family of lists: `L` names the
lists, each with its `dummy`, and `N` names the nodes that can be linked in.

* `ckLinkedListInit`, `ckLinkedListPushBack`, `ckLinkedListPopFront`, `ckLinkedListErase`;
* `ckLinkedListPushBack_lockfree`, `ckLinkedListPopFront_lockfree`   here as they run without
  interruption.  A compare-and-swap that fails then fails forever, so a pop is `none` where the loop
  of the source never ends.
-/

set_option linter.unusedSectionVars false

namespace Clubcos
open Word Ring

/-- the address of a `LinkedListNode` -/
inductive Addr (L N : Type) where
  | null
  | dummy (l : L)
  | node (n : N)
deriving DecidableEq

structure Heap (L N : Type) where
  links : Links (Addr L N)
  size : L → Nat

/-- zeroed memory, with no list in it -/
def Heap.zero {L N : Type} : Heap L N := ⟨⟨fun _ => .null, fun _ => .null⟩, fun _ => 0⟩

section
variable {L N : Type} [DecidableEq L] [DecidableEq N]

def Heap.pNext (h : Heap L N) (a : Addr L N) : Addr L N := h.links.next a
def Heap.pPrev (h : Heap L N) (a : Addr L N) : Addr L N := h.links.prev a

def Heap.setNext (h : Heap L N) (a v : Addr L N) : Heap L N :=
  { h with links := { h.links with next := Function.update h.links.next a v } }

def Heap.setPrev (h : Heap L N) (a v : Addr L N) : Heap L N :=
  { h with links := { h.links with prev := Function.update h.links.prev a v } }

def Heap.setSize (h : Heap L N) (l : L) (n : Nat) : Heap L N :=
  { h with size := Function.update h.size l n }

@[simp] theorem Heap.setSize_links (h : Heap L N) (l : L) (n : Nat) : (h.setSize l n).links = h.links := rfl

def ckLinkedListInit (h : Heap L N) (l : L) : Heap L N :=
  let h := h.setNext (.dummy l) (.dummy l)
  let h := h.setPrev (.dummy l) (.dummy l)
  h.setSize l 0

def ckLinkedListHead (h : Heap L N) (l : L) : Addr L N := h.pNext (.dummy l)
def ckLinkedListTail (h : Heap L N) (l : L) : Addr L N := h.pPrev (.dummy l)

def ckLinkedListPushBack (h : Heap L N) (l : L) (n : N) : Heap L N :=
  let h := h.setSize l (u32 (h.size l + 1))
  let tail := h.pPrev (.dummy l)
  let h := h.setNext (.node n) (.dummy l)
  let h := h.setPrev (.node n) tail
  let h := h.setPrev (.dummy l) (.node n)
  h.setNext tail (.node n)

/-- The compare-and-swap of `dummy->pPrev` succeeds in the first round: between it and the read of
`tail` only the fields of the new node are written. -/
def ckLinkedListPushBack_lockfree (h : Heap L N) (l : L) (n : N) : Heap L N :=
  let h := h.setSize l (u32 (h.size l + 1))
  let h := h.setNext (.node n) (.dummy l)
  let tail := h.pPrev (.dummy l)
  let h := h.setPrev (.node n) tail
  let h := h.setPrev (.dummy l) (.node n)
  h.setNext tail (.node n)

def ckLinkedListPopFront (h : Heap L N) (l : L) : Addr L N × Heap L N :=
  let ptr := h.pNext (.dummy l)
  let next := h.pNext ptr
  if ptr = .dummy l then (.null, h)
  else
    let h := h.setNext (.dummy l) next
    let h := h.setPrev next (.dummy l)
    (ptr, h.setSize l (sub32 (h.size l) 1))

def ckLinkedListPopFront_lockfree (h : Heap L N) (l : L) : Option (Addr L N × Heap L N) :=
  let ptr := h.pNext (.dummy l)
  if ptr = .dummy l then some (.null, h)
  else
    let next := h.pNext ptr
    if h.pPrev next = ptr then
      let h := h.setPrev next (.dummy l)
      let h := h.setNext (.dummy l) next
      some (ptr, h.setSize l (sub32 (h.size l) 1))
    else none

def ckLinkedListErase (h : Heap L N) (l : L) (n : N) : Heap L N :=
  let prev := h.pPrev (.node n)
  let next := h.pNext (.node n)
  let h := h.setNext prev next
  let h := h.setPrev next prev
  h.setSize l (sub32 (h.size l) 1)

end

end Clubcos
