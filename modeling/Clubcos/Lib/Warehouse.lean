import Mathlib.Data.Finset.Card

/-!
# Boxes that are pushed to goals

A player walks between walls and pushes one box at a time.  The cells and the directions are arbitrary.

* `Level.push`          one step by the rules: a box with a wall or another box behind it stays where it is;
* `Level.Jams`          the step runs into a box with another box behind it;
* `Sound.shift`         the player and the boxes stay off the walls;
* `push_card`           no box is lost;
* `solved_iff`          with no more boxes than goals, **a solved level has its boxes on the goals and nowhere else**.
-/

set_option linter.unusedVariables false
set_option linter.unusedSectionVars false

namespace Warehouse

variable {P D : Type*}

structure Level (P D : Type*) where
  wall : P → Bool
  goals : Finset P
  /-- the cell beside a cell -/
  next : P → D → P

@[ext] structure Position (P : Type*) where
  player : P
  boxes : Finset P
deriving DecidableEq

variable [DecidableEq P] (lv : Level P D) (s : Position P) (d : D)

/-- the cell in front of the player -/
def Level.front : P := lv.next s.player d

/-- the cell behind that one -/
def Level.beyond : P := lv.next (lv.front s d) d

/-- a box in front of the player has another one behind it -/
def Level.Jams : Prop := lv.front s d ∈ s.boxes ∧ lv.beyond s d ∈ s.boxes

instance : Decidable (lv.Jams s d) := inferInstanceAs (Decidable (_ ∧ _))

/-- the box in front of the player moves to the cell behind it, and the player follows -/
def Level.shift : Position P := ⟨lv.front s d, insert (lv.beyond s d) (s.boxes.erase (lv.front s d))⟩

def Level.push : Position P :=
  if lv.wall (lv.front s d) then s
  else if lv.front s d ∈ s.boxes then
    if lv.wall (lv.beyond s d) ∨ lv.beyond s d ∈ s.boxes then s else lv.shift s d
  else ⟨lv.front s d, s.boxes⟩

/-- the steps of a list, one after the other -/
def Level.play (s : Position P) (ds : List D) : Position P := ds.foldl lv.push s

/-- no step of the list jams -/
def Level.Smooth (s : Position P) : List D → Prop
  | [] => True
  | d :: ds => ¬ lv.Jams s d ∧ Level.Smooth (lv.push s d) ds

instance Level.decSmooth (s : Position P) : (ds : List D) → Decidable (lv.Smooth s ds)
  | [] => inferInstanceAs (Decidable True)
  | d :: ds => @instDecidableAnd _ _ _ (Level.decSmooth (lv.push s d) ds)

/-- a box on each goal -/
def Level.Solved : Prop := lv.goals ⊆ s.boxes

instance : Decidable (lv.Solved s) := inferInstanceAs (Decidable (lv.goals ⊆ s.boxes))

/-- the player and the boxes are off the walls -/
structure Sound : Prop where
  player : lv.wall s.player = false
  boxes : ∀ b ∈ s.boxes, lv.wall b = false

variable {lv s d}

/-! ## what a step can do -/

theorem push_wall (h : lv.wall (lv.front s d) = true) : lv.push s d = s := if_pos h

theorem push_walk (h : lv.wall (lv.front s d) = false) (hb : lv.front s d ∉ s.boxes) :
    lv.push s d = ⟨lv.front s d, s.boxes⟩ := by
  rw [Level.push, if_neg (by simp [h]), if_neg hb]

theorem push_stuck (hb : lv.front s d ∈ s.boxes) (h : lv.wall (lv.beyond s d) = true ∨ lv.beyond s d ∈ s.boxes) :
    lv.push s d = s := by
  by_cases hf : lv.wall (lv.front s d) = true
  · exact push_wall hf
  · rw [Level.push, if_neg hf, if_pos hb, if_pos h]

theorem push_shift (h : lv.wall (lv.front s d) = false) (hb : lv.front s d ∈ s.boxes)
    (hw : lv.wall (lv.beyond s d) = false) (hc : lv.beyond s d ∉ s.boxes) : lv.push s d = lv.shift s d := by
  rw [Level.push, if_neg (by simp [h]), if_pos hb, if_neg (by simp [hw, hc])]

/-- the four outcomes of a step -/
theorem push_cases (lv : Level P D) (s : Position P) (d : D) :
    lv.push s d = s ∨
    (lv.wall (lv.front s d) = false ∧ lv.front s d ∉ s.boxes ∧ lv.push s d = ⟨lv.front s d, s.boxes⟩) ∨
    (lv.wall (lv.front s d) = false ∧ lv.front s d ∈ s.boxes ∧ lv.wall (lv.beyond s d) = false ∧
      lv.beyond s d ∉ s.boxes ∧ lv.push s d = lv.shift s d) := by
  by_cases hf : lv.wall (lv.front s d) = true
  · exact .inl (push_wall hf)
  · have hf' : lv.wall (lv.front s d) = false := by simpa using hf
    by_cases hb : lv.front s d ∈ s.boxes
    · by_cases h : lv.wall (lv.beyond s d) = true ∨ lv.beyond s d ∈ s.boxes
      · exact .inl (push_stuck hb h)
      · obtain ⟨hw, hc⟩ := not_or.mp h
        have hw' : lv.wall (lv.beyond s d) = false := by simpa using hw
        exact .inr (.inr ⟨hf', hb, hw', hc, push_shift hf' hb hw' hc⟩)
    · exact .inr (.inl ⟨hf', hb, push_walk hf' hb⟩)

/-! ## what a step keeps -/

theorem Sound.shift (h : Sound lv s) (hf : lv.wall (lv.front s d) = false) (hw : lv.wall (lv.beyond s d) = false) :
    Sound lv (lv.shift s d) := by
  constructor
  · exact hf
  · intro b hb
    rcases Finset.mem_insert.mp hb with rfl | hb
    · exact hw
    · exact h.boxes b (Finset.mem_of_mem_erase hb)

theorem shift_card (hb : lv.front s d ∈ s.boxes) (hc : lv.beyond s d ∉ s.boxes) :
    (lv.shift s d).boxes.card = s.boxes.card := by
  have hc' : lv.beyond s d ∉ s.boxes.erase (lv.front s d) := fun h => hc (Finset.mem_of_mem_erase h)
  show (insert (lv.beyond s d) (s.boxes.erase (lv.front s d))).card = _
  rw [Finset.card_insert_of_notMem hc', Finset.card_erase_add_one hb]

/-- **No box is lost.** -/
theorem push_card : (lv.push s d).boxes.card = s.boxes.card := by
  rcases push_cases lv s d with e | ⟨hf, hb, e⟩ | ⟨hf, hb, hw, hc, e⟩
  · rw [e]
  · rw [e]
  · rw [e, shift_card hb hc]

/-! ## solved levels -/

theorem solved_iff (h : s.boxes.card ≤ lv.goals.card) : lv.Solved s ↔ s.boxes = lv.goals := by
  constructor
  · intro hs
    exact (Finset.eq_of_subset_of_card_le hs h).symm
  · intro e
    rw [Level.Solved, e]

/-- a level with fewer boxes than goals is not solved -/
theorem not_solved_of_card_lt (h : s.boxes.card < lv.goals.card) : ¬ lv.Solved s := by
  intro hs
  have hle := Finset.card_le_card hs
  omega

end Warehouse
