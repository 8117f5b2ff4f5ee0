import Mathlib.Logic.Function.Basic

/-!
# Chains in a table of links

An entry for every cell says which cell comes next, or that none does.

* `Leads`           each cell of a list leads to the next one, and the last one to `e`;
* `Leads.congr`     a table that is the same on the cells has the same chain;
* `fill`            a table with one value in all the cells of a list.
-/

namespace Chain

variable {α : Type}

/-- where a list of cells begins, or what comes behind it -/
def first (e : α) : List α → α
  | [] => e
  | a :: _ => a

def Leads (t : α → α) (e : α) : List α → Prop
  | [] => True
  | a :: l => t a = first e l ∧ Leads t e l

@[simp] theorem first_nil (e : α) : first e [] = e := rfl

@[simp] theorem first_cons (e a : α) (l : List α) : first e (a :: l) = a := rfl

@[simp] theorem leads_nil (t : α → α) (e : α) : Leads t e [] := trivial

@[simp] theorem leads_cons (t : α → α) (e a : α) (l : List α) :
    Leads t e (a :: l) ↔ t a = first e l ∧ Leads t e l := Iff.rfl

theorem Leads.congr {t t' : α → α} {e : α} {l : List α} (h : Leads t e l) (hs : ∀ a ∈ l, t' a = t a) :
    Leads t' e l := by
  induction l with
  | nil => trivial
  | cons a l ih =>
    exact ⟨(hs a List.mem_cons_self).trans h.1, ih h.2 fun b hb => hs b (List.mem_cons_of_mem a hb)⟩

/-- every entry of a chain is a cell of it or its end -/
theorem Leads.entry {t : α → α} {e : α} {l : List α} (h : Leads t e l) : ∀ a ∈ l, t a ∈ l ∨ t a = e := by
  induction l with
  | nil => simp
  | cons a l ih =>
    intro b hb
    rcases List.mem_cons.mp hb with rfl | hb
    · rw [h.1]
      cases l with
      | nil => simp
      | cons c l => simp
    · exact (ih h.2 b hb).imp (List.mem_cons_of_mem a) id

variable [DecidableEq α]

/-- a table with `v` in all the cells of a list -/
def fill (t : α → α) (v : α) : List α → α → α
  | [] => t
  | a :: l => fill (Function.update t a v) v l

theorem fill_apply (v : α) (l : List α) : ∀ (t : α → α) (a : α), fill t v l a = if a ∈ l then v else t a := by
  induction l with
  | nil => simp [fill]
  | cons b l ih =>
    intro t a
    rw [fill, ih]
    by_cases hb : a = b
    · simp [hb]
    · simp [hb]

end Chain
