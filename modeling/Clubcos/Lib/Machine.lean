import Mathlib.Data.List.Forall2

/-!
# Machines that answer

A step takes a state and an input to an answer and the next state; a step without an outcome is `none`.

* `answers`, `final`   of a machine whose steps always have an outcome;
* `run`                of one whose steps may have none;
* `Permitted`          every input is one that the machine takes in the state it meets;
* `refines`, `run_refines`   a relation that every step keeps is kept by a run, and the answers agree;
* `run_congr`          inputs may be replaced by others that do the same;
* `run_related`        two runs side by side;
* `Along`, `Met`       something holds of every step that the inputs lead to, or of the states and inputs that meet;
* `replay`             a run written out.
-/

set_option linter.unusedVariables false

namespace Machine

variable {S T I O P : Type*}

def answers (spec : T → I → P × T) (t : T) : List I → List P
  | [] => []
  | i :: is => (spec t i).1 :: answers spec (spec t i).2 is

def final (spec : T → I → P × T) (t : T) : List I → T
  | [] => t
  | i :: is => final spec (spec t i).2 is

def run (exec : S → I → Option (O × S)) (s : S) : List I → Option (List O × S)
  | [] => some ([], s)
  | i :: is => (exec s i).bind fun r => (run exec r.2 is).map fun rs => (r.1 :: rs.1, rs.2)

def Permitted (spec : T → I → P × T) (ok : T → I → Prop) (t : T) : List I → Prop
  | [] => True
  | i :: is => ok t i ∧ Permitted spec ok (spec t i).2 is

theorem run_cons {exec : S → I → Option (O × S)} {s s' : S} {i : I} {o : O} (h : exec s i = some (o, s')) (is : List I) :
    run exec s (i :: is) = (run exec s' is).map fun rs => (o :: rs.1, rs.2) := by
  rw [run, h, Option.bind_some]

/-- two machines that answer alike -/
theorem refines {impl : S → I → P × S} {spec : T → I → P × T} {R : S → T → Prop}
    (hstep : ∀ s t i, R s t → (impl s i).1 = (spec t i).1 ∧ R (impl s i).2 (spec t i).2) {s : S} {t : T} (h : R s t)
    (is : List I) : answers impl s is = answers spec t is ∧ R (final impl s is) (final spec t is) := by
  induction is generalizing s t with
  | nil => exact ⟨rfl, h⟩
  | cons i is ih =>
    obtain ⟨h1, h2⟩ := hstep s t i h
    obtain ⟨h3, h4⟩ := ih h2
    refine ⟨?_, h4⟩
    rw [answers, answers, h1, h3]

theorem Permitted.and {spec : T → I → P × T} {ok : T → I → Prop} {p : I → Prop} {t : T} {is : List I}
    (h : Permitted spec ok t is) (hp : ∀ i ∈ is, p i) : Permitted spec (fun t i => ok t i ∧ p i) t is := by
  induction is generalizing t with
  | nil => trivial
  | cons i is ih => exact ⟨⟨h.1, hp i List.mem_cons_self⟩, ih h.2 fun j hj => hp j (List.mem_cons_of_mem i hj)⟩

/-- every input of a run had an outcome -/
theorem run_some {exec : S → I → Option (O × S)} {s : S} {is : List I} {r : List O × S} (h : run exec s is = some r)
    {i : I} (hi : i ∈ is) : ∃ s' r', exec s' i = some r' := by
  induction is generalizing s r with
  | nil => exact absurd hi List.not_mem_nil
  | cons j is ih =>
    obtain ⟨r1, h1, h2⟩ := Option.bind_eq_some_iff.mp h
    rcases List.mem_cons.mp hi with rfl | hi
    · exact ⟨s, r1, h1⟩
    · obtain ⟨r2, h3, _⟩ := Option.map_eq_some_iff.mp h2
      exact ih h3 hi

theorem run_related {exec : S → I → Option (O × S)} {exec' : T → I → Option (O × T)} {Q : S → T → Prop}
    {E : I → I → Prop} (hstep : ∀ s t i j o s', Q s t → E i j → exec s i = some (o, s') →
      ∃ t', exec' t j = some (o, t') ∧ Q s' t') {s s' : S} {t : T} (h : Q s t) {is js : List I}
    (he : List.Forall₂ E is js) {os : List O} (hrun : run exec s is = some (os, s')) :
    ∃ t', run exec' t js = some (os, t') ∧ Q s' t' := by
  induction he generalizing s t os with
  | nil =>
    cases hrun
    exact ⟨t, rfl, h⟩
  | @cons i j is js he _ ih =>
    obtain ⟨⟨o, s1⟩, h1, h2⟩ := Option.bind_eq_some_iff.mp hrun
    obtain ⟨⟨os1, s2⟩, h3, h4⟩ := Option.map_eq_some_iff.mp h2
    cases h4
    obtain ⟨t1, h5, hq⟩ := hstep s t i j o s1 h he h1
    obtain ⟨t2, h6, hq2⟩ := ih hq h3
    refine ⟨t2, ?_, hq2⟩
    rw [run_cons h5, h6]
    rfl

section
variable {exec : S → I → Option (O × S)} {spec : T → I → P × T} {ok : T → I → Prop} {R : S → T → Prop} {out : P → O}
  (hstep : ∀ s t i, R s t → ok t i → ∃ s', exec s i = some (out (spec t i).1, s') ∧ R s' (spec t i).2)
include hstep

/-- permitted inputs have an outcome and the right answers -/
theorem run_refines {s : S} {t : T} (h : R s t) {is : List I} (hp : Permitted spec ok t is) :
    ∃ s', run exec s is = some ((answers spec t is).map out, s') ∧ R s' (final spec t is) := by
  induction is generalizing s t with
  | nil => exact ⟨s, rfl, h⟩
  | cons i is ih =>
    obtain ⟨s1, hexec, h1⟩ := hstep s t i h hp.1
    obtain ⟨s2, hrun, h2⟩ := ih h1 hp.2
    refine ⟨s2, ?_, h2⟩
    rw [run_cons hexec, hrun]
    rfl

theorem run_congr {f : I → I} (hf : ∀ s t i, R s t → ok t i → exec s (f i) = exec s i) {s : S} {t : T} (h : R s t)
    {is : List I} (hp : Permitted spec ok t is) : run exec s (is.map f) = run exec s is := by
  induction is generalizing s t with
  | nil => rfl
  | cons i is ih =>
    obtain ⟨s1, hexec, h1⟩ := hstep s t i h hp.1
    rw [List.map_cons, run_cons hexec, run_cons ((hf s t i h hp.1).trans hexec), ih h1 hp.2]

end

/-! ## every step along the inputs -/

/-- `P` holds of each step, up to the first input without one -/
def Along (step : S → I → Option S) (P : S → I → S → Prop) (s : S) : List I → Prop
  | [] => True
  | i :: is => ∀ s', step s i = some s' → P s i s' ∧ Along step P s' is

/-- two properties that agree where something holds that the steps of the one kind keep -/
theorem along_iff_keeping {step : S → I → Option S} {P Q : S → I → S → Prop} {R : S → Prop}
    (h : ∀ s i s', step s i = some s' → R s → (P s i s' ↔ Q s i s'))
    (hstep : ∀ s i s', step s i = some s' → P s i s' → R s → R s') {s : S} {is : List I} (hs : R s) :
    Along step P s is ↔ Along step Q s is := by
  induction is generalizing s with
  | nil => exact Iff.rfl
  | cons i is ih =>
    refine forall_congr' fun s' => imp_congr_right fun e => ?_
    rw [← h s i s' e hs]
    exact and_congr_right fun hp => ih (hstep s i s' e hp hs)

theorem along_iff {step : S → I → Option S} {P Q : S → I → S → Prop}
    (h : ∀ s i s', step s i = some s' → (P s i s' ↔ Q s i s')) {s : S} {is : List I} :
    Along step P s is ↔ Along step Q s is :=
  @along_iff_keeping S I step P Q (fun _ => True) (fun s i s' e _ => h s i s' e) (fun _ _ _ _ _ => id) s is trivial

/-- what such steps keep holds after each of them -/
theorem Along.keeps {step : S → I → Option S} {P : S → I → S → Prop} {R : S → Prop}
    (hstep : ∀ s i s', step s i = some s' → P s i s' → R s → R s') {s : S} {is : List I} (h : Along step P s is)
    (hs : R s) : Along step (fun _ _ s' => R s') s is := by
  induction is generalizing s with
  | nil => trivial
  | cons i is ih =>
    intro s' e
    obtain ⟨hp, h⟩ := h s' e
    have hs' := hstep s i s' e hp hs
    exact ⟨hs', ih h hs'⟩

/-- `P` holds of each input in the state that it meets -/
def Met (step : S → I → Option S) (P : S → I → Prop) (s : S) : List I → Prop
  | [] => True
  | i :: is => P s i ∧ ∀ s', step s i = some s' → Met step P s' is

/-! ## a run written out -/

def replay (step : S → I → Option S) : List I → S → Option S
  | [], s => some s
  | i :: is, s => (step s i).bind (replay step is)

theorem replay_keeps {step : S → I → Option S} {R : S → Prop} (hstep : ∀ s i s', step s i = some s' → R s → R s')
    {is : List I} : ∀ {s s' : S}, replay step is s = some s' → R s → R s' := by
  induction is with
  | nil =>
    intro s s' h hs
    exact Option.some.inj h ▸ hs
  | cons i is ih =>
    intro s s' h hs
    obtain ⟨s₁, h₁, h₂⟩ := Option.bind_eq_some_iff.mp h
    exact ih h₂ (hstep s i s₁ h₁ hs)

end Machine
