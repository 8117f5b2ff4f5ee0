import Mathlib.Logic.Function.Basic
import Mathlib.Data.List.Basic

/-!
# Threads over a shared state

Any number of threads, each with a local state of its own, take atomic steps on a shared state, in any
order.  A step has an event; a run keeps the list of its events.

* `Run next ok c₀ tr c`   a run from `c₀` with the events `tr`; `ok` says which steps it may take;
* `Run.invariant`         **the rule of Owicki and Gries**: an assertion for each thread, kept by the
                          thread's own steps and not disturbed by the steps of the others;
* `execAll`               the steps of a run on a concrete input;
* `own t tr`              the events of the thread `t`.
-/

set_option linter.unusedVariables false

namespace Threads

structure Config (T S L : Type) where
  shared : S
  locals : T → L

section
variable {T S L E Γ : Type} [DecidableEq T]

/-- the state after a step of the thread `t` -/
def Config.step (c : Config T S L) (t : T) (s : S) (l : L) : Config T S L := ⟨s, Function.update c.locals t l⟩

@[simp] theorem Config.step_self (c : Config T S L) (t : T) (s : S) (l : L) : (c.step t s l).locals t = l :=
  Function.update_self _ _ _

theorem Config.step_other (c : Config T S L) {t u : T} (s : S) (l : L) (h : u ≠ t) :
    (c.step t s l).locals u = c.locals u := Function.update_of_ne h _ _

/-- `next t s l e s' l'`: the thread `t` goes from the local state `l` to `l'` and changes `s` to `s'` -/
inductive Run (next : T → S → L → E → S → L → Prop) (ok : List (T × E) → Config T S L → T → E → Prop)
    (c₀ : Config T S L) : List (T × E) → Config T S L → Prop
  | init : Run next ok c₀ [] c₀
  | step {tr c t e s l} : Run next ok c₀ tr c → ok tr c t e → next t c.shared (c.locals t) e s l →
      Run next ok c₀ (tr ++ [(t, e)]) (c.step t s l)

variable {next : T → S → L → E → S → L → Prop} {ok : List (T × E) → Config T S L → T → E → Prop}
  {c₀ c : Config T S L} {tr : List (T × E)}

/-- **The rule of Owicki and Gries.** `G` is about the shared state, `P t` is the assertion of the thread `t`;
`g` are auxiliary variables that the program does not have. -/
theorem Run.invariant {G : Γ → List (T × E) → S → Prop} {P : Γ → List (T × E) → T → S → L → Prop} {a : Γ}
    (hG : G a [] c₀.shared) (hP : ∀ t, P a [] t c₀.shared (c₀.locals t))
    (hstep : ∀ {g tr c t e s l}, G g tr c.shared → (∀ u, P g tr u c.shared (c.locals u)) → ok tr c t e →
      next t c.shared (c.locals t) e s l → ∃ g', G g' (tr ++ [(t, e)]) s ∧ P g' (tr ++ [(t, e)]) t s l ∧
        ∀ u, u ≠ t → P g' (tr ++ [(t, e)]) u s (c.locals u))
    (hr : Run next ok c₀ tr c) : ∃ g, G g tr c.shared ∧ ∀ t, P g tr t c.shared (c.locals t) := by
  induction hr with
  | init => exact ⟨a, hG, hP⟩
  | @step tr c t e s l _ ho hn ih =>
    obtain ⟨g, hg, hp⟩ := ih
    obtain ⟨g', hg', hself, hother⟩ := hstep hg hp ho hn
    refine ⟨g', hg', fun u => ?_⟩
    by_cases h : u = t
    · rw [h, Config.step_self]
      exact hself
    · rw [Config.step_other c s l h]
      exact hother u h

/-! ## runs that are computed -/

/-- Take these steps, if `exec` and `ok` allow all of them. -/
def execAll (exec : T → S → L → E → Option (S × L)) (ok : List (T × E) → Config T S L → T → E → Bool) :
    List (T × E) → Config T S L → List (T × E) → Option (Config T S L)
  | _, c, [] => some c
  | tr, c, (t, e) :: es =>
    if ok tr c t e then
      (exec t c.shared (c.locals t) e).bind fun r => execAll exec ok (tr ++ [(t, e)]) (c.step t r.1 r.2) es
    else none

theorem Run.execAll {exec : T → S → L → E → Option (S × L)} {check : List (T × E) → Config T S L → T → E → Bool}
    (hexec : ∀ {t s l e s' l'}, exec t s l e = some (s', l') → next t s l e s' l')
    (hcheck : ∀ {tr c t e}, check tr c t e = true → ok tr c t e) {es : List (T × E)} {c' : Config T S L}
    (hr : Run next ok c₀ tr c) (h : Threads.execAll exec check tr c es = some c') :
    Run next ok c₀ (tr ++ es) c' := by
  induction es generalizing tr c with
  | nil =>
    obtain rfl := Option.some.inj h
    rwa [List.append_nil]
  | cons e es ih =>
    rw [Threads.execAll] at h
    by_cases ho : check tr c e.1 e.2 = true
    · rw [if_pos ho] at h
      obtain ⟨⟨s, l⟩, hn, h⟩ := Option.bind_eq_some_iff.mp h
      rw [List.append_cons]
      exact ih (hr.step (hcheck ho) (hexec hn)) h
    · rw [if_neg ho] at h
      cases h

/-! ## the events of one thread -/

def own (t : T) (tr : List (T × E)) : List E := (tr.filter fun e => e.1 = t).map Prod.snd

theorem own_self (t : T) (tr : List (T × E)) (e : E) : own t (tr ++ [(t, e)]) = own t tr ++ [e] := by simp [own]

theorem own_other {t u : T} (tr : List (T × E)) (e : E) (h : u ≠ t) : own u (tr ++ [(t, e)]) = own u tr := by
  simp [own, h.symm]

end

end Threads
