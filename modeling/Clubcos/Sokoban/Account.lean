import Clubcos.Sokoban.Game

/-!
# Boxes that are lost, and stages that are cleared

* `loose_card`       a move never makes a box, and loses one when it is pushed to a goal that has one already;
* `run_append`       a game that waits goes on from where it is;
* `boxes_account`    **there are never more boxes than goals, a stage is cleared with its boxes on the goals and nowhere
                     else, and once a box is lost only `r` gets the player any further**;
* `solutions_win`    **a solution by the ordinary rules, with any arrows, clears its stage**.
-/

set_option linter.unusedVariables false

namespace Clubcos.Sokoban
open Warehouse

/-! ## keys that solve the stages -/

/-- the three boxes of the first stage, one after the other to the right -/
def firstSolution : List Pos :=
  List.replicate 14 (1, 0) ++ List.replicate 13 (-1, 0) ++ [(0, -1)] ++ List.replicate 13 (1, 0) ++
    List.replicate 13 (-1, 0) ++ [(0, 1), (0, 1)] ++ List.replicate 13 (1, 0)

def secondSolution : List Pos :=
  [(1, 0), (-1, 0), (0, 1), (0, 1), (0, -1), (-1, 0), (-1, 0), (-1, 0), (1, 0), (1, 0), (0, -1), (0, -1)]

def arrowKey (d : Pos) : Byte :=
  if d = (1, 0) then Cascii.right
  else if d = (-1, 0) then Cascii.numLeft
  else if d = (0, 1) then Cascii.down
  else Cascii.numUp

/-- The second stage, where a box is brought to the goal on the left, and then another one. -/
def lostBox : List Byte := firstSolution.map arrowKey ++ ([(1, 0), (0, 1), (-1, 0), (-1, 0), (-1, 0), (-1, 0), (1, 0), (1, 0),
  (0, -1), (1, 0), (1, 0), (0, 1), (-1, 0), (-1, 0), (-1, 0), (-1, 0)].map arrowKey)

/-! ## along a game -/

theorem loose_card (lv : Level Pos Pos) (s : Position Pos) (d : Pos) :
    (loose lv s d).boxes.card ≤ s.boxes.card := by
  unfold loose
  split
  · show (if _ then s.boxes.erase _ else s.boxes).card ≤ _
    split
    · exact Finset.card_erase_le
    · exact le_refl _
  · exact le_of_eq push_card

/-- no more boxes than goals -/
def Play.Fits (g : Play) : Prop := g.pos.boxes.card ≤ (level g.stage).goals.card

/-- fewer boxes than goals -/
def Play.Short (g : Play) : Prop := g.pos.boxes.card < (level g.stage).goals.card

theorem start_fits : ∀ r < MAXSTAGE, (Play.start r).Fits := by
  unfold Play.Fits
  decide +kernel

theorem Play.Fits.move {g : Play} (h : g.Fits) (d : Pos) : (g.move d).Fits := (loose_card _ _ _).trans h

theorem Play.Short.move {g : Play} (h : g.Short) (d : Pos) : (g.move d).Short := lt_of_le_of_lt (loose_card _ _ _) h

theorem Play.Short.open {g : Play} (h : g.Short) : ¬ g.Solved := not_solved_of_card_lt h

/-- what a game has at its end -/
def Ends (waiting : Play → Prop) (won : Play → Prop) : Outcome Play → Prop
  | .waits g => waiting g
  | .quits g _ => waiting g
  | .wins g _ => won g
  | .faults => False

theorem run_fits {g : Play} (hstage : g.stage < MAXSTAGE) (h : g.Fits) (keys : List Byte) :
    Ends Play.Fits (fun g => g.pos.boxes = (level g.stage).goals) (g.run keys) := by
  induction keys generalizing g with
  | nil => exact h
  | cons k keys ih =>
    cases hkey : keyOf k with
    | escape =>
      rw [run_escape keys hkey]
      exact h
    | restart =>
      rw [run_restart keys hkey]
      exact ih hstage (start_fits _ hstage)
    | other =>
      rw [run_other keys hkey]
      exact ih hstage h
    | arrow d =>
      by_cases hs : (g.move d).Solved
      · rw [run_solved keys hkey hs]
        split
        · rename_i hlast
          exact ih hlast (start_fits _ hlast)
        · exact (solved_iff (h.move d)).mp hs
      · rw [run_open keys hkey hs]
        exact ih hstage (h.move d)

/-- with a box lost and no `r` typed, the stage stays -/
theorem run_short {g : Play} {r : Nat} (hr : g.stage = r) (h : g.Short) {keys : List Byte}
    (hkeys : ∀ k ∈ keys, k ≠ ascii 'r' ∧ k ≠ ascii 'R') :
    Ends (fun g => g.stage = r ∧ g.Short) (fun _ => False) (g.run keys) := by
  induction keys generalizing g with
  | nil => exact ⟨hr, h⟩
  | cons k keys ih =>
    have htail : ∀ k ∈ keys, k ≠ ascii 'r' ∧ k ≠ ascii 'R' := fun k hk => hkeys k (List.mem_cons_of_mem _ hk)
    cases hkey : keyOf k with
    | escape =>
      rw [run_escape keys hkey]
      exact ⟨hr, h⟩
    | restart =>
      obtain ⟨h1, h2⟩ := hkeys k List.mem_cons_self
      rw [keyOf, if_neg (not_or.mpr ⟨h1, h2⟩)] at hkey
      split at hkey
      · cases hkey
      · cases e : direction (numArrow k) <;> simp [e] at hkey
    | other =>
      rw [run_other keys hkey]
      exact ih hr h htail
    | arrow d =>
      rw [run_open keys hkey (h.move d).open]
      exact ih hr (h.move d) htail

/-- a game that waits goes on with the keys that come -/
theorem run_append {g g' : Play} {keys : List Byte} (h : g.run keys = .waits g') (more : List Byte) :
    g.run (keys ++ more) = g'.run more := by
  induction keys generalizing g with
  | nil =>
    cases h
    rfl
  | cons k keys ih =>
    rw [List.cons_append]
    cases hkey : keyOf k with
    | escape =>
      rw [run_escape keys hkey] at h
      cases h
    | restart =>
      rw [run_restart keys hkey] at h
      rw [run_restart _ hkey, ih h]
    | other =>
      rw [run_other keys hkey] at h
      rw [run_other _ hkey, ih h]
    | arrow d =>
      by_cases hs : (g.move d).Solved
      · rw [run_solved keys hkey hs] at h
        rw [run_solved _ hkey hs]
        split
        · rename_i hlast
          rw [if_pos hlast] at h
          exact ih h
        · rename_i hlast
          rw [if_neg hlast] at h
          cases h
      · rw [run_open keys hkey hs] at h
        rw [run_open _ hkey hs, ih h]

/-! ## the boxes that are shown -/

def boxesShown (s : Vars) : Finset Pos := (cells.filter fun p => s.stage p == ascii 'O').toFinset

theorem Repr.boxesShown {s : Vars} {g : Play} (h : Repr s g) : boxesShown s = g.pos.boxes := by
  ext p
  have hmem : p ∈ Sokoban.boxesShown s ↔ p ∈ cells ∧ s.stage p = ascii 'O' := by simp [Sokoban.boxesShown]
  rw [hmem]
  constructor
  · rintro ⟨hp, hO⟩
    have hf : floor g.stage p = true := by
      by_contra hf
      have hdata := h.rest p hf
      rw [hO] at hdata
      exact hf (floor_iff.mpr ⟨hp, .inr (.inr (.inl hdata.symm))⟩)
    exact (h.box p hf).mp hO
  · intro hb
    have hf := h.floor_box hb
    exact ⟨(floor_iff.mp hf).1, (h.box p hf).mpr hb⟩

/-- the goals of the stage that is played -/
def goalsOf (s : Vars) : Finset Pos := cellsWith s.roundNum (ascii '.')

theorem Repr.goalsOf {s : Vars} {g : Play} (h : Repr s g) : goalsOf s = (level g.stage).goals :=
  congrArg (cellsWith · (ascii '.')) h.roundNum

def Accounts : Outcome Vars → Prop
  | .waits s => (boxesShown s).card ≤ (goalsOf s).card
  | .quits s _ => (boxesShown s).card ≤ (goalsOf s).card
  | .wins s _ => boxesShown s = goalsOf s
  | .faults => False

/-- the game is in the stage `r` with a box too few -/
def Stranded (r : Nat) : Outcome Vars → Prop
  | .waits s => s.roundNum = r ∧ (boxesShown s).card < (goalsOf s).card
  | .quits s _ => s.roundNum = r ∧ (boxesShown s).card < (goalsOf s).card
  | _ => False

/-- outcomes that agree are of one kind -/
theorem Agree.cases {o : Outcome Vars} {o' : Outcome Play} (h : Agree o o') :
    (∃ s g, Repr s g ∧ o = .waits s ∧ o' = .waits g) ∨
    (∃ s g keys, Repr s g ∧ o = .quits s keys ∧ o' = .quits g keys) ∨
    (∃ s g keys, Repr s g ∧ o = .wins s keys ∧ o' = .wins g keys) := by
  cases o with
  | waits s =>
    cases o' with
    | waits g => exact .inl ⟨s, g, h, rfl, rfl⟩
    | quits | wins | faults => cases h
  | quits s keys =>
    cases o' with
    | quits g keys' =>
      obtain ⟨hr, rfl⟩ := h
      exact .inr (.inl ⟨s, g, keys, hr, rfl, rfl⟩)
    | waits | wins | faults => cases h
  | wins s keys =>
    cases o' with
    | wins g keys' =>
      obtain ⟨hr, rfl⟩ := h
      exact .inr (.inr ⟨s, g, keys, hr, rfl, rfl⟩)
    | waits | quits | faults => cases h
  | faults => cases o' <;> cases h

theorem accounts_of_ends {o : Outcome Vars} {o' : Outcome Play} (h : Agree o o')
    (he : Ends Play.Fits (fun g => g.pos.boxes = (level g.stage).goals) o') : Accounts o := by
  have hfits : ∀ s g, Repr s g → g.Fits → (Sokoban.boxesShown s).card ≤ (Sokoban.goalsOf s).card := by
    intro s g hr hg
    rw [hr.boxesShown, hr.goalsOf]
    exact hg
  obtain ⟨s, g, hr, rfl, rfl⟩ | ⟨s, g, keys, hr, rfl, rfl⟩ | ⟨s, g, keys, hr, rfl, rfl⟩ := h.cases
  · exact hfits s g hr he
  · exact hfits s g hr he
  · show Sokoban.boxesShown s = Sokoban.goalsOf s
    rw [hr.boxesShown, hr.goalsOf]
    exact he

theorem stranded_of_ends {o : Outcome Vars} {o' : Outcome Play} {r : Nat} (h : Agree o o')
    (he : Ends (fun g => g.stage = r ∧ g.Short) (fun _ => False) o') : Stranded r o := by
  have hshort : ∀ s g, Repr s g → g.stage = r ∧ g.Short →
      s.roundNum = r ∧ (Sokoban.boxesShown s).card < (Sokoban.goalsOf s).card := by
    intro s g hr hg
    rw [hr.boxesShown, hr.goalsOf, hr.roundNum]
    exact hg
  obtain ⟨s, g, hr, rfl, rfl⟩ | ⟨s, g, keys, hr, rfl, rfl⟩ | ⟨s, g, keys, hr, rfl, rfl⟩ := h.cases
  · exact hshort s g hr he
  · exact hshort s g hr he
  · exact he.elim

/-- **The account of the boxes.** -/
theorem boxes_account {s : Vars} (ho : s.onRestart = 0) (hp : s.prev = 0xffff) (keys : List Byte) {rounds : Nat}
    (hrounds : keys.length < rounds) : ∃ o, SokobanMain rounds s keys = some o ∧ Accounts o ∧
      ∀ t, o = .waits t → (boxesShown t).card < (goalsOf t).card → ∀ more : List Byte,
        (∀ k ∈ more, k ≠ ascii 'r' ∧ k ≠ ascii 'R') →
        ∃ o', SokobanMain (rounds + more.length) s (keys ++ more) = some o' ∧ Stranded t.roundNum o' := by
  have h0 : 0 < MAXSTAGE := by decide
  have hrepr := beginStage_repr (s := { s with roundNum := 0 }) h0 rfl ho hp
  obtain ⟨o, hrun, hagree⟩ := loop_plays hrepr (start_all 0 h0).2 hrounds
  refine ⟨o, hrun, accounts_of_ends hagree (run_fits h0 (start_fits 0 h0) keys), ?_⟩
  rintro t rfl hlost more hmore
  obtain ⟨t, g, hr, ⟨⟩, hg⟩ | ⟨_, _, _, _, ⟨⟩, _⟩ | ⟨_, _, _, _, ⟨⟩, _⟩ := hagree.cases
  have hlen : (keys ++ more).length < rounds + more.length := by
    rw [List.length_append]
    omega
  obtain ⟨o', hrun', hagree'⟩ := loop_plays hrepr (start_all 0 h0).2 hlen
  refine ⟨o', hrun', stranded_of_ends hagree' ?_⟩
  rw [run_append hg]
  have hshort : g.Short := by
    rw [hr.boxesShown, hr.goalsOf] at hlost
    exact hlost
  exact run_short hr.roundNum.symm hshort hmore

/-- the game waits with a box too few -/
def shortOf : Outcome Vars → Bool
  | .waits s => decide ((boxesShown s).card < (goalsOf s).card)
  | _ => false

theorem boxes_account_lost : ∃ t, SokobanMain 90 firstGame lostBox = some (.waits t) ∧
    (boxesShown t).card < (goalsOf t).card ∧ ∀ more : List Byte, (∀ k ∈ more, k ≠ ascii 'r' ∧ k ≠ ascii 'R') →
      ∃ o', SokobanMain (90 + more.length) firstGame (lostBox ++ more) = some o' ∧ Stranded t.roundNum o' := by
  obtain ⟨o, hrun, -, hlost⟩ := boxes_account (s := firstGame) rfl rfl lostBox (by decide : lostBox.length < 90)
  have hshort : (SokobanMain 90 firstGame lostBox).map shortOf = some true := by decide +kernel
  rw [hrun] at hshort
  cases o with
  | waits t =>
    have hcard : (boxesShown t).card < (goalsOf t).card := by simpa [shortOf] using hshort
    exact ⟨t, hrun, hcard, hlost t rfl hcard⟩
  | quits | wins | faults => cases hshort

/-! ## solutions by the ordinary rules -/

/-- the steps solve the stage `r`, with the last one and without a box pushed against another -/
structure Solves (r : Nat) (ds : List Pos) : Prop where
  smooth : (level r).Smooth (Play.start r).pos ds
  solved : (level r).Solved ((level r).play (Play.start r).pos ds)
  first : ∀ n < ds.length, ¬ (level r).Solved ((level r).play (Play.start r).pos (ds.take n))

theorem move_smooth {g : Play} {d : Pos} (h : ¬ (level g.stage).Jams g.pos d) :
    (g.move d).pos = (level g.stage).push g.pos d := if_neg h

theorem run_smooth {g : Play} {ds : List Pos} {keys : List Byte} (hkeys : keys.map keyOf = ds.map Key.arrow)
    (hds : ds ≠ []) (hsmooth : (level g.stage).Smooth g.pos ds) (hsolved : (level g.stage).Solved ((level g.stage).play g.pos ds))
    (hfirst : ∀ n < ds.length, ¬ (level g.stage).Solved ((level g.stage).play g.pos (ds.take n))) (rest : List Byte) :
    ∃ g', g.run (keys ++ rest) =
      if g.stage + 1 < MAXSTAGE then (Play.start (g.stage + 1)).run rest else .wins g' rest := by
  induction ds generalizing g keys with
  | nil => exact absurd rfl hds
  | cons d ds ih =>
    cases keys with
    | nil => cases hkeys
    | cons k keys =>
      obtain ⟨hkey, htail⟩ : keyOf k = .arrow d ∧ keys.map keyOf = ds.map Key.arrow := by simpa using hkeys
      obtain ⟨hjam, hsmooth'⟩ := hsmooth
      have hpos := move_smooth hjam
      have hstage : (g.move d).stage = g.stage := rfl
      rw [List.cons_append]
      by_cases e : ds = []
      · subst e
        obtain rfl : keys = [] := by simpa using htail
        have hs : (g.move d).Solved := by
          rw [Play.Solved, hstage, hpos]
          exact hsolved
        exact ⟨g.move d, run_solved rest hkey hs⟩
      · have hs : ¬ (g.move d).Solved := by
          rw [Play.Solved, hstage, hpos]
          have hlen := List.length_pos_iff.mpr e
          exact hfirst 1 (by rw [List.length_cons]; omega)
        rw [run_open _ hkey hs]
        refine ih (g := g.move d) htail e ?_ ?_ ?_
        · rw [hstage, hpos]
          exact hsmooth'
        · rw [hstage, hpos]
          exact hsolved
        · intro n hn
          rw [hstage, hpos]
          exact hfirst (n + 1) (by rw [List.length_cons]; omega)

/-- no stage is solved from the start -/
theorem Solves.ne_nil {r : Nat} {ds : List Pos} (hr : r < MAXSTAGE) (h : Solves r ds) : ds ≠ [] := by
  rintro rfl
  exact (start_all r hr).2 h.solved

/-- **A solution of each stage, with any arrows as the keys that are returned, wins the game.** -/
theorem solutions_win {s : Vars} (ho : s.onRestart = 0) (hp : s.prev = 0xffff) {ds₀ ds₁ : List Pos} (h₀ : Solves 0 ds₀)
    (h₁ : Solves 1 ds₁) {keys₀ keys₁ : List Byte} (hkeys₀ : keys₀.map keyOf = ds₀.map Key.arrow)
    (hkeys₁ : keys₁.map keyOf = ds₁.map Key.arrow) (rest : List Byte) {rounds : Nat}
    (hrounds : (keys₀ ++ (keys₁ ++ rest)).length < rounds) :
    ∃ t, SokobanMain rounds s (keys₀ ++ (keys₁ ++ rest)) = some (.wins t rest) := by
  have h0 : 0 < MAXSTAGE := by decide
  have hrepr := beginStage_repr (s := { s with roundNum := 0 }) h0 rfl ho hp
  obtain ⟨o, hrun, hagree⟩ := loop_plays hrepr (start_all 0 h0).2 hrounds
  obtain ⟨g₀, hg₀⟩ := run_smooth (g := .start 0) hkeys₀ (h₀.ne_nil h0) h₀.smooth h₀.solved h₀.first (keys₁ ++ rest)
  obtain ⟨g₁, hg₁⟩ := run_smooth (g := .start 1) hkeys₁ (h₁.ne_nil (by decide)) h₁.smooth h₁.solved h₁.first rest
  have hsecond : (Play.start 0).run (keys₀ ++ (keys₁ ++ rest)) = (Play.start 1).run (keys₁ ++ rest) := hg₀
  have hlast : (Play.start 1).run (keys₁ ++ rest) = .wins g₁ rest := hg₁
  rw [hsecond, hlast] at hagree
  obtain ⟨_, _, _, _, ⟨⟩⟩ | ⟨_, _, _, _, _, ⟨⟩⟩ | ⟨t, g, keys, hr, rfl, ⟨⟩⟩ := hagree.cases
  exact ⟨t, hrun⟩

theorem firstSolution_solves : Solves 0 firstSolution := ⟨by decide +kernel, by decide +kernel, by decide +kernel⟩

theorem secondSolution_solves : Solves 1 secondSolution := ⟨by decide +kernel, by decide +kernel, by decide +kernel⟩

theorem solutions_win_typed : ∃ t,
    SokobanMain 100 firstGame (firstSolution.map arrowKey ++ (secondSolution.map arrowKey ++ [ascii 'q'])) =
      some (.wins t [ascii 'q']) :=
  solutions_win rfl rfl firstSolution_solves secondSolution_solves (by rfl) (by rfl) [ascii 'q'] (by decide)

end Clubcos.Sokoban
