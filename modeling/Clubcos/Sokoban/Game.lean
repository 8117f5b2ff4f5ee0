import Mathlib.Data.Finset.Dedup
import Clubcos.Lib.Warehouse
import Clubcos.Sokoban.Model

/-!
# The game that SokobanMain plays

A game is the number of its stage, the player and the boxes in it, and the moves made.  Its rule is that of
`Warehouse`, but for a box with another box behind it: on a goal that one swallows it, elsewhere the player climbs on it.

* `loose`, `Play.move`    the rule of `PlayerMoveAction`;
* `Play.run`              a game along the keys typed, through both stages;
* `Repr`                  the variables that stand for a game;
* `movePlayer_repr`       a move of the code is a move of the game, without an access outside of `stage`;
* `sokoban_plays`         **every game of the code is a game by the rule, key by key**.
-/

set_option linter.unusedVariables false

namespace Clubcos.Sokoban
open Warehouse Word

/-- neither a wall nor in the row that StageData leaves out -/
def floor (r : Nat) (p : Pos) : Bool :=
  decide (0 ≤ p.1 ∧ p.1 < 20 ∧ 0 ≤ p.2 ∧ p.2 < 18) && [ascii ' ', ascii '.', ascii 'O', ascii '@'].contains (stageData r p)

def cellsWith (r : Nat) (c : Byte) : Finset Pos := (cells.filter fun p => stageData r p == c).toFinset

def level (r : Nat) : Level Pos Pos where
  wall p := !floor r p
  goals := cellsWith r (ascii '.')
  next p d := (p.1 + d.1, p.2 + d.2)

/-- The rule: a box that is pushed against another one is lost on a goal, and stays where it is elsewhere. -/
def loose (lv : Level Pos Pos) (s : Position Pos) (d : Pos) : Position Pos :=
  if lv.Jams s d then
    ⟨lv.front s d, if lv.beyond s d ∈ lv.goals then s.boxes.erase (lv.front s d) else s.boxes⟩
  else lv.push s d

structure Play where
  stage : Nat
  pos : Position Pos
  moves : Nat

def startPlayer (r : Nat) : Pos := (cells.find? fun p => stageData r p == ascii '@').getD (0, 0)

def Play.start (r : Nat) : Play := ⟨r, ⟨startPlayer r, cellsWith r (ascii 'O')⟩, 0⟩

def Play.move (g : Play) (d : Pos) : Play :=
  let pos := loose (level g.stage) g.pos d
  ⟨g.stage, pos, if pos.player = g.pos.player then g.moves else g.moves + 1⟩

def Play.Solved (g : Play) : Prop := (level g.stage).Solved g.pos

instance (g : Play) : Decidable g.Solved := inferInstanceAs (Decidable (Level.Solved _ _))

inductive Key where
  | escape
  | restart
  | arrow (d : Pos)
  | other

def keyOf (cascii : Byte) : Key :=
  if cascii = Cascii.esc then .escape
  else if cascii = ascii 'r' ∨ cascii = ascii 'R' then .restart
  else (direction (numArrow cascii)).elim .other .arrow

def Play.run : Play → List Byte → Outcome Play
  | g, [] => .waits g
  | g, k :: keys =>
    match keyOf k with
    | .escape => .quits g keys
    | .restart => (Play.start g.stage).run keys
    | .other => g.run keys
    | .arrow d =>
      if (g.move d).Solved then
        if g.stage + 1 < MAXSTAGE then (Play.start (g.stage + 1)).run keys else .wins (g.move d) keys
      else (g.move d).run keys

section
variable {g : Play} {k : Byte} {d : Pos} (keys : List Byte)

theorem run_escape (h : keyOf k = .escape) : g.run (k :: keys) = .quits g keys := by simp only [Play.run, h]

theorem run_restart (h : keyOf k = .restart) : g.run (k :: keys) = (Play.start g.stage).run keys := by
  simp only [Play.run, h]

theorem run_other (h : keyOf k = .other) : g.run (k :: keys) = g.run keys := by simp only [Play.run, h]

theorem run_open (h : keyOf k = .arrow d) (hs : ¬ (g.move d).Solved) :
    g.run (k :: keys) = (g.move d).run keys := by
  simp only [Play.run, h, if_neg hs]

theorem run_solved (h : keyOf k = .arrow d) (hs : (g.move d).Solved) : g.run (k :: keys) =
    if g.stage + 1 < MAXSTAGE then (Play.start (g.stage + 1)).run keys else .wins (g.move d) keys := by
  simp only [Play.run, h, if_pos hs]

end

/-! ## the stages -/

theorem mem_cells {p : Pos} : p ∈ cells ↔ 0 ≤ p.1 ∧ p.1 < 20 ∧ 0 ≤ p.2 ∧ p.2 < 18 := by
  obtain ⟨x, y⟩ := p
  simp only [cells, List.mem_flatMap, List.mem_map, List.mem_range, Prod.mk.injEq]
  constructor
  · rintro ⟨j, hj, i, hi, rfl, rfl⟩
    omega
  · intro h
    exact ⟨y.toNat, by omega, x.toNat, by omega, by omega, by omega⟩

theorem mem_cellsWith {r : Nat} {c : Byte} {p : Pos} : p ∈ cellsWith r c ↔ p ∈ cells ∧ stageData r p = c := by
  simp [cellsWith]

theorem floor_iff {r : Nat} {p : Pos} : floor r p = true ↔
    p ∈ cells ∧ (stageData r p = ascii ' ' ∨ stageData r p = ascii '.' ∨ stageData r p = ascii 'O' ∨
      stageData r p = ascii '@') := by
  simp [floor, mem_cells]

theorem floor_of_mem {r : Nat} {c : Byte} {p : Pos} (h : p ∈ cellsWith r c)
    (hc : c = ascii '.' ∨ c = ascii 'O' ∨ c = ascii '@') : floor r p = true := by
  obtain ⟨hp, e⟩ := mem_cellsWith.mp h
  rw [floor_iff]
  refine ⟨hp, ?_⟩
  rw [e]
  simp only [hc, or_true]

theorem not_floor {r : Nat} {p : Pos} (h : stageData r p = ascii '#') : floor r p ≠ true := by
  rw [Ne, floor_iff, h]
  simp [ascii]

theorem wall_of_data {r : Nat} {p : Pos} (h : stageData r p = ascii '#') : (level r).wall p = true := by
  simpa [level] using not_floor h

def dirs : List Pos := [(-1, 0), (1, 0), (0, -1), (0, 1)]

/-- the cell beside `p` is in `stage`, and a floor or a wall -/
def closed (r : Nat) (p d : Pos) : Bool :=
  decide (InStage ((level r).next p d)) &&
    (floor r ((level r).next p d) || stageData r ((level r).next p d) == ascii '#')

theorem closed_all : ∀ r < MAXSTAGE, ∀ p ∈ cells, floor r p = true → ∀ d ∈ dirs, closed r p d = true := by
  decide +kernel

theorem player_all : ∀ r < MAXSTAGE, ∀ p ∈ cells, stageData r p = ascii '@' ↔ p = startPlayer r := by
  decide +kernel

theorem start_all : ∀ r < MAXSTAGE, startPlayer r ∈ cells ∧ ¬ (Play.start r).Solved := by
  decide +kernel

/-- no player leaves the floor -/
theorem beside_floor {r : Nat} {p d : Pos} (hr : r < MAXSTAGE) (hp : floor r p = true) (hd : d ∈ dirs) :
    InStage ((level r).next p d) ∧
      (floor r ((level r).next p d) = true ∨ stageData r ((level r).next p d) = ascii '#') := by
  have h := closed_all r hr p (floor_iff.mp hp).1 hp d hd
  simpa [closed] using h

theorem next_ne {r : Nat} {p d : Pos} (hd : d ∈ dirs) : (level r).next p d ≠ p := by
  obtain ⟨x, y⟩ := p
  intro e
  have hx : x + d.1 = x := congrArg Prod.fst e
  have hy : y + d.2 = y := congrArg Prod.snd e
  obtain rfl : d = (0, 0) := Prod.ext (by show d.1 = 0; omega) (by show d.2 = 0; omega)
  simp [dirs] at hd

/-- a step that moves the player -/
theorem Play.move_moves {g : Play} {d : Pos} {q : Position Pos} (h : loose (level g.stage) g.pos d = q)
    (hq : q.player ≠ g.pos.player) : g.move d = ⟨g.stage, q, g.moves + 1⟩ := by
  rw [Play.move, h, if_neg hq]

theorem Play.move_stays {g : Play} {d : Pos} (h : loose (level g.stage) g.pos d = g.pos) : g.move d = g := by
  rw [Play.move, h, if_pos rfl]

/-! ## the variables that stand for a game -/

structure Repr (s : Vars) (g : Play) : Prop where
  stage : g.stage < MAXSTAGE
  roundNum : s.roundNum = g.stage
  player : (s.roundx, s.roundy) = g.pos.player
  moves : s.numMove = int32 g.moves
  sound : Sound (level g.stage) g.pos
  /-- a floor shows a box, a blank or a goal -/
  box : ∀ p, floor g.stage p = true → (s.stage p = ascii 'O' ↔ p ∈ g.pos.boxes)
  free : ∀ p, floor g.stage p = true → s.stage p ≠ ascii 'O' →
    s.stage p = ascii ' ' ∨ s.stage p = ascii '.' ∧ stageData g.stage p = ascii '.'
  rest : ∀ p, floor g.stage p ≠ true → s.stage p = stageData g.stage p
  onRestart : s.onRestart = 0
  prev : s.prev = 0xffff

section
variable {s : Vars} {g : Play} {d : Pos} (h : Repr s g)
include h

theorem Repr.floor_player : floor g.stage g.pos.player = true := by simpa [level] using h.sound.player

theorem Repr.floor_box {b : Pos} (hb : b ∈ g.pos.boxes) : floor g.stage b = true := by
  simpa [level] using h.sound.boxes b hb

theorem Repr.front : s.front d = (level g.stage).front g.pos d := by
  show _ = ((level g.stage).next g.pos.player d)
  rw [← h.player]
  rfl

theorem Repr.beyond : s.beyond d = (level g.stage).beyond g.pos d := by
  show _ = (level g.stage).next ((level g.stage).next g.pos.player d) d
  rw [← h.player]
  simp only [Vars.beyond, level, Prod.mk.injEq]
  omega

theorem Repr.wall {p : Pos} (hp : stageData g.stage p = ascii '#') : s.stage p = ascii '#' :=
  (h.rest p (not_floor hp)).trans hp

theorem Repr.not_wall {p : Pos} (hp : floor g.stage p = true) : s.stage p ≠ ascii '#' := by
  intro e
  have hO : s.stage p ≠ ascii 'O' := by simp [e, ascii]
  rcases h.free p hp hO with e' | ⟨e', -⟩
  · simp [e, ascii] at e'
  · simp [e, ascii] at e'

theorem Repr.counted : int32 (s.numMove + 1) = int32 ((g.moves + 1 : Nat) : Int) := by
  rw [h.moves, int32, int32, Int.bmod_add_bmod]
  rfl

/-- the player goes to a cell of the floor -/
theorem Repr.walk (hf : floor g.stage ((level g.stage).front g.pos d) = true) :
    Repr (s.walk d) ⟨g.stage, ⟨(level g.stage).front g.pos d, g.pos.boxes⟩, g.moves + 1⟩ where
  stage := h.stage
  roundNum := h.roundNum
  player := h.front
  moves := h.counted
  sound := ⟨by simpa [level] using hf, h.sound.boxes⟩
  box := h.box
  free := h.free
  rest := h.rest
  onRestart := h.onRestart
  prev := h.prev

/-- the box in front of the player goes to the cell behind it, whatever is there -/
theorem Repr.shift (hd : d ∈ dirs) (hf : floor g.stage ((level g.stage).front g.pos d) = true)
    (hb : floor g.stage ((level g.stage).beyond g.pos d) = true) :
    ∃ t, (s.pushBox d).map (Vars.walk · d) = some t ∧
      Repr t ⟨g.stage, (level g.stage).shift g.pos d, g.moves + 1⟩ := by
  have hfin : InStage ((level g.stage).front g.pos d) := (beside_floor h.stage h.floor_player hd).1
  have hbin : InStage ((level g.stage).beyond g.pos d) := (beside_floor h.stage hf hd).1
  have hne : (level g.stage).beyond g.pos d ≠ (level g.stage).front g.pos d := next_ne hd
  obtain ⟨st, hst⟩ : ∃ st, st = Function.update (Function.update s.stage ((level g.stage).front g.pos d) (ascii ' '))
      ((level g.stage).beyond g.pos d) (ascii 'O') := ⟨_, rfl⟩
  have hpush : s.pushBox d = some { s with stage := st } := by
    rw [Vars.pushBox, h.front, h.beyond, Vars.store, if_pos hfin, hst]
    exact if_pos hbin
  have hfront : st ((level g.stage).front g.pos d) = ascii ' ' := by
    rw [hst, Function.update_of_ne hne.symm, Function.update_self]
  have hbeyond : st ((level g.stage).beyond g.pos d) = ascii 'O' := by rw [hst, Function.update_self]
  have hother : ∀ p, p ≠ (level g.stage).front g.pos d → p ≠ (level g.stage).beyond g.pos d → st p = s.stage p := by
    intro p hp hp'
    rw [hst, Function.update_of_ne hp', Function.update_of_ne hp]
  rw [hpush]
  refine ⟨_, rfl, h.stage, h.roundNum, h.front, h.counted, ?_, ?_, ?_, ?_, h.onRestart, h.prev⟩
  · exact h.sound.shift (by simpa [level] using hf) (by simpa [level] using hb)
  · intro p hp
    show st p = ascii 'O' ↔ p ∈ insert _ (Finset.erase _ _)
    rw [Finset.mem_insert, Finset.mem_erase]
    by_cases e : p = (level g.stage).beyond g.pos d
    · simp [e, hbeyond]
    · by_cases e' : p = (level g.stage).front g.pos d
      · simp [e', hfront, hne.symm, ascii]
      · rw [hother p e' e, h.box p hp]
        simp [e, e']
  · intro p hp
    show st p ≠ ascii 'O' → st p = ascii ' ' ∨ st p = ascii '.' ∧ stageData g.stage p = ascii '.'
    by_cases e : p = (level g.stage).beyond g.pos d
    · simp [e, hbeyond]
    · by_cases e' : p = (level g.stage).front g.pos d
      · simp [e', hfront]
      · rw [hother p e' e]
        exact h.free p hp
  · intro p hp
    show st p = _
    rw [hother p (fun e => hp (e ▸ hf)) (fun e => hp (e ▸ hb))]
    exact h.rest p hp

/-- a box in front of the player -/
theorem Repr.movePlayer_box (hd : d ∈ dirs) (hf : floor g.stage ((level g.stage).front g.pos d) = true)
    (hbox : (level g.stage).front g.pos d ∈ g.pos.boxes) {b : Byte} (hb : s.stage ((level g.stage).beyond g.pos d) = b) :
    ∃ t, (if b = ascii ' ' then (s.pushBox d).map (Vars.walk · d)
      else if stageData g.stage ((level g.stage).beyond g.pos d) = ascii '.' then (s.pushBox d).map (Vars.walk · d)
      else if b = ascii '#' then some s
      else some (s.walk d)) = some t ∧ Repr t (g.move d) := by
  have hfw : (level g.stage).wall ((level g.stage).front g.pos d) = false := by simpa [level] using hf
  rcases (beside_floor h.stage hf hd).2 with hbf | hbw
  · have hbf' : floor g.stage ((level g.stage).beyond g.pos d) = true := hbf
    have hbw : (level g.stage).wall ((level g.stage).beyond g.pos d) = false := by simpa [level] using hbf'
    by_cases hjam : (level g.stage).beyond g.pos d ∈ g.pos.boxes
    · -- two boxes in a row
      have hO : b = ascii 'O' := hb ▸ (h.box _ hbf').mpr hjam
      have hgoal : (level g.stage).beyond g.pos d ∈ (level g.stage).goals ↔
          stageData g.stage ((level g.stage).beyond g.pos d) = ascii '.' := by
        show _ ∈ cellsWith _ _ ↔ _
        rw [mem_cellsWith, and_iff_right (floor_iff.mp hbf').1]
      rw [hO, if_neg (by simp [ascii])]
      by_cases e : stageData g.stage ((level g.stage).beyond g.pos d) = ascii '.'
      · rw [if_pos e]
        have hmove : g.move d = ⟨g.stage, (level g.stage).shift g.pos d, g.moves + 1⟩ := by
          have hne : (level g.stage).beyond g.pos d ≠ (level g.stage).front g.pos d := next_ne hd
          refine Play.move_moves ?_ (next_ne (r := g.stage) hd)
          rw [loose, if_pos ⟨hbox, hjam⟩, if_pos (hgoal.mpr e), Level.shift,
            Finset.insert_eq_of_mem (Finset.mem_erase.mpr ⟨hne, hjam⟩)]
        rw [hmove]
        exact h.shift hd hf hbf'
      · rw [if_neg e, if_neg (by simp [ascii])]
        refine ⟨_, rfl, ?_⟩
        have hmove : g.move d = ⟨g.stage, ⟨(level g.stage).front g.pos d, g.pos.boxes⟩, g.moves + 1⟩ := by
          refine Play.move_moves ?_ (next_ne (r := g.stage) hd)
          rw [loose, if_pos ⟨hbox, hjam⟩, if_neg (mt hgoal.mp e)]
        rw [hmove]
        exact h.walk hf
    · -- the cell behind the box is free
      have hmove : g.move d = ⟨g.stage, (level g.stage).shift g.pos d, g.moves + 1⟩ := by
        refine Play.move_moves ?_ (next_ne (r := g.stage) hd)
        rw [loose, if_neg fun hj => hjam hj.2, push_shift hfw hbox hbw hjam]
      have hgo : ∃ t, (s.pushBox d).map (Vars.walk · d) = some t ∧ Repr t (g.move d) := by
        rw [hmove]
        exact h.shift hd hf hbf'
      rcases h.free _ hbf' (mt (h.box _ hbf').mp hjam) with e | ⟨e, e'⟩
      · rw [if_pos (hb ▸ e)]
        exact hgo
      · rw [if_pos e', ite_self]
        exact hgo
  · -- a wall behind the box
    have hbw' : stageData g.stage ((level g.stage).beyond g.pos d) = ascii '#' := hbw
    have hb' : b = ascii '#' := hb ▸ h.wall hbw'
    have hwall : (level g.stage).wall ((level g.stage).beyond g.pos d) = true := wall_of_data hbw'
    have hjam : ¬ (level g.stage).Jams g.pos d := by
      intro hj
      have hw := h.sound.boxes _ hj.2
      rw [hwall] at hw
      cases hw
    rw [hb', hbw', if_neg (by simp [ascii]), if_neg (by simp [ascii]), if_pos rfl]
    refine ⟨_, rfl, ?_⟩
    rw [Play.move_stays (by rw [loose, if_neg hjam, push_stuck hbox (.inl hwall)])]
    exact h

/-- **A move of the code is a move of the game**, and inside of `stage`. -/
theorem Repr.movePlayer (hd : d ∈ dirs) : ∃ t, movePlayer s d = some t ∧ Repr t (g.move d) := by
  obtain ⟨hfin, hfw⟩ := beside_floor h.stage h.floor_player hd
  have hcell : s.cell (s.front d) = some (s.stage ((level g.stage).front g.pos d)) := by
    rw [h.front]
    exact if_pos hfin
  rw [Clubcos.Sokoban.movePlayer, hcell, Option.bind_some]
  rcases hfw with hf | hw
  · have hf' : floor g.stage ((level g.stage).front g.pos d) = true := hf
    rw [if_neg (h.not_wall hf')]
    by_cases hbox : (level g.stage).front g.pos d ∈ g.pos.boxes
    · have hcell' : s.cell (s.beyond d) = some (s.stage ((level g.stage).beyond g.pos d)) := by
        rw [h.beyond]
        exact if_pos (beside_floor h.stage hf' hd).1
      rw [if_pos ((h.box _ hf').mpr hbox), hcell', Option.bind_some, h.roundNum, h.beyond]
      exact h.movePlayer_box hd hf' hbox rfl
    · have hmove : g.move d = ⟨g.stage, ⟨(level g.stage).front g.pos d, g.pos.boxes⟩, g.moves + 1⟩ := by
        refine Play.move_moves ?_ (next_ne (r := g.stage) hd)
        rw [loose, if_neg fun hj => hbox hj.1, push_walk (by simpa [level] using hf') hbox]
      rw [if_neg (mt (h.box _ hf').mp hbox), hmove]
      exact ⟨_, rfl, h.walk hf'⟩
  · -- a wall in front of the player
    have hw' : stageData g.stage ((level g.stage).front g.pos d) = ascii '#' := hw
    have hwall : (level g.stage).wall ((level g.stage).front g.pos d) = true := wall_of_data hw'
    have hjam : ¬ (level g.stage).Jams g.pos d := by
      intro hj
      have hw := h.sound.boxes _ hj.1
      rw [hwall] at hw
      cases hw
    rw [if_pos (h.wall hw')]
    refine ⟨_, rfl, ?_⟩
    rw [Play.move_stays (by rw [loose, if_neg hjam, push_wall hwall])]
    exact h

/-- the stage is cleared when the game is solved -/
theorem Repr.clear_iff : TestStageClear s = true ↔ g.Solved := by
  have hfl : ∀ p ∈ cellsWith g.stage (ascii '.'), floor g.stage p = true := fun p hp => floor_of_mem hp (.inl rfl)
  rw [TestStageClear, List.all_eq_true]
  constructor
  · intro hc p hp
    have hc' := hc p (mem_cellsWith.mp hp).1
    rw [← h.box p (hfl p hp)]
    simpa [h.roundNum, (mem_cellsWith.mp hp).2] using hc'
  · intro hs p hp
    by_cases e : stageData g.stage p = ascii '.'
    · have hgoal : p ∈ cellsWith g.stage (ascii '.') := mem_cellsWith.mpr ⟨hp, e⟩
      have hbox := (h.box p (hfl p hgoal)).mpr (hs hgoal)
      simp [hbox]
    · simp [h.roundNum, e]

end

/-! ## the top of the outer loop -/

theorem placePlayer_none {cs : List Pos} {s : Vars} (h : ∀ p ∈ cs, s.stage p ≠ ascii '@') :
    cs.foldl placePlayer s = s := by
  induction cs with
  | nil => rfl
  | cons p cs ih =>
    rw [List.foldl_cons, placePlayer, if_neg (h p List.mem_cons_self)]
    exact ih fun q hq => h q (List.mem_cons_of_mem _ hq)

theorem placePlayer_one {cs : List Pos} {s : Vars} {q : Pos} (hq : q ∈ cs)
    (h : ∀ p ∈ cs, s.stage p = ascii '@' ↔ p = q) : cs.foldl placePlayer s =
      { s with roundx := q.1, roundy := q.2, stage := Function.update s.stage q (ascii ' ') } := by
  induction cs with
  | nil => cases hq
  | cons p cs ih =>
    have htail : ∀ p' ∈ cs, s.stage p' = ascii '@' ↔ p' = q := fun p' hp' => h p' (List.mem_cons_of_mem _ hp')
    rw [List.foldl_cons, placePlayer]
    by_cases e : p = q
    · subst e
      rw [if_pos ((h p List.mem_cons_self).mpr rfl)]
      refine placePlayer_none fun p' hp' => ?_
      show Function.update s.stage p (ascii ' ') p' ≠ _
      by_cases e' : p' = p
      · simp [e', ascii]
      · rw [Function.update_of_ne e']
        exact mt (htail p' hp').mp e'
    · rw [if_neg (mt (h p List.mem_cons_self).mp e)]
      exact ih ((List.mem_cons.mp hq).resolve_left (Ne.symm e)) htail

theorem beginStage_repr {s : Vars} {r : Nat} (hr : r < MAXSTAGE) (hround : s.roundNum = r) (ho : s.onRestart = 0)
    (hp : s.prev = 0xffff) : Repr (beginStage s) (Play.start r) := by
  obtain ⟨hq, -⟩ := start_all r hr
  have hat : stageData r (startPlayer r) = ascii '@' := (player_all r hr _ hq).mpr rfl
  have hfold := placePlayer_one (s := { s with stage := stageData s.roundNum }) hq fun p hp => hround ▸ player_all r hr p hp
  have hbegin : beginStage s = { s with
      roundx := (startPlayer r).1, roundy := (startPlayer r).2, numMove := 0
      stage := Function.update (stageData r) (startPlayer r) (ascii ' ') } := by
    rw [beginStage, hfold, hround]
  have hfloor : floor r (startPlayer r) = true := floor_of_mem (mem_cellsWith.mpr ⟨hq, hat⟩) (.inr (.inr rfl))
  rw [hbegin]
  refine ⟨hr, hround, rfl, Int.zero_bmod.symm, ⟨?_, ?_⟩, ?_, ?_, ?_, ho, hp⟩
  · show (!floor r (startPlayer r)) = false
    rw [hfloor, Bool.not_true]
  · intro b hb
    show (!floor r b) = false
    rw [floor_of_mem hb (.inr (.inl rfl)), Bool.not_true]
  · intro p hp
    show Function.update (stageData r) (startPlayer r) (ascii ' ') p = _ ↔ p ∈ cellsWith r (ascii 'O')
    rw [mem_cellsWith, and_iff_right (floor_iff.mp hp).1]
    by_cases e : p = startPlayer r
    · simp [e, hat, ascii]
    · rw [Function.update_of_ne e]
  · intro p hp
    show Function.update (stageData r) (startPlayer r) (ascii ' ') p ≠ _ →
      Function.update (stageData r) (startPlayer r) (ascii ' ') p = _ ∨
      Function.update (stageData r) (startPlayer r) (ascii ' ') p = _ ∧ stageData r p = _
    by_cases e : p = startPlayer r
    · simp [e]
    · rw [Function.update_of_ne e]
      intro hO
      obtain ⟨hcell, h | h | h | h⟩ := floor_iff.mp hp
      · exact .inl h
      · exact .inr ⟨h, h⟩
      · exact absurd h hO
      · exact absurd ((player_all r hr p hcell).mp h) e
  · intro p hp
    show Function.update (stageData r) (startPlayer r) (ascii ' ') p = _
    refine Function.update_of_ne ?_ _ _
    rintro rfl
    exact hp hfloor

/-! ## the keys -/

theorem direction_dirs {ch : Byte} {d : Pos} (h : direction ch = some d) : d ∈ dirs := by
  unfold direction at h
  split at h
  · cases h
    simp [dirs]
  · split at h
    · cases h
      simp [dirs]
    · split at h
      · cases h
        simp [dirs]
      · split at h
        · cases h
          simp [dirs]
        · cases h

/-- a key below 0x80 is one call of `getch` -/
theorem action_low {s : Vars} (hs : s.prev = 0xffff) {k : Byte} (hk : k < 0x80) (keys : List Byte) :
    PlayerMoveAction s (k :: keys) =
      if k = Cascii.esc then .quits s keys
      else if k = ascii 'r' ∨ k = ascii 'R' then .returns (Restart s) keys
      else .returns s keys := by
  have hget : getch s (k :: keys) = some (k, s, keys) := by
    rw [getch, if_neg (not_not_intro hs)]
    exact if_pos hk
  have hne : k ≠ 0xe0 := by
    rintro rfl
    exact absurd hk (by decide)
  simp only [PlayerMoveAction, hget, if_neg hne]

/-- any other key is two calls -/
theorem action_high {s : Vars} (hs : s.prev = 0xffff) {k : Byte} (hk : ¬ k < 0x80) (keys : List Byte) :
    PlayerMoveAction s (k :: keys) = (direction (numArrow k)).elim (.returns s keys) fun d =>
      (movePlayer s d).elim .faults fun t => .returns t keys := by
  have hget : getch s (k :: keys) = some (0xe0, { s with prev := k.setWidth 16 }, keys) := by
    rw [getch, if_neg (not_not_intro hs)]
    exact if_neg hk
  have hprev : (k.setWidth 16 : BitVec 16) ≠ 0xffff := by
    intro e
    have e' := congrArg BitVec.toNat e
    have hlt := k.isLt
    simp at e'
    omega
  have hback : (k.setWidth 16 : BitVec 16).setWidth 8 = k := by simp
  have hget' : getch { s with prev := k.setWidth 16 } keys = some (numArrow k, s, keys) := by
    rw [getch.eq_def, if_pos hprev]
    simp only [hback, ← hs]
  simp only [PlayerMoveAction, hget, hget']
  rw [if_neg (by decide), if_neg (by decide), if_pos trivial]
  cases direction (numArrow k) with
  | none => rfl
  | some d => cases e : movePlayer s d <;> simp [e]

theorem keyOf_low {k : Byte} (hk : k < 0x80) : keyOf k =
    if k = Cascii.esc then .escape else if k = ascii 'r' ∨ k = ascii 'R' then .restart else .other := by
  have hdir : direction (numArrow k) = none := by
    revert hk
    revert k
    decide
  rw [keyOf, hdir]
  rfl

theorem keyOf_high {k : Byte} (hk : ¬ k < 0x80) : keyOf k = (direction (numArrow k)).elim .other .arrow := by
  have he : k ≠ Cascii.esc := by
    rintro rfl
    exact hk (by decide)
  have hr : ¬ (k = ascii 'r' ∨ k = ascii 'R') := by
    rintro (rfl | rfl)
    · exact hk (by decide)
    · exact hk (by decide)
  rw [keyOf, if_neg he, if_neg hr]

/-! ## the game -/

/-- the same outcome, with variables that stand for the game, and the same keys left -/
def Agree : Outcome Vars → Outcome Play → Prop
  | .waits s, .waits g => Repr s g
  | .quits s keys, .quits g keys' => Repr s g ∧ keys = keys'
  | .wins s keys, .wins g keys' => Repr s g ∧ keys = keys'
  | _, _ => False

/-- what `SokobanLoop` does when `PlayerMoveAction` returns -/
theorem loop_returns {s t : Vars} {keys keys' : List Byte} {rounds : Nat}
    (h : PlayerMoveAction s keys = .returns t keys') : SokobanLoop (rounds + 1) s keys =
      if t.onRestart = 1 then SokobanLoop rounds (beginStage { t with onRestart := 0 }) keys'
      else if TestStageClear t then
        if t.roundNum < MAXSTAGE - 1 then SokobanLoop rounds (beginStage { t with roundNum := t.roundNum + 1 }) keys'
        else some (.wins t keys')
      else SokobanLoop rounds t keys' := by
  rw [SokobanLoop, h]

/-- a round that leaves the game open -/
theorem loop_open {s t : Vars} {g : Play} {keys keys' : List Byte} {rounds : Nat}
    (h : PlayerMoveAction s keys = .returns t keys') (ht : Repr t g) (hg : ¬ g.Solved) :
    SokobanLoop (rounds + 1) s keys = SokobanLoop rounds t keys' := by
  rw [loop_returns h, if_neg (by simp [ht.onRestart]), if_neg (mt ht.clear_iff.mp hg)]

/-- what a key does to the variables -/
def Key.turn (s : Vars) (keys : List Byte) : Key → Turn
  | .escape => .quits s keys
  | .restart => .returns (Restart s) keys
  | .arrow d => (movePlayer s d).elim .faults fun t => .returns t keys
  | .other => .returns s keys

theorem action_keyOf {s : Vars} {g : Play} (h : Repr s g) (k : Byte) (keys : List Byte) :
    PlayerMoveAction s (k :: keys) = (keyOf k).turn s keys := by
  by_cases hk : k < 0x80
  · rw [action_low h.prev hk, keyOf_low hk]
    split
    · rfl
    · split <;> rfl
  · rw [action_high h.prev hk, keyOf_high hk]
    cases direction (numArrow k) <;> rfl

theorem arrow_dirs {k : Byte} {d : Pos} (h : keyOf k = .arrow d) : d ∈ dirs := by
  unfold keyOf at h
  split at h
  · cases h
  · split at h
    · cases h
    · cases e : direction (numArrow k) with
      | none =>
        rw [e] at h
        cases h
      | some d' =>
        rw [e] at h
        cases h
        exact direction_dirs e

/-- the inner and the outer loop, from any game that is not solved -/
theorem loop_plays {s : Vars} {g : Play} {keys : List Byte} {rounds : Nat} (h : Repr s g) (hg : ¬ g.Solved)
    (hrounds : keys.length < rounds) : ∃ o, SokobanLoop rounds s keys = some o ∧ Agree o (g.run keys) := by
  induction keys generalizing s g rounds with
  | nil =>
    obtain ⟨n, rfl⟩ : ∃ n, rounds = n + 1 := ⟨rounds - 1, by omega⟩
    have hget : getch s [] = none := by
      rw [getch.eq_def, if_neg (not_not_intro h.prev)]
    refine ⟨.waits s, ?_, h⟩
    rw [SokobanLoop, PlayerMoveAction, hget]
  | cons k keys ih =>
    obtain ⟨n, rfl⟩ : ∃ n, rounds = n + 1 := ⟨rounds - 1, by omega⟩
    have hn : keys.length < n := by simpa using hrounds
    have hact := action_keyOf h k keys
    cases hkey : keyOf k with
    | escape =>
      rw [hkey] at hact
      rw [run_escape keys hkey]
      refine ⟨.quits s keys, ?_, h, rfl⟩
      rw [SokobanLoop, hact, Key.turn]
    | restart =>
      rw [hkey] at hact
      rw [run_restart keys hkey, loop_returns hact, if_pos (by rfl)]
      exact ih (beginStage_repr h.stage h.roundNum rfl h.prev) (start_all _ h.stage).2 hn
    | other =>
      rw [hkey] at hact
      rw [run_other keys hkey, loop_open hact h hg]
      exact ih h hg hn
    | arrow d =>
      obtain ⟨t, hmove, ht⟩ := h.movePlayer (arrow_dirs hkey)
      rw [hkey] at hact
      have hact' : PlayerMoveAction s (k :: keys) = .returns t keys := by
        rw [hact]
        show (movePlayer s d).elim _ _ = _
        rw [hmove]
        rfl
      have hstage : (g.move d).stage = g.stage := rfl
      by_cases hs : (g.move d).Solved
      · rw [run_solved keys hkey hs, loop_returns hact', if_neg (by simp [ht.onRestart]), if_pos (ht.clear_iff.mpr hs)]
        by_cases hlast : g.stage + 1 < MAXSTAGE
        · rw [if_pos hlast, if_pos (by rw [ht.roundNum, hstage]; omega)]
          refine ih (beginStage_repr hlast ?_ ht.onRestart ht.prev) (start_all _ hlast).2 hn
          show t.roundNum + 1 = _
          rw [ht.roundNum, hstage]
        · rw [if_neg hlast, if_neg (by rw [ht.roundNum, hstage]; omega)]
          exact ⟨_, rfl, ht, rfl⟩
      · rw [run_open keys hkey hs, loop_open hact' ht hs]
        exact ih ht hs hn

/-- **Every game of the code is a game by the rule**: whatever the keys are, it never leaves `stage`, it reads one key a
round, and at its end the variables are those that the next game starts from. -/
theorem sokoban_plays {s : Vars} (ho : s.onRestart = 0) (hp : s.prev = 0xffff) (keys : List Byte) {rounds : Nat}
    (hrounds : keys.length < rounds) :
    ∃ o, SokobanMain rounds s keys = some o ∧ Agree o ((Play.start 0).run keys) := by
  have hr : 0 < MAXSTAGE := by decide
  exact loop_plays (beginStage_repr hr rfl ho hp) (start_all 0 hr).2 hrounds

/-- the variables before the first game -/
def firstGame : Vars := ⟨fun _ => 0, 0, 0, 0, 0, 0, 0xffff⟩

theorem sokoban_plays_restart : ∃ o, SokobanMain 5 firstGame [Cascii.right, ascii 'r', Cascii.numUp, ascii 'x'] = some o ∧
    Agree o ((Play.start 0).run [Cascii.right, ascii 'r', Cascii.numUp, ascii 'x']) :=
  sokoban_plays rfl rfl _ (by decide)

end Clubcos.Sokoban
