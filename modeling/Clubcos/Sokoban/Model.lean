import Mathlib.Logic.Function.Basic
import Clubcos.Keyboard.Table

/-!
# skout-sokoban.c

The variables of the game, and the keys that `ckTerminalGetch` returns as a list.  An access outside of `stage` ends
in `faults`, a call of `ckTerminalGetch` with no key left in `waits`.

* `StageData`, `beginStage`      the stages, and the top of the outer loop of `SokobanMain`;
* `getch`                        a key from 0x80 on comes as 0xe0 and, in the next call, the key;
* `movePlayer`, `PlayerMoveAction`, `TestStageClear`
* `SokobanMain`                  `rounds` bounds the number of rounds of the inner loop.

What is drawn is left out, with the delays of `LoadingStage` and the wait for a line after a stage is cleared.
-/

set_option linter.unusedVariables false

namespace Clubcos.Sokoban
open Word

/-- a column and a row -/
abbrev Pos : Type := Int × Int

def MAXSTAGE : Nat := 2

/-- a row of walls, "#####################" -/
def bricks : List Char := List.replicate 21 '#'

def StageData : List (List (List Char)) := [
  [bricks, bricks, bricks, bricks, bricks, bricks, bricks,
    ['#','#',' ',' ',' ','O',' ',' ',' ',' ',' ',' ',' ',' ',' ',' ',' ',' ','.','#','#'],
    ['#','#',' ','@',' ','O',' ',' ',' ',' ',' ',' ',' ',' ',' ',' ',' ',' ','.','#','#'],
    ['#','#',' ',' ',' ','O',' ',' ',' ',' ',' ',' ',' ',' ',' ',' ',' ',' ','.','#','#'],
    bricks, bricks, bricks, bricks, bricks, bricks, bricks, bricks],
  [bricks, bricks, bricks, bricks, bricks,
    ['#','#','#','#','#','#','#','#','#','#','.','#','#','#','#','#','#','#','#','#','#'],
    ['#','#','#','#','#','#','#','#','#','#',' ','#','#','#','#','#','#','#','#','#','#'],
    ['#','#','#','#','#','#','#','#','#','#','O','@','O','.','#','#','#','#','#','#','#'],
    ['#','#','#','#','#','#','#','.',' ',' ','O','O',' ','#','#','#','#','#','#','#','#'],
    ['#','#','#','#','#','#','#','#','#','#','#',' ','#','#','#','#','#','#','#','#','#'],
    ['#','#','#','#','#','#','#','#','#','#','#','.','#','#','#','#','#','#','#','#','#'],
    bricks, bricks, bricks, bricks, bricks, bricks] ]

/-- `StageData[r][y][x]`; what an initialiser leaves out is zero -/
def stageData (r : Nat) (p : Pos) : Byte :=
  (((StageData.getD r []).getD p.2.toNat []).map ascii).getD p.1.toNat 0

structure Vars where
  stage : Pos → Byte
  roundNum : Nat
  roundx : Int
  roundy : Int
  numMove : Int
  onRestart : Int
  /-- the static variable of `getch` -/
  prev : BitVec 16

/-- inside of `char stage[18][21]` -/
def InStage (p : Pos) : Prop := 0 ≤ p.1 ∧ p.1 < 21 ∧ 0 ≤ p.2 ∧ p.2 < 18

instance (p : Pos) : Decidable (InStage p) := inferInstanceAs (Decidable (_ ∧ _))

def Vars.cell (s : Vars) (p : Pos) : Option Byte := if InStage p then some (s.stage p) else none

def Vars.store (s : Vars) (p : Pos) (c : Byte) : Option Vars :=
  if InStage p then some { s with stage := Function.update s.stage p c } else none

/-! ## the stages -/

/-- the cells that the loops over a stage visit, in their order: the last column is never one of them -/
def cells : List Pos := (List.range 18).flatMap fun y : Nat => (List.range 20).map fun x : Nat => ((x : Int), (y : Int))

/-- one round of the loops that look for the player -/
def placePlayer (s : Vars) (p : Pos) : Vars :=
  if s.stage p = ascii '@' then
    { s with roundx := p.1, roundy := p.2, stage := Function.update s.stage p (ascii ' ') }
  else s

def beginStage (s : Vars) : Vars :=
  let s := cells.foldl placePlayer { s with stage := stageData s.roundNum }
  { s with numMove := 0 }

def TestStageClear (s : Vars) : Bool :=
  cells.all fun p => !(stageData s.roundNum p == ascii '.' && s.stage p != ascii 'O')

/-! ## the keys -/

/-- an arrow of the number pad is an arrow -/
def numArrow (cascii : Byte) : Byte :=
  if cascii = Cascii.numUp then Cascii.up
  else if cascii = Cascii.numDown then Cascii.down
  else if cascii = Cascii.numLeft then Cascii.left
  else if cascii = Cascii.numRight then Cascii.right
  else cascii

/-- `none` is to wait for a key -/
def getch (s : Vars) (keys : List Byte) : Option (Byte × Vars × List Byte) :=
  if s.prev ≠ 0xffff then some (numArrow (s.prev.setWidth 8), { s with prev := 0xffff }, keys)
  else match keys with
    | [] => none
    | cascii :: keys =>
      if cascii < 0x80 then some (cascii, s, keys)
      else some (0xe0, { s with prev := cascii.setWidth 16 }, keys)

/-- `dx` and `dy` -/
def direction (ch : Byte) : Option Pos :=
  if ch = Cascii.left then some (-1, 0)
  else if ch = Cascii.right then some (1, 0)
  else if ch = Cascii.up then some (0, -1)
  else if ch = Cascii.down then some (0, 1)
  else none

/-! ## the moves -/

def Vars.front (s : Vars) (d : Pos) : Pos := (s.roundx + d.1, s.roundy + d.2)

def Vars.beyond (s : Vars) (d : Pos) : Pos := (s.roundx + d.1 * 2, s.roundy + d.2 * 2)

def Vars.walk (s : Vars) (d : Pos) : Vars :=
  { s with roundx := s.roundx + d.1, roundy := s.roundy + d.2, numMove := int32 (s.numMove + 1) }

def Vars.pushBox (s : Vars) (d : Pos) : Option Vars :=
  (s.store (s.front d) (ascii ' ')).bind fun t => t.store (s.beyond d) (ascii 'O')

def movePlayer (s : Vars) (d : Pos) : Option Vars :=
  (s.cell (s.front d)).bind fun c =>
    if c = ascii '#' then some s
    else if c = ascii 'O' then
      (s.cell (s.beyond d)).bind fun b =>
        if b = ascii ' ' then (s.pushBox d).map (Vars.walk · d)
        -- the goal is asked of StageData, so a box that is there already goes unnoticed
        else if stageData s.roundNum (s.beyond d) = ascii '.' then (s.pushBox d).map (Vars.walk · d)
        else if b = ascii '#' then some s
        else some (s.walk d)
    else some (s.walk d)

def Restart (s : Vars) : Vars := { s with onRestart := 1 }

inductive Turn where
  | waits (s : Vars)
  | quits (s : Vars) (keys : List Byte)
  | faults
  | returns (s : Vars) (keys : List Byte)

def PlayerMoveAction (s : Vars) (keys : List Byte) : Turn :=
  match getch s keys with
  | none => .waits s
  | some (ch, s, keys) =>
    if ch = Cascii.esc then .quits s keys
    else if ch = ascii 'r' ∨ ch = ascii 'R' then .returns (Restart s) keys
    else if ch = 0xe0 then
      match getch s keys with
      | none => .waits s
      | some (ch, s, keys) =>
        match direction ch with
        | none => .returns s keys
        | some d =>
          match movePlayer s d with
          | none => .faults
          | some s => .returns s keys
    else .returns s keys

/-! ## the game -/

/-- how a game stands when its keys have been read, with the keys that it leaves -/
inductive Outcome (G : Type) where
  | waits (g : G)
  /-- `exit` in `PlayerMoveAction` -/
  | quits (g : G) (keys : List Byte)
  /-- `exit` behind "all stage clear!" -/
  | wins (g : G) (keys : List Byte)
  | faults

def SokobanLoop : (rounds : Nat) → Vars → List Byte → Option (Outcome Vars)
  | 0, _, _ => none
  | rounds + 1, s, keys =>
    match PlayerMoveAction s keys with
    | .waits s => some (.waits s)
    | .quits s keys => some (.quits s keys)
    | .faults => some .faults
    | .returns s keys =>
      if s.onRestart = 1 then SokobanLoop rounds (beginStage { s with onRestart := 0 }) keys
      else if TestStageClear s then
        if s.roundNum < MAXSTAGE - 1 then SokobanLoop rounds (beginStage { s with roundNum := s.roundNum + 1 }) keys
        else some (.wins s keys)
      else SokobanLoop rounds s keys

def SokobanMain (rounds : Nat) (s : Vars) (keys : List Byte) : Option (Outcome Vars) :=
  SokobanLoop rounds (beginStage { s with roundNum := 0 }) keys

end Clubcos.Sokoban
