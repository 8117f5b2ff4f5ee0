import Clubcos.Lib.Bytes
import Clubcos.Lib.Chain
import Clubcos.Lib.Word

/-!
# edimg.c: the image editor

A disk image with the file allocation table FAT12 or FAT16 is edited by the commands of a script.

* `Image`          the static variables of edimg.c;
* `resizefile`     the clusters of a file, taken and given back;
* `dir_search`, `dir_create`   the entries of the root directory;
* `readfile`, `writefile`, `ovrwritefile`, `deletefile`   files of the image and files of the host.
-/

namespace Clubcos.Edimg
open Bytes Word

abbrev Path : Type := List (BitVec 8)

/-- how edimg stops before the end of its script: `errend(code)`, `panic_tek()`; `running` is a loop that has not come to
its end, and behind an `overrun` of the memory that it has allocated anything may happen -/
inductive Halt where
  | errend (code : Nat)
  | panic_tek
  | running
  | overrun
  deriving DecidableEq

def SIZ_IMGBUF : Nat := 8 * 1024 * 1024 + 1024
def SIZ_FILEBUF : Nat := 2 * 1024 * 1024 + 1024

/-- the entries of `fat`, for which `main` allocates `65536 * 2` bytes -/
def SIZ_FAT : Nat := 65536

/-- `struct sar_attrtime`, without `permission` and the unused `year_h` -/
structure SarAttrTime where
  attr : Nat
  subsec : Int
  sec : Nat
  min : Nat
  hour : Nat
  day : Nat
  mon : Nat
  year : Nat

structure Image where
  filebuf0 : Nat → BitVec 8
  len_filebuf : Nat
  imgbuf0 : Nat → BitVec 8
  len_imgbuf : Nat
  len_sec : Nat
  len_clu : Nat
  limit_fat : Nat
  /-- `SIZ_FAT` of them are allocated; `test_BPB` is stopped in front of a longer table, and clusters are below `limit_fat` -/
  fat : Nat → Nat
  BPB : Nat
  fat0 : Nat
  fat1 : Nat
  dir0 : Nat
  clu0002 : Nat
  flag : Nat
  bias : Int
  fbuf_at : SarAttrTime
  /-- the files of the host -/
  host : Path → Option (List (BitVec 8))

/-- what the host lets edimg do: `fopen(path, "wb")` and `remove(path)`, and the times that `stat` returns -/
structure Os where
  writable : Path → Bool
  removable : Path → Bool
  mtime : Path → Option SarAttrTime

/-! ## the file allocation table -/

def free_cluster (limit_fat : Nat) (fat : Nat → Nat) (i : Nat) : Except Halt Nat :=
  match (List.range' i (limit_fat - i)).find? fun j => fat j = 0 with
  | some j => .ok j
  | none => .error (.errend 18)

/-- the loop at `freeloop` -/
def freeLoop : Nat → (Nat → Nat) → Nat → Except Halt (Nat → Nat)
  | 0, _, _ => .error .running
  | fuel + 1, fat, i =>
    let j := fat i
    let fat := Function.update fat i 0
    if j < 0xfff7 then freeLoop fuel fat j else .ok fat

/-- `freeloop` sees every entry of `fat` once at most -/
def freeAll (fat : Nat → Nat) (i : Nat) : Except Halt (Nat → Nat) := freeLoop 65537 fat i

/-- the loop of `resizefile`, with `clusters` of them still to be passed -/
def resizeLoop (limit_fat : Nat) : (clusters : Nat) → (fat : Nat → Nat) → (i alloc0 : Nat) → Except Halt (Nat → Nat)
  | 0, fat, _, _ => .ok fat
  | 1, fat, i, _ =>
    let j := fat i
    if 0xfff8 ≤ j then .ok fat
    else
      let fat := Function.update fat i 0xffff
      if j < 0xfff7 then freeAll fat j else .ok fat
  | clusters + 2, fat, i, alloc0 =>
    let j := fat i
    if 0xfff8 ≤ j then
      match free_cluster limit_fat fat alloc0 with
      | .error e => .error e
      | .ok a =>
        resizeLoop limit_fat (clusters + 1) (Function.update (Function.update fat i a) a 0xffff) a (a + 1)
    else resizeLoop limit_fat (clusters + 1) fat j alloc0

/-- the first cluster of the file and the table behind `resizefile`, for a file whose first cluster was `i` -/
def resizeFat (limit_fat : Nat) (fat : Nat → Nat) (i clusters alloc0 : Nat) : Except Halt (Nat × (Nat → Nat)) :=
  if clusters = 0 then
    if i = 0 then .ok (i, fat)
    else (freeAll fat i).map fun fat => (0, fat)
  else if i = 0 then
    match free_cluster limit_fat fat alloc0 with
    | .error e => .error e
    | .ok a => (resizeLoop limit_fat clusters (Function.update fat a 0xffff) a (a + 1)).map fun fat => (a, fat)
  else (resizeLoop limit_fat clusters fat i alloc0).map fun fat => (i, fat)

/-- the 16-bit and 32-bit fields of an entry -/
def Image.word (s : Image) (a : Nat) : Nat := ofLe (read s.imgbuf0 a 2)
def Image.dword (s : Image) (a : Nat) : Nat := ofLe (read s.imgbuf0 a 4)
def Image.store (s : Image) (a : Nat) (bs : List (BitVec 8)) : Image := { s with imgbuf0 := write s.imgbuf0 a bs }

def resizefile (s : Image) (entry clusters alloc0 : Nat) : Except Halt Image :=
  (resizeFat s.limit_fat s.fat (s.word (entry + 0x1a)) clusters alloc0).map fun r =>
    { s.store (entry + 0x1a) (toLe 2 r.1) with fat := r.2 }

/-! ## the root directory -/

def toUpper (c : BitVec 8) : BitVec 8 := if 0x61 ≤ c.toNat ∧ c.toNat ≤ 0x7a then c - 0x20 else c

/-- what is in `FAT_filename` before the blanks at its end -/
def filenameLoop : (name acc : List (BitVec 8)) → List (BitVec 8)
  | [], acc => acc
  | c :: name, acc =>
    let acc := if toUpper c = 0x2e then acc ++ List.replicate (8 - acc.length) 0x20 else acc ++ [toUpper c]
    if acc.length < 11 then filenameLoop name acc else acc

def FAT_filename (name : List (BitVec 8)) : List (BitVec 8) :=
  let acc := filenameLoop name []
  acc ++ List.replicate (11 - acc.length) 0x20

/-- the byte `c` of `dir_search`, which is 0 if the entry at `p` is the one looked for -/
def entryDiff (m : Nat → BitVec 8) (p : Nat) (filename : List (BitVec 8)) (attr_mask attr_comp : BitVec 8) : BitVec 8 :=
  (List.range 11).foldl (fun c i => c ||| (m (p + i) ^^^ filename.getD i 0)) 0 |||
    ((m (p + 11) &&& attr_mask) ^^^ attr_comp)

def searchLoop (s : Image) (filename : List (BitVec 8)) (attr_mask attr_comp : BitVec 8) : Nat → Nat → Option Nat
  | 0, _ => none
  | fuel + 1, p =>
    if s.imgbuf0 p = 0 then none
    else if entryDiff s.imgbuf0 p filename attr_mask attr_comp = 0 then some p
    else if p + 32 < s.clu0002 then searchLoop s filename attr_mask attr_comp fuel (p + 32)
    else none

def dir_search (s : Image) (name : List (BitVec 8)) (attr_mask attr_comp : BitVec 8) : Option Nat :=
  if s.flag &&& 0x03 = 0 then none
  else searchLoop s (FAT_filename name) attr_mask attr_comp (s.clu0002 - s.dir0 + 1) s.dir0

/-- the loop of `dir_create`: the entry to use, and the directory with an end behind it -/
def createLoop (s : Image) : Nat → Nat → Except Halt (Nat × Image)
  | 0, _ => .error .running
  | fuel + 1, p =>
    if p < s.clu0002 then
      if s.imgbuf0 p = 0 then
        .ok (p, if p + 32 < s.clu0002 then s.store (p + 32) [0] else s)
      else if s.imgbuf0 p = 0xe5 then .ok (p, s)
      else createLoop s fuel (p + 32)
    else .error (.errend 18)

def dir_create (s : Image) (name : List (BitVec 8)) (attr_mask attr_comp attr_create : BitVec 8) :
    Except Halt (Nat × Image) :=
  match dir_search s name attr_mask attr_comp with
  | some p => .ok (p, s)
  | none => (createLoop s (s.clu0002 - s.dir0 + 1) s.dir0).map fun r =>
      (r.1, r.2.store r.1 (FAT_filename name ++ attr_create :: List.replicate 20 0))

/-! ## the time of a file -/

/-- The entry of June is 60 in edimg.c. -/
def days : List Nat := [31, 28, 31, 30, 31, 60, 31, 31, 30, 31, 30, 31]

def SarAttrTime.max (at_ : SarAttrTime) : Nat :=
  if at_.mon = 2 ∧ at_.year % 4 = 0 ∧ (at_.year % 100 ≠ 0 ∨ at_.year % 400 = 0) then days.getD (at_.mon - 1) 0 + 1
  else days.getD (at_.mon - 1) 0

/-- the day after the last one of its month, for `min` from 0 on -/
def SarAttrTime.carry (at_ : SarAttrTime) : SarAttrTime :=
  if at_.max < at_.day then
    if 12 < (at_.mon + 1) % 256 then { at_ with day := at_.day - at_.max, mon := 1, year := u32 (at_.year + 1) }
    else { at_ with day := at_.day - at_.max, mon := (at_.mon + 1) % 256 }
  else at_

/-- the day before the first one of its month, for `min` below 0; `day` is an unsigned byte -/
def SarAttrTime.borrow (at_ : SarAttrTime) : SarAttrTime :=
  if at_.day = 0 then
    let mon := (at_.mon + 255) % 256
    let at_ := if mon = 0 then { at_ with mon := 12, year := sub32 at_.year 1 } else { at_ with mon := mon }
    { at_ with day := (at_.day + at_.max) % 256 }
  else at_

def sar_shifttime (at_ : SarAttrTime) (min : Int) : SarAttrTime :=
  let m := min + at_.min
  let at₁ := { at_ with min := (m % 60).toNat }
  let h := m / 60 + at_.hour
  let at₂ := { at₁ with hour := (h % 24).toNat, day := ((at_.day + h / 24) % 256).toNat }
  if 0 ≤ min then if m / 60 ≠ 0 then at₂.carry else at₁
  else if m / 60 < 0 then at₂.borrow else at₁

/-- the words at `0x16` and `0x18` of an entry -/
def timeBytes (at_ : SarAttrTime) : List (BitVec 8) :=
  toLe 2 (at_.hour <<< 11 ||| at_.min <<< 5 ||| at_.sec >>> 1) ++
    toLe 2 (sub32 at_.year 1980 <<< 9 ||| at_.mon <<< 5 ||| at_.day)

def attrByte (at_ : SarAttrTime) : BitVec 8 :=
  BitVec.ofNat 8 (at_.attr >>> 7 &&& 0x07) ||| (if at_.attr &&& 0x400 = 0 then 0 else 0x20)

/-- what `writefile` and `ovrwritefile` put into the entry at `q` -/
def storeAttrTime (s : Image) (q flags : Nat) : Image :=
  let s := if flags &&& 0x01 = 0 then s else s.store (q + 0x0b) [attrByte s.fbuf_at]
  if flags &&& 0x04 = 0 then s
  else s.store (q + 0x16) (if s.fbuf_at.subsec = -1 then toLe 4 0 else timeBytes (sar_shifttime s.fbuf_at s.bias))

/-- what `readfile` takes from the entry at `p` -/
def loadAttrTime (s : Image) (p flags : Nat) : SarAttrTime :=
  let attr := (s.imgbuf0 (p + 0x0b)).toNat
  let at_ := if flags &&& 0x01 = 0 then s.fbuf_at
    else { s.fbuf_at with attr := (attr &&& 0x07) <<< 7 ||| if attr &&& 0x20 = 0 then 0 else 0x400 }
  if flags &&& 0x04 = 0 then at_
  else
    let date := s.word (p + 0x18)
    let time := s.word (p + 0x16)
    if date = 0 then { at_ with subsec := -1 }
    else sar_shifttime { at_ with subsec := 0, year := 1980 + date >>> 9, mon := date >>> 5 &&& 0x0f, day := date &&& 0x1f,
                                  hour := time >>> 11, min := time >>> 5 &&& 0x3f, sec := time <<< 1 &&& 0x3f } (-s.bias)

/-- what `readfile` clears before it reads -/
def resetAttrTime (at_ : SarAttrTime) (flags : Nat) : SarAttrTime :=
  let at_ := if flags &&& 0x02 = 0 then at_ else { at_ with attr := 0 }
  if flags &&& 0x08 = 0 then at_ else { at_ with subsec := -1 }

/-- what `getattrtime` takes from the host; the bits of `attr` that are read are 0 -/
def hostAttrTime (os : Os) (path : Path) (at_ : SarAttrTime) (flags : Nat) : SarAttrTime :=
  let at_ := if flags &&& 0x01 = 0 then at_ else { at_ with attr := 0 }
  if flags &&& 0x04 = 0 then at_
  else match os.mtime path with
    | some t => { t with attr := at_.attr, subsec := 0 }
    | none => { at_ with subsec := -1 }

/-! ## files -/

/-- the name in a path that begins with `@:` -/
def imageName : Path → Option (List (BitVec 8))
  | 0x40 :: 0x3a :: r =>
    let r := if r.head? = some 0x5c then r.tail else r
    some (if r.head? = some 0x2f then r.tail else r)
  | _ => none

/-- the address of cluster `j` -/
def Image.clusterAt (s : Image) (j : Nat) : Nat := s.clu0002 + (j - 2) * s.len_clu

/-- the loop of `readfile`, with `i` bytes still to be read -/
def readLoop (s : Image) : Nat → (j i q : Nat) → (Nat → BitVec 8) → Except Halt (Nat → BitVec 8)
  | 0, _, _, _, _ => .error .running
  | fuel + 1, j, i, q, buf =>
    if j < 2 then .error (.errend 13)
    else if 0xfff7 ≤ j then .error (.errend 13)
    else if SIZ_IMGBUF < s.clusterAt j + s.len_clu then .error (.errend 13)
    else
      let buf := write buf q (read s.imgbuf0 (s.clusterAt j) s.len_clu)
      if s.len_clu < i then readLoop s fuel (s.fat j) (i - s.len_clu) (q + s.len_clu) buf else .ok buf

def readHost (os : Os) (s : Image) (path : Path) (flags : Nat) : Except Halt Image :=
  match s.host path with
  | none => .error (.errend 13)
  | some file =>
    if SIZ_FILEBUF ≤ file.length then .error (.errend 13)
    else .ok { s with filebuf0 := write s.filebuf0 0 file, len_filebuf := file.length,
                      fbuf_at := hostAttrTime os path s.fbuf_at flags }

/-- what is read at `image:` -/
def readImage (s : Image) (r : List (BitVec 8)) (flags : Nat) : Except Halt Image :=
  match dir_search s r 0xd8 0x00 with
  | none => .error (.errend 13)
  | some p =>
    if SIZ_FILEBUF < s.dword (p + 0x1c) + s.len_clu then .error (.errend 13)
    else (readLoop s (s.dword (p + 0x1c) + 1) (s.word (p + 0x1a)) (s.dword (p + 0x1c)) 0 s.filebuf0).map fun buf =>
      { s with filebuf0 := buf, len_filebuf := s.dword (p + 0x1c), fbuf_at := loadAttrTime s p flags }

def readfile (os : Os) (s : Image) (path : Path) (flags : Nat) : Except Halt Image :=
  let s := { s with fbuf_at := resetAttrTime s.fbuf_at flags }
  match imageName path with
  | none => readHost os s path flags
  | some r => readImage s r flags

/-- the loop of `writefile` and, without the zeros behind the last byte, of `ovrwritefile`, with `i` bytes still to be
written from `r` on -/
def writeLoop (pad : Bool) (code : Nat) : Nat → (s : Image) → (j i r : Nat) → Except Halt Image
  | 0, _, _, _, _ => .error .running
  | fuel + 1, s, j, i, r =>
    if j < 2 then .error (.errend code)
    else if 0xfff7 ≤ j then .error (.errend code)
    else if SIZ_IMGBUF < s.clusterAt j + s.len_clu then .error (.errend code)
    else
      let bytes :=
        if s.len_clu ≤ i then read s.filebuf0 r s.len_clu
        else read s.filebuf0 r i ++ if pad then List.replicate (s.len_clu - i) 0 else []
      let s := s.store (s.clusterAt j) bytes
      if s.len_clu < i then writeLoop pad code fuel s (s.fat j) (i - s.len_clu) (r + s.len_clu) else .ok s

def ceilDiv (n k : Nat) : Nat := (n + k - 1) / k

/-- `fopen`, `fwrite`; an old file keeps what is behind the new bytes if it is opened with `"r+b"` -/
def writeHost (os : Os) (code : Nat) (keep : Bool) (s : Image) (path : Path) : Except Halt Image :=
  let file := read s.filebuf0 0 s.len_filebuf
  let old := if keep then (s.host path).getD [] else []
  if os.writable path then .ok { s with host := Function.update s.host path (some (file ++ old.drop file.length)) }
  else .error (.errend code)

def writefile (os : Os) (s : Image) (path : Path) (alloc0 : Nat) (asiz : Option Nat) (flags : Nat) : Except Halt Image :=
  match imageName path with
  | none => writeHost os 14 false s path
  | some r =>
    let asiz := asiz.getD (ceilDiv s.len_filebuf s.len_clu)
    if s.flag &&& 0x03 = 0 then .error (.errend 18)
    else do
      let d ← dir_create s r 0xd8 0x00 0x00
      let q := d.1
      let s ← resizefile d.2 q asiz alloc0
      let s := storeAttrTime (s.store (q + 0x1c) (toLe 4 s.len_filebuf)) q flags
      writeLoop true 14 (s.len_filebuf + 1) s (s.word (q + 0x1a)) s.len_filebuf 0

/-- the clusters and the size in `ovrwritefile`, for a file that gets longer -/
def growfile (s : Image) (q asiz alloc0 : Nat) : Except Halt Image :=
  if s.dword (q + 0x1c) < s.len_filebuf then
    (resizefile s q asiz alloc0).map fun s => s.store (q + 0x1c) (toLe 4 s.len_filebuf)
  else .ok s

def ovrwritefile (os : Os) (s : Image) (path : Path) (alloc0 : Nat) (asiz : Option Nat) (flags : Nat) :
    Except Halt Image :=
  let asiz := asiz.getD (ceilDiv s.len_filebuf s.len_clu)
  match imageName path with
  | none => writeHost os 15 true s path
  | some r =>
    if s.flag &&& 0x03 = 0 then .error (.errend 18)
    else do
      let d ← dir_create s r 0xd8 0x00 0x00
      let q := d.1
      let s ← growfile d.2 q asiz alloc0
      let s := storeAttrTime s q flags
      writeLoop false 15 (s.len_filebuf + 1) s (s.word (q + 0x1a)) s.len_filebuf 0

def deletefile (os : Os) (s : Image) (path : Path) : Except Halt Image :=
  match imageName path with
  | none => .ok (if os.removable path then { s with host := Function.update s.host path none } else s)
  | some r =>
    if s.flag &&& 0x03 = 0 then .error (.errend 21)
    else match dir_search s r 0xd8 0x00 with
      | none => .ok s
      | some p => (resizefile s p 0 0).map fun s => s.store p [0xe5]

def setattrfile (s : Image) (path : Path) (attr : BitVec 8) : Except Halt Image :=
  match imageName path with
  | none => .error (.errend 22)
  | some r =>
    if s.flag &&& 0x03 = 0 then .error (.errend 22)
    else match dir_search s r 0xd8 0x00 with
      | none => .error (.errend 22)
      | some p => .ok (s.store (p + 11) [attr])

/-! ## commands -/

/-- `autodecomp2(siz0, p0, siz)` with the bytes from `p0` on in `m`: a compressed file is refused, and any other one keeps
its size -/
def autodecomp2 (siz0 : Nat) (m : Nat → BitVec 8) (siz : Nat) : Except Halt Nat :=
  let t := ofLe (read m 0x00 4)
  let size := BitVec.ofNat 32 (ofLe (read m 0x10 4)) + BitVec.ofNat 32 siz - 0x14
  if ofLe (read m 0x08 4) = 0x5341534f ∧ ofLe (read m 0x0c 4) = 0x504d434b ∧ ofLe (read m 0x04 4) = 1 then
    if 0xffffff81 ≤ t ∧ t ≤ 0xffffff82 then
      if size.toInt ≤ siz0 then .error .panic_tek else .ok siz
    else if 0xffffff83 ≤ t ∧ t ≤ 0xffffff89 then .error .panic_tek
    else .ok siz
  else .ok siz

/-- what `nocmp` does to the file that is read -/
def decompressFile (nocmp : Bool) (s : Image) : Except Halt Image :=
  if nocmp then (autodecomp2 SIZ_FILEBUF s.filebuf0 s.len_filebuf).map fun siz => { s with len_filebuf := siz }
  else .ok s

def cmd_copy (os : Os) (s : Image) (nocmp : Bool) (src dst : Path) : Except Halt Image := do
  let s ← readfile os s src 0x0f
  let s ← decompressFile nocmp s
  writefile os s dst 2 none 0x07

def cmd_ovrcopy (os : Os) (s : Image) (nocmp : Bool) (src dst : Path) : Except Halt Image := do
  let s ← readfile os s src 0x0f
  let s ← decompressFile nocmp s
  ovrwritefile os s dst 2 none 0x04

/-- `filebuf0` with `size` zeros in it -/
def blankFile (s : Image) (size : Nat) : Image :=
  { s with filebuf0 := write s.filebuf0 0 (List.replicate size 0), len_filebuf := size }

def cmd_create (os : Os) (s : Image) (file : Path) (size : Nat) (asiz : Option Nat) (begin : Nat) : Except Halt Image :=
  if SIZ_FILEBUF ≤ size then .error (.errend 19)
  else writefile os (blankFile s size) file begin (asiz.map fun n => ceilDiv n s.len_clu) 0x00

def cmd_ovrcreate (os : Os) (s : Image) (file : Path) (size : Nat) (asiz : Option Nat) (begin : Nat) :
    Except Halt Image :=
  if SIZ_FILEBUF ≤ size then .error (.errend 20)
  else ovrwritefile os (blankFile s size) file begin (asiz.map fun n => ceilDiv n s.len_clu) 0x00

/-- `release mini` and `release minibpb` shorten the table to its last entry in use -/
def miniLoop (fat : Nat → Nat) : Nat → Nat
  | 0 => 0
  | n + 1 => if 2 < n + 1 ∧ fat n = 0 then miniLoop fat n else n + 1

def release_mini (s : Image) : Except Halt Image :=
  if s.flag &&& 0x03 = 0 then .error (.errend 26)
  else .ok { s with limit_fat := miniLoop s.fat s.limit_fat, len_imgbuf := s.clusterAt (miniLoop s.fat s.limit_fat) }

def release_zerofill (s : Image) : Except Halt Image :=
  if s.flag &&& 0x03 = 0 then .error (.errend 26)
  else .ok ((List.range' 2 (s.limit_fat - 2)).foldl (fun s j =>
    if s.fat j = 0 then s.store (s.clusterAt j) (List.replicate s.len_clu 0) else s) s)

end Clubcos.Edimg
