import Clubcos.Edimg.Dir

/-!
# edimg.c: images loaded and saved

* `readBPB`, `test_BPB`   the boot sector of a disk, and the table behind it, which `fat` has to have room for;
* `opt_imgin`             an image file of the host is loaded;
* `opt_imgout`            the table is put back, and the image is a file of the host again.
-/

namespace Clubcos.Edimg
open Bytes Word

/-! ## the file allocation table in the image -/

/-- the bytes of `fat` in the order of the memory -/
def fatByte (fat : Nat → Nat) (i : Nat) : BitVec 8 := BitVec.ofNat 8 (fat (i / 2) >>> (8 * (i % 2)))

/-- the loops of `test_BPB` and `opt_imgout` for FAT16 -/
def loadFat16 (m : Nat → BitVec 8) (fat0 len_fat : Nat) (fat : Nat → Nat) : Nat → Nat :=
  (List.range (len_fat / 2)).foldl (fun fat t => Function.update fat t (ofLe (read m (fat0 + 2 * t) 2))) fat

def saveFat16 (fat : Nat → Nat) (fat0 len_fat : Nat) (m : Nat → BitVec 8) : Nat → BitVec 8 :=
  (List.range len_fat).foldl (fun m i => Function.update m (fat0 + i) (fatByte fat i)) m

/-- the numbers from `0xff7` on are no clusters -/
def extend12 (v : Nat) : Nat := if 0xff7 ≤ v then v ||| 0xf000 else v

/-- two entries of FAT12, which are three bytes at `q` -/
def unpack12 (m : Nat → BitVec 8) (q : Nat) : Nat × Nat :=
  (extend12 ((m q).toNat ||| (m (q + 1) &&& 0x0f).toNat <<< 8),
    extend12 ((m (q + 1) >>> 4 &&& 0x0f).toNat ||| (m (q + 2)).toNat <<< 4))

def loadFat12 (m : Nat → BitVec 8) (fat0 len_fat : Nat) (fat : Nat → Nat) : Nat → Nat :=
  (List.range (ceilDiv len_fat 3)).foldl (fun fat t =>
    let s := unpack12 m (fat0 + 3 * t)
    Function.update (Function.update fat (2 * t) s.1) (2 * t + 1) s.2) fat

/-- one round of the loop of `opt_imgout` for FAT12; the table may end in the middle of two entries -/
def pack12 (fat : Nat → Nat) (fat0 len_fat : Nat) (m : Nat → BitVec 8) (t : Nat) : Nat → BitVec 8 :=
  let i := 3 * t
  let a := fat (2 * t)
  let b := fat (2 * t + 1)
  let m :=
    if i + 1 < len_fat then
      let m := Function.update m (fat0 + i) (BitVec.ofNat 8 a)
      Function.update m (fat0 + i + 1) (m (fat0 + i + 1) &&& 0xf0 ||| BitVec.ofNat 8 (a >>> 8) &&& 0x0f)
    else m
  if i + 2 < len_fat then
    let m := Function.update m (fat0 + i + 1) (m (fat0 + i + 1) &&& 0x0f ||| BitVec.ofNat 8 (b <<< 4) &&& 0xf0)
    Function.update m (fat0 + i + 2) (BitVec.ofNat 8 (b >>> 4))
  else m

def saveFat12 (fat : Nat → Nat) (fat0 len_fat : Nat) (m : Nat → BitVec 8) : Nat → BitVec 8 :=
  (List.range (ceilDiv len_fat 3)).foldl (pack12 fat fat0 len_fat) m

/-- the second table -/
def copyFat (fat0 fat1 len_fat : Nat) (zero : Bool) (m : Nat → BitVec 8) : Nat → BitVec 8 :=
  (List.range len_fat).foldl (fun m i => Function.update m (fat1 + i) (if zero then 0 else m (fat0 + i))) m

/-! ## the boot sector -/

/-- what `test_BPB` takes from the boot sector: `len_fat` in bytes, and the length that the image has to have -/
structure Bpb where
  places : Places
  limit_fat : Nat
  len_fat : Nat
  len_img : Nat

/-- the bits of `flag` for the kind of the table, and the limit that SF16 gives -/
def fatKind (m : Nat → BitVec 8) (p i : Nat) : Nat × Nat :=
  if read m (p + 0x36) 3 = [0x46, 0x41, 0x54] ∧ read m (p + 0x3b) 3 = [0x20, 0x20, 0x20] then
    if m (p + 0x39) ≠ 0x31 then (0, i + 2)
    else if m (p + 0x3a) = 0x36 then
      if read m (p + 0x40) 4 = [0x53, 0x46, 0x31, 0x36] then (5, ofLe (read m (p + 0x44) 2)) else (1, i + 2)
    else if m (p + 0x3a) = 0x32 then (2, i + 2)
    else (0, i + 2)
  else if 0xff5 < i then (1, i + 2)
  else (2, i + 2)

/-- the end of the last cluster, as an `int` -/
def imageEnd (clu0002 limit_fat len_clu : Nat) : BitVec 32 := BitVec.ofNat 32 (clu0002 + u32 (sub32 limit_fat 2 * len_clu))

/-- The bits 3 to 7 of `flag` are those of `flags`. -/
def readBPB (m : Nat → BitVec 8) (p flags : Nat) : Option Bpb :=
  let secs := m (p + 0x0c)
  let clus := m (p + 0x0d)
  let fats := (m (p + 0x10)).toNat
  let len_sys := ofLe (read m (p + 0x0e) 2)
  let len_dir := ofLe (read m (p + 0x11) 2)
  let len_fat := ofLe (read m (p + 0x16) 2)
  let len_sec := secs.toNat <<< 8
  let small := ofLe (read m (p + 0x13) 2)
  let total := BitVec.ofNat 32 (if small = 0 then ofLe (read m (p + 0x20) 4) else small)
  let i := total - BitVec.ofNat 32 len_sys - BitVec.ofNat 32 (len_fat * fats) - BitVec.ofNat 32 (len_dir * 32 / len_sec)
  if m (p + 0x0b) ≠ 0 ∨ secs = 0 ∨ secs &&& (secs - 1) ≠ 0 ∨ clus = 0 ∨ clus &&& (clus - 1) ≠ 0 ∨
      (fats ≠ 2 ∧ fats ≠ 1) ∨ len_dir = 0 ∨ len_fat = 0 ∨ i.toInt < 0 then none
  else
    let kind := fatKind m p (i.toNat / clus.toNat)
    if kind.1 = 0 then none
    else
      let len_fat := len_fat * len_sec
      let fat0 := p + len_sys * len_sec
      let fat1 := if fats = 2 then fat0 + len_fat else fat0
      let dir0 := fat1 + len_fat
      let clu0002 := dir0 + len_dir * 32
      let len_clu := len_sec * clus.toNat
      let limit_fat := if (SIZ_IMGBUF : Int) < (imageEnd clu0002 kind.2 len_clu).toInt then
        (SIZ_IMGBUF - clu0002) / len_clu + 2 else kind.2
      some ⟨⟨flags ||| kind.1, len_sec, len_clu, p, fat0, fat1, dir0, clu0002⟩, limit_fat, len_fat,
        (imageEnd clu0002 limit_fat len_clu).toNat⟩

/-- the table of SF16 in which `0xfffe` is a chain that goes on with the next cluster -/
def restoreEfat (fat : Nat → Nat) : Nat → Nat := fun i =>
  if i = 0 then fat 0 ^^^ 0x0007
  else if 2 ≤ i ∧ i < 0xfff6 ∧ fat i = 0xfffe then i + 1
  else fat i

/-- what `test_BPB` does with the boot sector that it has found -/
def loadFat (s : Image) (b : Bpb) : Image :=
  let p := b.places.BPB
  let s := { s with
    flag := b.places.flag, len_sec := b.places.len_sec, len_clu := b.places.len_clu, BPB := p
    fat0 := b.places.fat0, fat1 := b.places.fat1, dir0 := b.places.dir0, clu0002 := b.places.clu0002
    limit_fat := b.limit_fat, len_imgbuf := max s.len_imgbuf b.len_img }
  let s := if s.flag &&& 1 = 0 then s else { s with fat := loadFat16 s.imgbuf0 s.fat0 b.len_fat s.fat }
  let s := if s.flag &&& 1 = 0 ∨ s.flag &&& 4 = 0 then s
    else { s with fat := if s.imgbuf0 (p + 0x47) &&& 0x10 = 0 then s.fat else restoreEfat s.fat,
                  imgbuf0 := Function.update s.imgbuf0 (p + 0x47) (s.imgbuf0 (p + 0x47) &&& 0xcf) }
  if s.flag &&& 2 = 0 then s else { s with fat := loadFat12 s.imgbuf0 s.fat0 b.len_fat s.fat }

/-- the entries of `fat` that are stored -/
def Bpb.stored (b : Bpb) : Nat := if b.places.flag &&& 1 = 0 then 2 * ceilDiv b.len_fat 3 else b.len_fat / 2

/-- What a failed test leaves in the variables is overwritten by the next one. -/
def test_BPB (s : Image) (p : Nat) : Except Halt (Option Image) :=
  match readBPB s.imgbuf0 p (s.flag &&& 0xf8) with
  | none => .ok none
  | some b => if SIZ_FAT < b.stored then .error .overrun else .ok (some (loadFat s b))

/-! ## images -/

/-- the loop at `retry`, for headers of 65536 bytes -/
def skipHeaders (m : Nat → BitVec 8) : Nat → Nat → Except Halt Nat
  | 0, _ => .error .running
  | fuel + 1, bpb =>
    if ofLe (read m (bpb + 0x08) 4) = 0x54434350 ∧ ofLe (read m (bpb + 0x0c) 4) = 0x30304c4f then
      skipHeaders m fuel (bpb + 65536)
    else .ok bpb

/-- the first partition of a hard disk; `SIZ_IMGBUF / 512` is `8 * 1024 * 1024 + 1024 / 512` -/
def partition (m : Nat → BitVec 8) (bpb : Nat) : Option Nat :=
  if m (bpb + 0x1c9) = 0 ∧ ofLe (read m (bpb + 0x1c6) 3) < 8 * 1024 * 1024 + 1024 / 512 then
    some (bpb + ofLe (read m (bpb + 0x1c6) 3) <<< 9)
  else none

/-- `imgbuf0` with a file in it and zeros behind -/
def fileMemory (file : List (BitVec 8)) (m : Nat → BitVec 8) : Nat → BitVec 8 := fun a =>
  if a < SIZ_IMGBUF then file.getD a 0 else m a

/-- the boot sector is at the start of the image, or at that of the first partition -/
def searchBPB (s : Image) : Except Halt Image :=
  match skipHeaders s.imgbuf0 129 0 with
  | .error e => .error e
  | .ok bpb =>
    match test_BPB s bpb with
    | .error e => .error e
    | .ok (some s) => .ok s
    | .ok none =>
      match (partition s.imgbuf0 bpb).elim (.ok none) (test_BPB s) with
      | .error e => .error e
      | .ok (some s) => .ok s
      | .ok none => .error (.errend 17)

def opt_imgin (s : Image) (path : Path) : Except Halt Image :=
  match s.host path with
  | none => .error (.errend 16)
  | some file =>
    if file.length ≤ 20 ∨ SIZ_IMGBUF ≤ file.length then .error (.errend 16)
    else do
      let m := fileMemory file s.imgbuf0
      let len ← autodecomp2 SIZ_IMGBUF m file.length
      if len ≤ 512 then .error (.errend 16)
      else searchBPB { s with imgbuf0 := m, len_imgbuf := len }

/-- what `opt_imgout` does to the image -/
def saveFat (s : Image) : Image :=
  let len_fat := s.word (s.BPB + 0x16) * s.len_sec
  let s := if s.flag &&& 1 = 0 then s else { s with imgbuf0 := saveFat16 s.fat s.fat0 len_fat s.imgbuf0 }
  let s := if s.flag &&& 2 = 0 then s else { s with imgbuf0 := saveFat12 s.fat s.fat0 len_fat s.imgbuf0 }
  if s.fat0 < s.fat1 then
    { s with imgbuf0 := copyFat s.fat0 s.fat1 len_fat (s.flag &&& 4 ≠ 0 ∧ s.imgbuf0 (s.BPB + 0x47) &&& 0x10 ≠ 0) s.imgbuf0 }
  else s

def opt_imgout (os : Os) (s : Image) (path : Path) : Except Halt Image :=
  if s.word (s.BPB + 0x0b) ≠ s.len_sec then .error (.errend 37)
  else
    let s := saveFat s
    if os.writable path then .ok { s with host := Function.update s.host path (some (read s.imgbuf0 0 s.len_imgbuf)) }
    else .error (.errend 24)

end Clubcos.Edimg
