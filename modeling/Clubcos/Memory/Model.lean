import Mathlib.Logic.Function.Basic
import Clubcos.Lib.Word

/-!
# memory.c: the buddy allocator of the dynamic memory

`DynMemStruct` is the structure of that name together with the metadata bytes that the `bits`
pointers of its bitmaps point into, so that a bit outside its bitmap is a bit of whatever byte lies
there.  Addresses and counters are natural numbers, with `u32` and `sub32` where the 32-bit
arithmetic of the source can wrap.

* `ckDynMemInitialize`   lays out the metadata and marks the leftover blocks;
* `ckDynMemAllocate`     `some (ret, g)`: the address returned (`0` for `NULL`) and the new state;
* `ckDynMemFree`         `some (ret, g)`: the flag returned and the new state.

`none` stands for a call that does not come back: a loop that never ends or a failed assertion.
-/

namespace Clubcos
open Word

def dynMemBuddyUnitSize : Nat := 4 * 1024
def dynMemoryStartAddress : Nat := 0x00100000
def iomapMemoryStartAddress : Nat := 0xbf800000
def dynMemoryMetadataAddr : Nat := 0xfffcf000
def sizeofBuddyBitmap : Nat := 8

structure BuddyBitmap where
  bits : Nat
  count : Nat

structure DynMemStruct where
  dynMemSize : Nat
  beginAddr : Nat
  usedSize : Nat
  countOfUnitBlock : Nat
  bitmapLevel : Nat
  arBitmap : Nat → BuddyBitmap
  /-- the bytes of the metadata area -/
  mem : Nat → BitVec 8
  /-- the bits that calls have set or cleared, as level and index, the last one first; no call looks at it -/
  touched : List (Nat × Nat)

def ceilUint32 (num base : Nat) : Nat := u32 (num + base - 1) / base * base

/-! ## bits -/

def DynMemStruct.bitAddr (g : DynMemStruct) (i idx : Nat) : Nat := (g.arBitmap i).bits + idx / 8

def DynMemStruct.setMem (g : DynMemStruct) (a : Nat) (b : BitVec 8) : DynMemStruct :=
  { g with mem := Function.update g.mem a b }

def DynMemStruct.touch (g : DynMemStruct) (i idx : Nat) : DynMemStruct :=
  { g with touched := (i, idx) :: g.touched }

def bitmapBitSet1 (g : DynMemStruct) (i idx : Nat) : DynMemStruct :=
  (g.setMem (g.bitAddr i idx) (g.mem (g.bitAddr i idx) ||| 1#8 <<< (idx % 8))).touch i idx

def bitmapBitSet0 (g : DynMemStruct) (i idx : Nat) : DynMemStruct :=
  (g.setMem (g.bitAddr i idx) (g.mem (g.bitAddr i idx) &&& ~~~(1#8 <<< (idx % 8)))).touch i idx

def bitmapGetBit (g : DynMemStruct) (i idx : Nat) : Bool :=
  g.mem (g.bitAddr i idx) &&& 1#8 <<< (idx % 8) != 0#8

def DynMemStruct.setCount (g : DynMemStruct) (i n : Nat) : DynMemStruct :=
  { g with arBitmap := Function.update g.arBitmap i { g.arBitmap i with count := n } }

/-- `repe scasb` from `edi` with `al = 0`; the address handed back is that of the last byte read -/
def memchrNotWithoutSize (mem : Nat → BitVec 8) : (ecx edi : Nat) → Nat
  | 0, edi => edi - 1
  | ecx+1, edi => if mem edi = 0#8 then memchrNotWithoutSize mem ecx (edi+1) else edi

/-- `for (num = 0; !(*pb & (1 << num)); num++)`; a zero byte has no such bit -/
def lowestBit (b : BitVec 8) : Option Nat := (List.range 8).find? fun num => b.getLsbD num

/-! ## initialization -/

/-- the loop that adds up the size of the metadata: `pb` behind the array of bitmaps, and
`BeginAddr` -/
def metadataLoop : (fuel sz pb beginAddr : Nat) → Nat × Nat
  | 0, _, pb, beginAddr => (pb, beginAddr)
  | fuel+1, sz, pb, beginAddr =>
    let pb := pb + sizeofBuddyBitmap
    let beginAddr := u32 (beginAddr + (sizeofBuddyBitmap + (sz - 1) / 8 + 1))
    if sz = 1 then (pb, beginAddr) else metadataLoop fuel (sz / 2) pb beginAddr

def memset (mem : Nat → BitVec 8) (dest : Nat) (ch : BitVec 8) (count : Nat) : Nat → BitVec 8 :=
  fun a => if dest ≤ a ∧ a < dest + count then ch else mem a

/-- the loop that clears the bitmaps and marks the leftover block of every odd level; the result is
the index of the last level, the bitmaps and the bytes -/
def bitmapLoop : (fuel sz pb i : Nat) → (Nat → BuddyBitmap) → (Nat → BitVec 8) →
    Nat × (Nat → BuddyBitmap) × (Nat → BitVec 8)
  | 0, _, _, i, ar, mem => (i, ar, mem)
  | fuel+1, sz, pb, i, ar, mem =>
    let mem := memset mem pb 0#8 ((sz - 1) / 8 + 1)
    let pbEnd := pb + ((sz - 1) / 8 + 1)
    let odd := sz % 2 ≠ 0
    let ar := Function.update ar i ⟨pb, if odd then 1 else 0⟩
    let mem := if odd then Function.update mem (pbEnd - 1) (1#8 <<< (sz % 8 - 1)) else mem
    if sz = 1 then (i, ar, mem) else bitmapLoop fuel (sz / 2) pbEnd (i+1) ar mem

/-- A block count is below `2^20`, so 32 rounds of either loop reach `sz = 1`. -/
def ckDynMemInitialize (mem : Nat → BitVec 8) (dynMemSize : Nat) : DynMemStruct :=
  let unit := dynMemBuddyUnitSize
  let meta_ := metadataLoop 32 (sub32 dynMemSize 1 / unit + 1) dynMemoryMetadataAddr
    dynMemoryStartAddress
  let beginAddr := ceilUint32 meta_.2 unit
  let dynSize := sub32 dynMemSize (sub32 beginAddr dynMemoryStartAddress)
  let sz := sub32 dynSize 1 / unit + 1
  let r := bitmapLoop 32 sz meta_.1 0 (fun _ => ⟨0, 0⟩) mem
  { dynMemSize := dynMemSize
    beginAddr := beginAddr
    usedSize := 0
    countOfUnitBlock := sz
    bitmapLevel := r.1 + 1
    arBitmap := r.2.1
    mem := r.2.2
    touched := [] }

/-! ## allocation -/

/-- `for (BitmapIdx = 0; (DYN_MEM_BUDDY_UNIT_SIZE << BitmapIdx) < size; BitmapIdx++)`; the machine
takes the shift count modulo 32, so a search that fails for 32 rounds never ends -/
def bitmapIdxLoop (size : Nat) : (fuel idx : Nat) → Option Nat
  | 0, _ => none
  | fuel+1, idx =>
    if u32 (dynMemBuddyUnitSize <<< idx) < size then bitmapIdxLoop size fuel (idx+1) else some idx

def bitmapIdx (size : Nat) : Option Nat := bitmapIdxLoop size 32 0

/-- `for (below = now - 1; below >= start; below--)`, where `n` levels are left to go down -/
def splitLoop (start : Nat) : (n block : Nat) → DynMemStruct → Nat × DynMemStruct
  | 0, block, g => (block, g)
  | n+1, block, g =>
    let below := start + n
    let g := bitmapBitSet1 g below (block * 2 + 1)
    splitLoop start n (block * 2) (g.setCount below (u32 ((g.arBitmap below).count + 1)))

/-- the body of the search loop at a level that has a free block -/
def takeBlock (g : DynMemStruct) (start size now : Nat) : Option (Nat × DynMemStruct) :=
  let bits := (g.arBitmap now).bits
  let pb := memchrNotWithoutSize g.mem 0xffffffff bits
  match lowestBit (g.mem pb) with
  | none => none
  | some num =>
    let block := (pb - bits) * 8 + num
    let g1 := (g.setMem pb (g.mem pb &&& ~~~(1#8 <<< num))).touch now block
    let g2 := g1.setCount now (sub32 (g1.arBitmap now).count 1)
    let r := splitLoop start (now - start) block g2
    some (u32 (g.beginAddr + r.1 * u32 (dynMemBuddyUnitSize <<< start)),
      { r.2 with usedSize := u32 (g.usedSize + size) })

/-- `for (now = start; now < end; now++)`, where `n` levels are left to go up -/
def allocLoop (g : DynMemStruct) (start size : Nat) : (n now : Nat) → Option (Nat × DynMemStruct)
  | 0, _ => some (0, g)
  | n+1, now =>
    if (g.arBitmap now).count = 0 then allocLoop g start size n (now+1)
    else takeBlock g start size now

def ckDynMemAllocate (g : DynMemStruct) (size : Nat) : Option (Nat × DynMemStruct) :=
  if size = 0 then some (0, g)
  else
    let size := ceilUint32 size dynMemBuddyUnitSize
    match bitmapIdx size with
    | none => none
    | some idx =>
      if g.bitmapLevel ≤ idx then some (0, g)
      else allocLoop g idx size (g.bitmapLevel - idx) idx

/-! ## release -/

/-- the joining loop, where `n` levels are left to go up -/
def mergeLoop : (n now block : Nat) → DynMemStruct → DynMemStruct
  | 0, _, _, g => g
  | n+1, now, block, g =>
    if bitmapGetBit g now (block ^^^ 1) then
      if g.bitmapLevel ≤ now + 1 then g
      else
        let g := bitmapBitSet0 g now (block ^^^ 1)
        let g := bitmapBitSet0 g now block
        let g := g.setCount now (sub32 (g.arBitmap now).count 2)
        let g := bitmapBitSet1 g (now+1) (block / 2)
        let g := g.setCount (now+1) (u32 ((g.arBitmap (now+1)).count + 1))
        mergeLoop n (now+1) (block / 2) g
    else g

def ckDynMemFree (g : DynMemStruct) (addr size : Nat) : Option (Bool × DynMemStruct) :=
  if size = 0 then some (false, g)
  else if addr < g.beginAddr ∨ u32 (dynMemoryStartAddress + g.dynMemSize) < addr then
    some (false, g)
  else
    let addr := addr / dynMemBuddyUnitSize * dynMemBuddyUnitSize
    let relAddr := sub32 addr g.beginAddr
    let size := ceilUint32 size dynMemBuddyUnitSize
    match bitmapIdx size with
    | none => none
    | some idx =>
      if g.bitmapLevel ≤ idx then some (false, g)
      else
        let block := relAddr / u32 (dynMemBuddyUnitSize <<< idx)
        -- `assert(!BITMAP_GET_BIT(start, block))`
        if bitmapGetBit g idx block then none
        else
          let g := bitmapBitSet1 g idx block
          let g := g.setCount idx (u32 ((g.arBitmap idx).count + 1))
          let g := mergeLoop (g.bitmapLevel - idx) idx block g
          some (true, { g with usedSize := sub32 g.usedSize size })

end Clubcos
