import Clubcos.Lib.Paging
import Clubcos.Memory.Layout

/-!
# boot.asm: the page tables

* `PageTableInit`   the subroutine, on the registers that it shares with its callers;
* `start`           `_start` up to where the identity entry is restored, through the tables that have just been built;
* `start_words`     what is in the directory and in the tables then;
* `enablePaging_identity`   **the identity entry** keeps the code where it is while it is there;
* `start_maps`      **the tables agree** with the conversions of memory_map.h, whatever was in the memory before;
* `Mapped.metadataBytes`   the metadata of the dynamic memory lies behind pages that are there.
-/

set_option linter.unusedVariables false

namespace Clubcos.Boot
open X86

/-! ## memory_map.inc, physical addresses -/

def Inc.KERNEL_BASE_ADDRESS : BitVec 32 := 0x00100000
def Inc.PAGE_DIRECTORY_ADDRESS : BitVec 32 := 0x00300000
def Inc.PAGE_TABLE_ADDRESS : BitVec 32 := 0x00301000
def Inc.PAGE_TABLE_LOGICAL_ADDRESS : BitVec 32 := 0xfe201000
def Inc.KERNEL_STACK_END_PHYSICAL_ADDR : BitVec 32 := 0x00300000
def Inc.DYN_MEMORY_START_ADDRESS : BitVec 32 := 0x00900000
def Inc.PAGE_TABLE_DYNMEM_METADATA : BitVec 32 := Inc.PAGE_TABLE_ADDRESS + 0xfffcf * 4

/-! ## memory_map.h, logical addresses -/

def DYN_MEMORY_START_ADDRESS : BitVec 32 := 0x00100000
def IOMAP_MEMORY_START_ADDRESS : BitVec 32 := 0xbf800000
def KERNEL_BASE_ADDRESS : BitVec 32 := 0xfe000000
def KERNEL_PHY_BASE_ADDR : BitVec 32 := 0x00100000
def DYN_MEMORY_METADATA_ADDR : BitVec 32 := 0xfffcf000
def DYN_MEMORY_PHYSICAL_ADDRESS : BitVec 32 := 0x00900000

def ckDynMemLogicalToPhysical (address : BitVec 32) : BitVec 32 :=
  address - DYN_MEMORY_START_ADDRESS + DYN_MEMORY_PHYSICAL_ADDRESS

/-! ## boot.asm -/

def PageFlag : BitVec 32 := 2 ||| 1

structure Cpu where
  eax : BitVec 32
  ecx : BitVec 32
  edx : BitVec 32
  edi : BitVec 32
  cr3 : BitVec 32
  mem : Mem

def Cpu.repStosd (r : Cpu) : Cpu :=
  let (edi, mem) := repStos 4 r.eax r.ecx.toNat r.edi r.mem
  { r with edi := edi, ecx := 0, mem := mem }

/-- `mov edi, eax` -/
def Cpu.movEdiEax (r : Cpu) : Cpu := { r with edi := r.eax }

/-- `mov dword [edi], v` -/
def Cpu.movAtEdi (v : BitVec 32) (r : Cpu) : Cpu := { r with mem := store32 r.mem r.edi v }

def PageTableInit_loop : (rounds : Nat) → Cpu → Cpu
  | 0, r => r
  | rounds + 1, r => PageTableInit_loop rounds
      { r with mem := store32 r.mem r.eax r.edx, edx := r.edx + 4 * 1024, eax := r.eax + 4, ecx := r.ecx - 1 }

/-- `loop` counts before it tests -/
def PageTableInit (r : Cpu) : Cpu := PageTableInit_loop ((r.ecx - 1).toNat + 1) { r with eax := r.edi }

/-- `call`, with nothing else on the stack -/
def call (ret : BitVec 32) (f : Cpu → Cpu) (r : Cpu) : Cpu :=
  f { r with mem := store32 r.mem (Inc.KERNEL_STACK_END_PHYSICAL_ADDR - 4) ret }

/-- unused lower 1MB [T#0x00000 ~ T#0x00100) -/
def unusedTables (r : Cpu) : Cpu :=
  Cpu.repStosd { r with edi := Inc.PAGE_TABLE_ADDRESS, ecx := 0x100, eax := 0 }

/-- dynamic memory [T#0x00100 ~ T#0xbf800) -/
def dynamicTables (ret : BitVec 32) (r : Cpu) : Cpu :=
  (call ret PageTableInit
    { r with edx := Inc.DYN_MEMORY_START_ADDRESS ||| PageFlag, ecx := 0xbf800 - 0x00100 }).movEdiEax

/-- memory for I/O mapping [T#0xbf800 ~ T#0xfe000) -/
def ioMapTables (r : Cpu) : Cpu := Cpu.repStosd { r with ecx := 0xfe000 - 0xbf800, eax := 0 }

/-- kernel area [T#0xfe000 ~ T#0xfe800) -/
def kernelTables (ret : BitVec 32) (r : Cpu) : Cpu :=
  call ret PageTableInit { r with edx := Inc.KERNEL_BASE_ADDRESS ||| PageFlag, ecx := 0xfe800 - 0xfe000 }

/-- dynamic memory metadata [T#0xfffcf ~ T#0xfffff]; the address is in `eax`, but the subroutine takes `edx` -/
def metadataTables (ret : BitVec 32) (r : Cpu) : Cpu :=
  call ret PageTableInit
    { r with edi := Inc.PAGE_TABLE_DYNMEM_METADATA, ecx := 0x100000 - 0xfffcf, eax := Inc.DYN_MEMORY_START_ADDRESS }

/-- [D#0x000 ~ D#0x3fa] -/
def lowerDirectory (ret : BitVec 32) (r : Cpu) : Cpu :=
  (call ret PageTableInit
    { r with edi := Inc.PAGE_DIRECTORY_ADDRESS, edx := Inc.PAGE_TABLE_ADDRESS ||| PageFlag, ecx := 0x3fa }).movEdiEax

/-- [D#0x3fa ~ D#0x3ff) and [D#0x3ff] -/
def upperDirectory (r : Cpu) : Cpu :=
  (Cpu.repStosd { r with ecx := 0x3ff - 0x3fa, eax := 0 }).movAtEdi (Inc.PAGE_TABLE_DYNMEM_METADATA ||| PageFlag)

/-- the identity entry; the entry before stays in `edx` -/
def enablePaging (r : Cpu) : Cpu :=
  let r := { r with edx := 0x00100000 ||| PageFlag }
  let a := Inc.PAGE_TABLE_ADDRESS + 0x00100 * 4
  let r := { r with mem := store32 r.mem a r.edx, edx := load32 r.mem a }
  let r := { r with eax := Inc.PAGE_DIRECTORY_ADDRESS }
  { r with cr3 := r.eax }

/-- a linear address by now -/
def higher_half (pse : Bool) (r : Cpu) : Option Cpu :=
  (storeLinear pse r.mem r.cr3 (Inc.PAGE_TABLE_LOGICAL_ADDRESS + 0x00100 * 4) r.edx).map fun mem => { r with mem := mem }

/-- the tables and the directory; `rets` are the return addresses of the calls -/
def initPaging (rets : Nat → BitVec 32) (r : Cpu) : Cpu :=
  let r := unusedTables r
  let r := dynamicTables (rets 0) r
  let r := ioMapTables r
  let r := kernelTables (rets 1) r
  let r := metadataTables (rets 2) r
  let r := lowerDirectory (rets 3) r
  upperDirectory r

/-- `pse` tells if pages of 4 MiB are enabled -/
def start (pse : Bool) (rets : Nat → BitVec 32) (r : Cpu) : Option Cpu := higher_half pse (enablePaging (initPaging rets r))

/-! ## what the loops write -/

theorem PageTableInit_loop_eq (n : Nat) : ∀ r : Cpu, 4 * n ≤ 2^32 → PageTableInit_loop n r =
    { r with eax := r.eax + BitVec.ofNat 32 (4 * n), edx := r.edx + BitVec.ofNat 32 (4096 * n),
             ecx := r.ecx - BitVec.ofNat 32 n,
             mem := storeWords r.mem r.eax n fun i => r.edx + BitVec.ofNat 32 (4096 * i) } := by
  induction n with
  | zero =>
    intro r _
    simp [PageTableInit_loop, storeWords_zero]
  | succ n ih =>
    intro r hn
    have hfirst : r.edx = r.edx + BitVec.ofNat 32 (4096 * 0) := (add_ofNat_zero _).symm
    have hnext : ∀ i, r.edx + 4 * 1024 + BitVec.ofNat 32 (4096 * i) = r.edx + BitVec.ofNat 32 (4096 * (i + 1)) := fun i => by
      rw [show (4 * 1024 : BitVec 32) = BitVec.ofNat 32 4096 from rfl, add_ofNat_add, Nat.mul_succ, Nat.add_comm]
    have hmem := storeWords_cons r.mem r.eax hn fun i => r.edx + BitVec.ofNat 32 (4096 * i)
    rw [PageTableInit_loop, ih _ (by omega)]
    simp only [hnext]
    rw [← hfirst] at hmem
    rw [show (4 : BitVec 32) = BitVec.ofNat 32 4 from rfl, hmem, add_ofNat_add, show 4 + 4 * n = 4 * (n + 1) by omega,
      BitVec.sub_sub, show 1 + BitVec.ofNat 32 n = BitVec.ofNat 32 (n + 1) by rw [BitVec.ofNat_add, BitVec.add_comm]; rfl]

theorem PageTableInit_eq (eax edx edi cr3 : BitVec 32) (mem : Mem) {ecx : BitVec 32} (n : Nat) (hn : (ecx - 1).toNat + 1 = n)
    (hfits : 4 * n ≤ 2^32) : PageTableInit ⟨eax, ecx, edx, edi, cr3, mem⟩ =
      ⟨edi + BitVec.ofNat 32 (4 * n), 0, edx + BitVec.ofNat 32 (4096 * n), edi, cr3,
        storeWords mem edi n fun i => edx + BitVec.ofNat 32 (4096 * i)⟩ := by
  have hcount : ecx - BitVec.ofNat 32 n = 0 := by
    rw [← hn, BitVec.ofNat_add, BitVec.ofNat_toNat, BitVec.setWidth_eq]
    exact (congrArg (ecx - ·) (BitVec.sub_add_cancel ecx 1)).trans (BitVec.sub_self ecx)
  rw [PageTableInit, hn, PageTableInit_loop_eq _ _ hfits]
  simp only [hcount]

theorem repStosd_eq (eax edx edi cr3 : BitVec 32) (mem : Mem) {ecx : BitVec 32} (n : Nat) (hn : ecx.toNat = n) :
    Cpu.repStosd ⟨eax, ecx, edx, edi, cr3, mem⟩ =
      ⟨eax, 0, edx, edi + BitVec.ofNat 32 (4 * n), cr3, storeWords mem edi n fun _ => eax⟩ := by
  unfold Cpu.repStosd
  rw [repStos_words, hn]

/-- word `w` from the directory on, behind which the tables lie -/
def word (m : Mem) (w : Nat) : BitVec 32 := load32 m (Inc.PAGE_DIRECTORY_ADDRESS + BitVec.ofNat 32 (4 * w))

theorem word_storeWords (m : Mem) {a : BitVec 32} (lo : Nat) {n w : Nat} (ha : a = Inc.PAGE_DIRECTORY_ADDRESS + BitVec.ofNat 32 (4 * lo))
    (hn : 4 * (lo + n) ≤ 2^32) (hw : 4 * (w + 1) ≤ 2^32) (f : Nat → BitVec 32) :
    word (storeWords m a n f) w = if lo ≤ w ∧ w < lo + n then f (w - lo) else word m w := by
  rw [ha]
  exact load32_storeWords m _ hn hw f

/-- the stack ends where the directory starts -/
theorem word_call (m : Mem) (ret : BitVec 32) {w : Nat} (hw : w < 0x100400) :
    word (store32 m (Inc.KERNEL_STACK_END_PHYSICAL_ADDR - 4) ret) w = word m w := by
  rw [store32_eq, word_storeWords m (2^30 - 1) (by decide) (by decide) (by omega), if_neg (by omega)]

/-! ## the blocks of `_start` -/

variable (eax ecx edx edi cr3 ret : BitVec 32) (mem : Mem)

theorem unusedTables_eq : unusedTables ⟨eax, ecx, edx, edi, cr3, mem⟩ =
    ⟨0, 0, edx, Inc.PAGE_TABLE_ADDRESS + BitVec.ofNat 32 (4 * 0x100), cr3,
      storeWords mem Inc.PAGE_TABLE_ADDRESS 0x100 fun _ => 0⟩ :=
  repStosd_eq _ _ _ _ _ 0x100 (by decide)

theorem dynamicTables_eq : dynamicTables ret ⟨eax, ecx, edx, edi, cr3, mem⟩ =
    ⟨edi + BitVec.ofNat 32 (4 * 0xbf700), 0, (Inc.DYN_MEMORY_START_ADDRESS ||| PageFlag) + BitVec.ofNat 32 (4096 * 0xbf700),
      edi + BitVec.ofNat 32 (4 * 0xbf700), cr3, storeWords (store32 mem (Inc.KERNEL_STACK_END_PHYSICAL_ADDR - 4) ret) edi 0xbf700
        fun i => (Inc.DYN_MEMORY_START_ADDRESS ||| PageFlag) + BitVec.ofNat 32 (4096 * i)⟩ := by
  rw [dynamicTables, call]
  simp only
  rw [PageTableInit_eq _ _ _ _ _ 0xbf700 (by decide) (by decide)]
  rfl

theorem ioMapTables_eq : ioMapTables ⟨eax, ecx, edx, edi, cr3, mem⟩ =
    ⟨0, 0, edx, edi + BitVec.ofNat 32 (4 * 0x3e800), cr3, storeWords mem edi 0x3e800 fun _ => 0⟩ :=
  repStosd_eq _ _ _ _ _ 0x3e800 (by decide)

theorem kernelTables_eq : kernelTables ret ⟨eax, ecx, edx, edi, cr3, mem⟩ =
    ⟨edi + BitVec.ofNat 32 (4 * 0x800), 0, (Inc.KERNEL_BASE_ADDRESS ||| PageFlag) + BitVec.ofNat 32 (4096 * 0x800), edi, cr3,
      storeWords (store32 mem (Inc.KERNEL_STACK_END_PHYSICAL_ADDR - 4) ret) edi 0x800
        fun i => (Inc.KERNEL_BASE_ADDRESS ||| PageFlag) + BitVec.ofNat 32 (4096 * i)⟩ := by
  rw [kernelTables, call]
  simp only
  rw [PageTableInit_eq _ _ _ _ _ 0x800 (by decide) (by decide)]

theorem metadataTables_eq : metadataTables ret ⟨eax, ecx, edx, edi, cr3, mem⟩ =
    ⟨Inc.PAGE_TABLE_DYNMEM_METADATA + BitVec.ofNat 32 (4 * 49), 0, edx + BitVec.ofNat 32 (4096 * 49),
      Inc.PAGE_TABLE_DYNMEM_METADATA, cr3, storeWords (store32 mem (Inc.KERNEL_STACK_END_PHYSICAL_ADDR - 4) ret)
        Inc.PAGE_TABLE_DYNMEM_METADATA 49 fun i => edx + BitVec.ofNat 32 (4096 * i)⟩ := by
  rw [metadataTables, call]
  simp only
  rw [PageTableInit_eq _ _ _ _ _ 49 (by decide) (by decide)]

theorem lowerDirectory_eq : lowerDirectory ret ⟨eax, ecx, edx, edi, cr3, mem⟩ =
    ⟨Inc.PAGE_DIRECTORY_ADDRESS + BitVec.ofNat 32 (4 * 0x3fa), 0,
      (Inc.PAGE_TABLE_ADDRESS ||| PageFlag) + BitVec.ofNat 32 (4096 * 0x3fa),
      Inc.PAGE_DIRECTORY_ADDRESS + BitVec.ofNat 32 (4 * 0x3fa), cr3,
      storeWords (store32 mem (Inc.KERNEL_STACK_END_PHYSICAL_ADDR - 4) ret) Inc.PAGE_DIRECTORY_ADDRESS 0x3fa
        fun i => (Inc.PAGE_TABLE_ADDRESS ||| PageFlag) + BitVec.ofNat 32 (4096 * i)⟩ := by
  rw [lowerDirectory, call]
  simp only
  rw [PageTableInit_eq _ _ _ _ _ 0x3fa (by decide) (by decide)]
  rfl

theorem upperDirectory_eq : upperDirectory ⟨eax, ecx, edx, edi, cr3, mem⟩ =
    ⟨0, 0, edx, edi + BitVec.ofNat 32 (4 * 5), cr3, storeWords (storeWords mem edi 5 fun _ => 0)
      (edi + BitVec.ofNat 32 (4 * 5)) 1 fun _ => Inc.PAGE_TABLE_DYNMEM_METADATA ||| PageFlag⟩ := by
  rw [upperDirectory, repStosd_eq _ _ _ _ _ 5 (by decide), Cpu.movAtEdi, store32_eq]

/-! ## the tables -/

/-- the entry of page `t`, where `old` is in what stays as it was -/
def tableEntry (old : BitVec 32) (t : Nat) : BitVec 32 :=
  if 0xfffcf ≤ t then 0x900003 + BitVec.ofNat 32 (4096 * (t - 0xfffcf))
  else if 0xfe800 ≤ t then old
  else if 0xfe000 ≤ t then 0x100003 + BitVec.ofNat 32 (4096 * (t - 0xfe000))
  else if 0xbf800 ≤ t then 0
  else if 0x100 ≤ t then 0x900003 + BitVec.ofNat 32 (4096 * (t - 0x100))
  else 0

def directoryEntry (d : Nat) : BitVec 32 :=
  if d = 0x3ff then 0x700f3f else if 0x3fa ≤ d then 0 else 0x301003 + BitVec.ofNat 32 (4096 * d)

theorem tableEntry_metadata (old : BitVec 32) {t : Nat} (h : 0xfffcf ≤ t) :
    tableEntry old t = BitVec.ofNat 32 (0x900 * 4096 + 3) + BitVec.ofNat 32 (4096 * (t - 0xfffcf)) := by
  rw [tableEntry, if_pos h, show (0x900003 : BitVec 32) = BitVec.ofNat 32 (0x900 * 4096 + 3) by decide]

theorem tableEntry_kernel (old : BitVec 32) {t : Nat} (h : 0xfe000 ≤ t) (hlt : t < 0xfe800) :
    tableEntry old t = BitVec.ofNat 32 (0x100 * 4096 + 3) + BitVec.ofNat 32 (4096 * (t - 0xfe000)) := by
  rw [tableEntry, if_neg (by omega), if_neg (by omega), if_pos h,
    show (0x100003 : BitVec 32) = BitVec.ofNat 32 (0x100 * 4096 + 3) by decide]

theorem tableEntry_dynamic (old : BitVec 32) {t : Nat} (h : 0x100 ≤ t) (hlt : t < 0xbf800) :
    tableEntry old t = BitVec.ofNat 32 (0x900 * 4096 + 3) + BitVec.ofNat 32 (4096 * (t - 0x100)) := by
  rw [tableEntry, if_neg (by omega), if_neg (by omega), if_neg (by omega), if_neg (by omega), if_pos h,
    show (0x900003 : BitVec 32) = BitVec.ofNat 32 (0x900 * 4096 + 3) by decide]

theorem tableEntry_unused (old : BitVec 32) {t : Nat} (h : t < 0x100) : tableEntry old t = 0 := by
  rw [tableEntry, if_neg (by omega), if_neg (by omega), if_neg (by omega), if_neg (by omega), if_neg (by omega)]

theorem word_initPaging (rets : Nat → BitVec 32) (r : Cpu) {w : Nat} (hw : w < 0x100400) : word (initPaging rets r).mem w =
    if w < 0x400 then directoryEntry w else tableEntry (word r.mem w) (w - 0x400) := by
  obtain ⟨eax, ecx, edx, edi, cr3, mem⟩ := r
  have hlast : Inc.PAGE_TABLE_DYNMEM_METADATA ||| PageFlag = 0x700f3f := by decide
  have htables : Inc.PAGE_TABLE_ADDRESS ||| PageFlag = 0x301003 := by decide
  have hdynamic : Inc.DYN_MEMORY_START_ADDRESS ||| PageFlag = 0x900003 := by decide
  have hkernel : Inc.KERNEL_BASE_ADDRESS ||| PageFlag = 0x100003 := by decide
  -- where the kernel area ends, the dynamic memory starts
  have hstale : (0x100003 : BitVec 32) + BitVec.ofNat 32 (4096 * 0x800) = 0x900003 := by decide
  unfold initPaging
  simp only
  rw [unusedTables_eq, dynamicTables_eq, ioMapTables_eq, kernelTables_eq, metadataTables_eq, lowerDirectory_eq,
    upperDirectory_eq]
  simp only
  rw [word_storeWords _ 0x3ff (by decide) (by decide) (by omega), word_storeWords _ 0x3fa (by decide) (by decide) (by omega),
    word_storeWords _ 0 (by decide) (by decide) (by omega), word_call _ _ hw,
    word_storeWords _ (0x400 + 0xfffcf) (by decide) (by decide) (by omega), word_call _ _ hw,
    word_storeWords _ (0x400 + 0xfe000) (by decide) (by decide) (by omega), word_call _ _ hw,
    word_storeWords _ (0x400 + 0xbf800) (by decide) (by decide) (by omega),
    word_storeWords _ (0x400 + 0x100) (by decide) (by decide) (by omega), word_call _ _ hw,
    word_storeWords _ 0x400 (by decide) (by decide) (by omega)]
  rw [hlast, htables, hdynamic, hkernel, hstale]
  by_cases hdir : w < 0x400
  · rw [if_pos hdir, directoryEntry]
    by_cases h1 : w = 0x3ff
    · rw [if_pos (by omega), if_pos h1]
    · rw [if_neg (by omega), if_neg h1]
      by_cases h2 : 0x3fa ≤ w
      · rw [if_pos (by omega), if_pos h2]
      · rw [if_neg (by omega), if_pos (by omega), if_neg h2, Nat.sub_zero]
  · obtain ⟨t, rfl⟩ := Nat.exists_eq_add_of_le (Nat.le_of_not_lt hdir)
    rw [if_neg (by omega), if_neg (by omega), if_neg (by omega), if_neg hdir, Nat.add_sub_cancel_left, tableEntry]
    by_cases h1 : 0xfffcf ≤ t
    · rw [if_pos (by omega), if_pos h1, Nat.add_sub_add_left]
    · rw [if_neg (by omega), if_neg h1]
      by_cases h2 : 0xfe800 ≤ t
      · rw [if_neg (by omega), if_neg (by omega), if_neg (by omega), if_neg (by omega), if_pos h2]
      · rw [if_neg h2]
        by_cases h3 : 0xfe000 ≤ t
        · rw [if_pos (by omega), if_pos h3, Nat.add_sub_add_left]
        · rw [if_neg (by omega), if_neg h3]
          by_cases h4 : 0xbf800 ≤ t
          · rw [if_pos (by omega), if_pos h4]
          · rw [if_neg (by omega), if_neg h4]
            by_cases h5 : 0x100 ≤ t
            · rw [if_pos (by omega), if_pos h5, Nat.add_sub_add_left]
            · rw [if_neg (by omega), if_pos (by omega), if_neg h5]

/-! ## the walk through them -/

variable {pse : Bool} {m : Mem}

theorem pde_word (m : Mem) (d : Nat) : pde m Inc.PAGE_DIRECTORY_ADDRESS d = word m d := by
  rw [pde, show frame Inc.PAGE_DIRECTORY_ADDRESS = Inc.PAGE_DIRECTORY_ADDRESS by decide]
  rfl

theorem pte_word (m : Mem) (t : Nat) : pte m Inc.PAGE_TABLE_ADDRESS t = word m (0x400 + t) := by
  rw [pte, word, Nat.mul_add, ← add_ofNat_add]
  rfl

theorem directory_linked (h : ∀ d < 0x400, word m d = directoryEntry d) {d : Nat} (hd : d < 0x3fa ∨ d = 0x3ff) :
    Linked pse m Inc.PAGE_DIRECTORY_ADDRESS Inc.PAGE_TABLE_ADDRESS d := by
  have hword : pde m Inc.PAGE_DIRECTORY_ADDRESS d = directoryEntry d := (pde_word m d).trans (h d (by omega))
  rcases hd with hd | rfl
  · have hval : (directoryEntry d).toNat = 0x301003 + 4096 * d := by
      rw [directoryEntry, if_neg (by omega), if_neg (by omega), BitVec.toNat_add, BitVec.toNat_ofNat]
      show (0x301003 + _) % _ = _
      omega
    constructor
    · rw [hword, present_iff, hval]
      omega
    · rw [hword]
      apply large_eq
      omega
    · rw [hword]
      apply BitVec.eq_of_toNat_eq
      rw [frame_toNat, hval, BitVec.toNat_add, BitVec.toNat_ofNat]
      show _ = (0x301000 + _) % _
      omega
  · -- the address of the last entry is inside its table, and is cut off
    constructor
    · rw [hword]
      decide
    · rw [hword]
      apply large_eq
      decide
    · rw [hword]
      decide

/-- an address in a range of pages that starts with page `first` and is mapped to what starts with page `base` -/
theorem translate_range (h : ∀ d < 0x400, word m d = directoryEntry d) {a p : BitVec 32} (base first : Nat)
    (hd : a.toNat < 0xfe800000 ∨ 0xffc00000 ≤ a.toNat) (hfirst : first * 4096 ≤ a.toNat)
    (hentry : word m (0x400 + a.toNat / 4096) =
      BitVec.ofNat 32 (base * 4096 + 3) + BitVec.ofNat 32 (4096 * (a.toNat / 4096 - first)))
    (hp : p.toNat = base * 4096 + (a.toNat - first * 4096)) :
    translate pse m Inc.PAGE_DIRECTORY_ADDRESS a = some p := by
  have ha := a.isLt
  have hlt := p.isLt
  have hval : (pte m Inc.PAGE_TABLE_ADDRESS (a.toNat / 4096)).toNat = base * 4096 + 3 + 4096 * (a.toNat / 4096 - first) := by
    rw [pte_word, hentry, ← BitVec.ofNat_add, BitVec.toNat_ofNat]
    omega
  apply translate_page (directory_linked h (by omega))
  · rw [hval]
    omega
  · rw [hval, hp]
    omega

/-! ## the identity entry -/

/-- the entry of page `0x00100` goes to the register, and the identity takes its place -/
theorem enablePaging_eq : enablePaging ⟨eax, ecx, edx, edi, cr3, mem⟩ =
    ⟨Inc.PAGE_DIRECTORY_ADDRESS, ecx, word mem 0x500, edi, Inc.PAGE_DIRECTORY_ADDRESS,
      storeWords mem (Inc.PAGE_DIRECTORY_ADDRESS + BitVec.ofNat 32 (4 * 0x500)) 1 fun _ => 0x00100003⟩ := by
  have ha : Inc.PAGE_TABLE_ADDRESS + 0x00100 * 4 = Inc.PAGE_DIRECTORY_ADDRESS + BitVec.ofNat 32 (4 * 0x500) := by decide
  have hv : (0x00100000 : BitVec 32) ||| PageFlag = 0x00100003 := by decide
  rw [enablePaging]
  simp only
  rw [ha, hv, store32_eq, word]

theorem word_identity (m : Mem) (v : BitVec 32) {w : Nat} (hw : w < 0x100400) :
    word (storeWords m (Inc.PAGE_DIRECTORY_ADDRESS + BitVec.ofNat 32 (4 * 0x500)) 1 fun _ => v) w =
      if w = 0x500 then v else word m w := by
  rw [word_storeWords m 0x500 rfl (by decide) (by omega)]
  by_cases h : w = 0x500
  · rw [if_pos (by omega), if_pos h]
  · rw [if_neg (by omega), if_neg h]

theorem enablePaging_word (rets : Nat → BitVec 32) (r : Cpu) {w : Nat} (hw : w < 0x100400) :
    word (enablePaging (initPaging rets r)).mem w = if w = 0x500 then 0x00100003 else
      if w < 0x400 then directoryEntry w else tableEntry (word r.mem w) (w - 0x400) := by
  rw [← word_initPaging rets r hw]
  obtain ⟨eax, ecx, edx, edi, cr3, mem⟩ := initPaging rets r
  rw [enablePaging_eq]
  exact word_identity mem _ hw

theorem enablePaging_directory (rets : Nat → BitVec 32) (r : Cpu) {d : Nat} (hd : d < 0x400) :
    word (enablePaging (initPaging rets r)).mem d = directoryEntry d := by
  rw [enablePaging_word rets r (by omega), if_neg (by omega), if_pos hd]

/-- **The code that enables the paging** stays where it is. -/
theorem enablePaging_identity (pse : Bool) (rets : Nat → BitVec 32) (r : Cpu) {a : BitVec 32} (h : 0x00100000 ≤ a)
    (hlt : a < 0x00101000) : translate pse (enablePaging (initPaging rets r)).mem Inc.PAGE_DIRECTORY_ADDRESS a = some a := by
  have hle : 0x00100000 ≤ a.toNat := h
  have hend : a.toNat < 0x00101000 := hlt
  have hpage : a.toNat / 4096 = 0x100 := by omega
  refine translate_range (fun d hd => enablePaging_directory rets r hd) 0x100 0x100 (by omega) (by omega) ?_ (by omega)
  rw [hpage, enablePaging_word rets r (by decide), if_pos rfl]
  decide

/-- **The registers and the memory** behind `_start`: no fault, and all entries of the directory and of the tables. -/
theorem start_words (pse : Bool) (rets : Nat → BitVec 32) (r : Cpu) : ∃ r', start pse rets r = some r' ∧
    r'.cr3 = Inc.PAGE_DIRECTORY_ADDRESS ∧ ∀ w < 0x100400, word r'.mem w =
      if w < 0x400 then directoryEntry w else tableEntry (word r.mem w) (w - 0x400) := by
  have hbuilt := fun w => word_initPaging rets r (w := w)
  -- the tables lie in the kernel area, whose entries are not touched
  have hlinear : translate pse (enablePaging (initPaging rets r)).mem Inc.PAGE_DIRECTORY_ADDRESS
      (Inc.PAGE_TABLE_LOGICAL_ADDRESS + 0x00100 * 4) = some (Inc.PAGE_DIRECTORY_ADDRESS + BitVec.ofNat 32 (4 * 0x500)) := by
    refine translate_range (fun d hd => enablePaging_directory rets r hd) 0x100 0xfe000 (by decide) (by decide) ?_ (by decide)
    rw [enablePaging_word rets r (by decide), if_neg (by decide), if_neg (by decide), Nat.add_sub_cancel_left]
    exact tableEntry_kernel _ (by decide) (by decide)
  unfold start
  generalize initPaging rets r = r₀ at hbuilt hlinear ⊢
  obtain ⟨eax, ecx, edx, edi, cr3, mem⟩ := r₀
  rw [enablePaging_eq] at hlinear ⊢
  rw [higher_half, storeLinear]
  simp only at hlinear ⊢
  rw [hlinear]
  refine ⟨_, rfl, rfl, fun w hw => ?_⟩
  simp only
  rw [store32_eq, word_identity _ _ hw]
  by_cases h : w = 0x500
  · rw [if_pos h, h, hbuilt 0x500 (by decide)]
  · rw [if_neg h, word_identity _ _ hw, if_neg h, hbuilt w hw]

/-! ## the conversions -/

/-- what the walk finds for every linear address that memory_map.h gives a meaning -/
structure Mapped (pse : Bool) (m : Mem) (cr3 : BitVec 32) : Prop where
  dynamic : ∀ a, DYN_MEMORY_START_ADDRESS ≤ a → a < IOMAP_MEMORY_START_ADDRESS →
    translate pse m cr3 a = some (ckDynMemLogicalToPhysical a)
  kernel : ∀ a, KERNEL_BASE_ADDRESS ≤ a → a < 0xfe800000 →
    translate pse m cr3 a = some (a - KERNEL_BASE_ADDRESS + KERNEL_PHY_BASE_ADDR)
  metadata : ∀ a, DYN_MEMORY_METADATA_ADDR ≤ a →
    translate pse m cr3 a = some (a - DYN_MEMORY_METADATA_ADDR + DYN_MEMORY_PHYSICAL_ADDRESS)
  unused : ∀ a, a < DYN_MEMORY_START_ADDRESS → translate pse m cr3 a = none
  /-- the first 49 pages of the dynamic memory are those behind the metadata, and no others -/
  window : ∀ b, DYN_MEMORY_START_ADDRESS ≤ b → b < IOMAP_MEMORY_START_ADDRESS →
    ((∃ a, DYN_MEMORY_METADATA_ADDR ≤ a ∧ translate pse m cr3 a = translate pse m cr3 b) ↔
      b < DYN_MEMORY_START_ADDRESS + 49 * 4096)

/-- **The tables agree** with the conversions, whatever was in the memory and in the registers before. -/
theorem start_maps (pse : Bool) (rets : Nat → BitVec 32) (r : Cpu) :
    ∃ r', start pse rets r = some r' ∧ Mapped pse r'.mem r'.cr3 := by
  obtain ⟨r', hstart, hcr3, hword⟩ := start_words pse rets r
  refine ⟨r', hstart, ?_⟩
  rw [hcr3]
  have hdir : ∀ d < 0x400, word r'.mem d = directoryEntry d := fun d hd => (hword d (by omega)).trans (if_pos hd)
  have hpage : ∀ t < 0x100000, word r'.mem (0x400 + t) = tableEntry (word r.mem (0x400 + t)) t := fun t ht => by
    rw [hword _ (by omega), if_neg (by omega), Nat.add_sub_cancel_left]
  have hdynamic : ∀ a : BitVec 32, DYN_MEMORY_START_ADDRESS ≤ a → a < IOMAP_MEMORY_START_ADDRESS →
      translate pse r'.mem Inc.PAGE_DIRECTORY_ADDRESS a = some (ckDynMemLogicalToPhysical a) := by
    intro a (hle : 0x00100000 ≤ a.toNat) (hlt : a.toNat < 0xbf800000)
    refine translate_range hdir 0x900 0x100 (by omega) (by omega) ?_ ?_
    · rw [hpage _ (by omega), tableEntry_dynamic _ (by omega) (by omega)]
    · show (a - 0x00100000 + 0x00900000).toNat = _
      bv_omega
  have hmetadata : ∀ a : BitVec 32, DYN_MEMORY_METADATA_ADDR ≤ a → translate pse r'.mem Inc.PAGE_DIRECTORY_ADDRESS a =
      some (a - DYN_MEMORY_METADATA_ADDR + DYN_MEMORY_PHYSICAL_ADDRESS) := by
    intro a (hle : 0xfffcf000 ≤ a.toNat)
    refine translate_range hdir 0x900 0xfffcf (by omega) (by omega) ?_ ?_
    · rw [hpage _ (by omega), tableEntry_metadata _ (by omega)]
    · show (a - 0xfffcf000 + 0x00900000).toNat = _
      bv_omega
  refine ⟨hdynamic, ?_, hmetadata, ?_, ?_⟩
  · intro a (hle : 0xfe000000 ≤ a.toNat) (hlt : a.toNat < 0xfe800000)
    refine translate_range hdir 0x100 0xfe000 (by omega) (by omega) ?_ ?_
    · rw [hpage _ (by omega), tableEntry_kernel _ (by omega) (by omega)]
    · show (a - 0xfe000000 + 0x00100000).toNat = _
      bv_omega
  · intro a (hlt : a.toNat < 0x00100000)
    rw [translate_linked (directory_linked hdir (by omega)), pte_word, hpage _ (by omega), tableEntry_unused _ (by omega)]
    exact if_neg (by decide)
  · intro b hle hlt
    rw [hdynamic b hle hlt]
    constructor
    · rintro ⟨a, ha, h⟩
      rw [hmetadata a ha] at h
      have h' : a - 0xfffcf000 + 0x00900000 = b - 0x00100000 + 0x00900000 := Option.some.inj h
      have ha' : 0xfffcf000 ≤ a.toNat := ha
      have hle' : 0x00100000 ≤ b.toNat := hle
      show b.toNat < (0x00100000 + 49 * 4096 : BitVec 32).toNat
      bv_omega
    · intro (h : b.toNat < (0x00100000 + 49 * 4096 : BitVec 32).toNat)
      have hle' : 0x00100000 ≤ b.toNat := hle
      refine ⟨b - 0x00100000 + 0xfffcf000, ?_, ?_⟩
      · show 0xfffcf000 ≤ (b - 0x00100000 + 0xfffcf000).toNat
        bv_omega
      · rw [hmetadata _ (by show 0xfffcf000 ≤ (b - 0x00100000 + 0xfffcf000).toNat; bv_omega)]
        refine congrArg some ?_
        show b - 0x00100000 + 0xfffcf000 - 0xfffcf000 + 0x00900000 = b - 0x00100000 + 0x00900000
        rw [BitVec.add_sub_cancel]

/-- **The metadata** of any memory that is found lies behind pages that are there. -/
theorem Mapped.metadataBytes {pse : Bool} {m : Mem} {cr3 : BitVec 32} (h : Mapped pse m cr3) {sz i : Nat} (h1 : 1 ≤ sz)
    (hsz : sz ≤ 0xbf700) (hi : i < metadataBytes sz) :
    translate pse m cr3 (DYN_MEMORY_METADATA_ADDR + BitVec.ofNat 32 i) =
      some (DYN_MEMORY_PHYSICAL_ADDRESS + BitVec.ofNat 32 i) := by
  have hfits : i < 49 * 4096 := Nat.lt_of_lt_of_le hi (metadataBytes_window h1 hsz)
  rw [h.metadata]
  · refine congrArg some ?_
    show 0xfffcf000 + BitVec.ofNat 32 i - 0xfffcf000 + 0x00900000 = 0x00900000 + BitVec.ofNat 32 i
    bv_omega
  · show 0xfffcf000 ≤ (0xfffcf000 + BitVec.ofNat 32 i).toNat
    bv_omega

end Clubcos.Boot
