import Mathlib.Tactic.IntervalCases
import Clubcos.Lib.Stack

/-!
# interrupt.asm: the stubs of the interrupt handlers

A stub saves the registers as the fields of an `InterruptContext`, calls the handler in C with a pointer to it, and
takes them off again.

* `Cpu`           the registers, the segment registers and the memory;
* `deliver`       what the processor does for an interrupt gate at the same privilege level;
* `makeIntHandler`, `makeIntHandlerWithErr`   the two macros;
* `CFunction`     what a handler in C promises: it leaves the stack above its argument alone;
* `Context`       the fields that the handler reads;
* `handler_context`   **the context** that the handler reads names the interrupted code;
* `makeIntHandler_eq`          **the plain stub** gives everything back, whatever the handler does to the registers;
* `makeIntHandlerWithErr_eq`   **the other stub** drops the saved `gs` in place of the error code, so every register
  comes back as its neighbour: it is only right for handlers that never come back, and these are all it is used for.

A push of a segment register writes 16 bits of its word and leaves the upper half as it finds it, so that the fields of
the context for these registers (and for `cs`, which the processor pads) are only stated in their lower halves.
-/

set_option linter.unusedVariables false

namespace Clubcos.Interrupt
open X86

structure Cpu where
  eax : BitVec 32
  ecx : BitVec 32
  edx : BitVec 32
  ebx : BitVec 32
  esp : BitVec 32
  ebp : BitVec 32
  esi : BitVec 32
  edi : BitVec 32
  ds : BitVec 16
  es : BitVec 16
  fs : BitVec 16
  gs : BitVec 16
  eip : BitVec 32
  cs : BitVec 16
  eflags : BitVec 32
  mem : Mem

/-! ## instructions -/

def Cpu.push (s : Cpu) (w : BitVec 32) : Cpu := { s with esp := s.esp - 4, mem := store32 s.mem (s.esp - 4) w }

/-- a segment register takes a word of the stack, of which the upper half is not written -/
def Cpu.pushSeg (s : Cpu) (sel : BitVec 16) : Cpu := { s with esp := s.esp - 4, mem := store16 s.mem (s.esp - 4) sel }

def Cpu.pushad (s : Cpu) : Cpu :=
  let temp := s.esp
  let s := s.push s.eax
  let s := s.push s.ecx
  let s := s.push s.edx
  let s := s.push s.ebx
  let s := s.push temp
  let s := s.push s.ebp
  let s := s.push s.esi
  s.push s.edi

def Cpu.popad (s : Cpu) : Cpu :=
  let s := { s with edi := load32 s.mem s.esp, esp := s.esp + 4 }
  let s := { s with esi := load32 s.mem s.esp, esp := s.esp + 4 }
  let s := { s with ebp := load32 s.mem s.esp, esp := s.esp + 4 }
  let s := { s with esp := s.esp + 4 }
  let s := { s with ebx := load32 s.mem s.esp, esp := s.esp + 4 }
  let s := { s with edx := load32 s.mem s.esp, esp := s.esp + 4 }
  let s := { s with ecx := load32 s.mem s.esp, esp := s.esp + 4 }
  { s with eax := load32 s.mem s.esp, esp := s.esp + 4 }

def Cpu.iretd (s : Cpu) : Cpu :=
  let s := { s with eip := load32 s.mem s.esp, esp := s.esp + 4 }
  let s := { s with cs := (load32 s.mem s.esp).setWidth 16, esp := s.esp + 4 }
  { s with eflags := load32 s.mem s.esp, esp := s.esp + 4 }

/-- `call` with the return address `ret`, and the `ret` that the function ends with -/
def Cpu.call (s : Cpu) (ret : BitVec 32) (f : Cpu → Cpu) : Cpu :=
  let s := f (s.push ret)
  { s with esp := s.esp + 4 }

def Cpu.addEsp (s : Cpu) (n : BitVec 32) : Cpu := { s with esp := s.esp + n }

/-! ## the stubs -/

def kernelCodeSegment : BitVec 16 := 2 * 8
def kernelDataSegment : BitVec 16 := 1 * 8
def EFLAG_IF : BitVec 32 := 0x00000200

/-- an interrupt through an interrupt gate, with an error code for some exceptions -/
def deliver (s : Cpu) (err : Option (BitVec 32)) (handler : BitVec 32) : Cpu :=
  let flags := s.eflags
  let s := s.push s.eflags
  let s := s.push (s.cs.setWidth 32)
  let s := s.push s.eip
  let s := match err with
    | none => s
    | some code => s.push code
  { s with cs := kernelCodeSegment, eip := handler, eflags := flags &&& ~~~EFLAG_IF }

/-- `mov ax, 1 * 8`, which leaves the upper half alone, and from there to the segment registers -/
def Cpu.loadKernelData (s : Cpu) : Cpu :=
  { s with
    eax := (s.eax &&& 0xffff0000) ||| kernelDataSegment.setWidth 32
    ds := kernelDataSegment, es := kernelDataSegment, gs := kernelDataSegment, fs := kernelDataSegment }

def pushRegisters (s : Cpu) : Cpu :=
  let s := s.pushad
  let s := s.pushSeg s.ds
  let s := s.pushSeg s.es
  let s := s.pushSeg s.fs
  let s := s.pushSeg s.gs
  s.loadKernelData

def popRegisters (s : Cpu) : Cpu :=
  let s := { s with gs := (load32 s.mem s.esp).setWidth 16, esp := s.esp + 4 }
  let s := { s with fs := (load32 s.mem s.esp).setWidth 16, esp := s.esp + 4 }
  let s := { s with es := (load32 s.mem s.esp).setWidth 16, esp := s.esp + 4 }
  let s := { s with ds := (load32 s.mem s.esp).setWidth 16, esp := s.esp + 4 }
  s.popad

/-- the pointer to the context is pushed, and the handler called -/
def callHandler (ck : Cpu → Cpu) (ret : BitVec 32) (s : Cpu) : Cpu :=
  let s := pushRegisters s
  (s.push s.esp).call ret ck

def makeIntHandler (ck : Cpu → Cpu) (ret : BitVec 32) (s : Cpu) : Cpu :=
  (popRegisters ((callHandler ck ret s).addEsp 4)).iretd

def makeIntHandlerWithErr (ck : Cpu → Cpu) (ret : BitVec 32) (s : Cpu) : Cpu :=
  (popRegisters ((callHandler ck ret s).addEsp (4 * 2))).iretd

/-! ## the context -/

/-- the words that `pushRegisters` leaves, the first field first, with a segment register in the lower half of its word -/
inductive SavedWords (s : Cpu) : List (BitVec 32) → Prop
  | mk {gs fs es ds : BitVec 32} (hgs : gs.setWidth 16 = s.gs) (hfs : fs.setWidth 16 = s.fs) (hes : es.setWidth 16 = s.es)
    (hds : ds.setWidth 16 = s.ds) :
    SavedWords s [gs, fs, es, ds, s.edi, s.esi, s.ebp, s.esp, s.ebx, s.edx, s.ecx, s.eax]

/-- the words that the processor leaves -/
def frameWords (s : Cpu) (err : Option (BitVec 32)) : List (BitVec 32) :=
  err.toList ++ [s.eip, s.cs.setWidth 32, s.eflags]

structure InterruptContext where
  gs : BitVec 32
  fs : BitVec 32
  es : BitVec 32
  ds : BitVec 32
  edi : BitVec 32
  esi : BitVec 32
  ebp : BitVec 32
  esp : BitVec 32
  ebx : BitVec 32
  edx : BitVec 32
  ecx : BitVec 32
  eax : BitVec 32
  eip : BitVec 32
  cs : BitVec 32
  eflag : BitVec 32
  esp2 : BitVec 32
  ss2 : BitVec 32
  err_ss2 : BitVec 32

/-! the other names of the union -/

def InterruptContext.err_code (c : InterruptContext) : BitVec 32 := c.eip
def InterruptContext.err_eip (c : InterruptContext) : BitVec 32 := c.cs
def InterruptContext.err_cs (c : InterruptContext) : BitVec 32 := c.eflag
def InterruptContext.err_eflag (c : InterruptContext) : BitVec 32 := c.esp2
def InterruptContext.err_esp2 (c : InterruptContext) : BitVec 32 := c.ss2

def interruptContext (m : Mem) (p : BitVec 32) : InterruptContext :=
  let word (i : Nat) := load32 m (p + BitVec.ofNat 32 (4 * i))
  { gs := word 0, fs := word 1, es := word 2, ds := word 3
    edi := word 4, esi := word 5, ebp := word 6, esp := word 7
    ebx := word 8, edx := word 9, ecx := word 10, eax := word 11
    eip := word 12, cs := word 13, eflag := word 14, esp2 := word 15, ss2 := word 16, err_ss2 := word 17 }

/-- the state in which the handler starts; its argument is the word behind the return address -/
def handlerEntry (s : Cpu) (err : Option (BitVec 32)) (handler ret : BitVec 32) : Cpu :=
  let s := pushRegisters (deliver s err handler)
  (s.push s.esp).push ret

def Cpu.argument (s : Cpu) : BitVec 32 := load32 s.mem (s.esp + 4)

/-! ## what is on the stack -/

section
variable (s : Cpu) (w : BitVec 32)
@[simp] theorem push_eax : (s.push w).eax = s.eax := rfl
@[simp] theorem push_ecx : (s.push w).ecx = s.ecx := rfl
@[simp] theorem push_edx : (s.push w).edx = s.edx := rfl
@[simp] theorem push_ebx : (s.push w).ebx = s.ebx := rfl
@[simp] theorem push_ebp : (s.push w).ebp = s.ebp := rfl
@[simp] theorem push_esi : (s.push w).esi = s.esi := rfl
@[simp] theorem push_edi : (s.push w).edi = s.edi := rfl
@[simp] theorem push_ds : (s.push w).ds = s.ds := rfl
@[simp] theorem push_es : (s.push w).es = s.es := rfl
@[simp] theorem push_fs : (s.push w).fs = s.fs := rfl
@[simp] theorem push_gs : (s.push w).gs = s.gs := rfl
@[simp] theorem push_esp : (s.push w).esp = s.esp - 4 := rfl
end

section
variable (s : Cpu) (sel : BitVec 16)
@[simp] theorem pushSeg_es : (s.pushSeg sel).es = s.es := rfl
@[simp] theorem pushSeg_fs : (s.pushSeg sel).fs = s.fs := rfl
@[simp] theorem pushSeg_gs : (s.pushSeg sel).gs = s.gs := rfl
end

/-- the words on the stack, the top first -/
def Cpu.Stack (s : Cpu) (ws : List (BitVec 32)) : Prop := Holds s.mem s.esp ws

theorem Cpu.Stack.push {s : Cpu} {ws : List (BitVec 32)} (h : s.Stack ws) (w : BitVec 32) (hn : ws.length ≤ 30) :
    (s.push w).Stack (w :: ws) := Holds.push h (by omega) w

theorem Cpu.Stack.pushSeg {s : Cpu} {ws : List (BitVec 32)} (h : s.Stack ws) (sel : BitVec 16) (hn : ws.length ≤ 30) :
    ∃ w : BitVec 32, w.setWidth 16 = sel ∧ (s.pushSeg sel).Stack (w :: ws) := Holds.push16 h (by omega) sel

theorem SavedWords.length {s : Cpu} {ws : List (BitVec 32)} (h : SavedWords s ws) : ws.length = 12 := by
  cases h
  rfl

theorem pushad_eq (s : Cpu) : s.pushad =
    (((((((s.push s.eax).push s.ecx).push s.edx).push s.ebx).push s.esp).push s.ebp).push s.esi).push s.edi := by
  simp only [Cpu.pushad, push_ecx, push_edx, push_ebx, push_ebp, push_esi, push_edi]

theorem pushRegisters_eq (s : Cpu) : pushRegisters s = ((((s.pushad.pushSeg s.ds).pushSeg s.es).pushSeg s.fs).pushSeg
    s.gs).loadKernelData := by
  simp only [pushRegisters, pushad_eq, push_ds, push_es, push_fs, push_gs, pushSeg_es, pushSeg_fs, pushSeg_gs]

theorem pushad_stack {s : Cpu} {ws : List (BitVec 32)} (h : s.Stack ws) (hn : ws.length ≤ 10) :
    s.pushad.Stack (s.edi :: s.esi :: s.ebp :: s.esp :: s.ebx :: s.edx :: s.ecx :: s.eax :: ws) := by
  rw [pushad_eq]
  have h4 := (((h.push s.eax (by omega)).push s.ecx (by simp; omega)).push s.edx (by simp; omega)).push s.ebx
    (by simp; omega)
  exact (((h4.push s.esp (by simp; omega)).push s.ebp (by simp; omega)).push s.esi (by simp; omega)).push s.edi
    (by simp; omega)

theorem pushRegisters_stack {s : Cpu} {ws : List (BitVec 32)} (h : s.Stack ws) (hn : ws.length ≤ 6) :
    ∃ saved, SavedWords s saved ∧ (pushRegisters s).Stack (saved ++ ws) := by
  rw [pushRegisters_eq]
  have h8 := pushad_stack h (by omega)
  obtain ⟨ds, hds, h9⟩ := h8.pushSeg s.ds (by simp; omega)
  obtain ⟨es, hes, h10⟩ := h9.pushSeg s.es (by simp; omega)
  obtain ⟨fs, hfs, h11⟩ := h10.pushSeg s.fs (by simp; omega)
  obtain ⟨gs, hgs, h12⟩ := h11.pushSeg s.gs (by simp; omega)
  exact ⟨_, .mk hgs hfs hes hds, h12⟩

theorem deliver_stack {s : Cpu} {ws : List (BitVec 32)} (h : s.Stack ws) (hn : ws.length ≤ 2)
    (err : Option (BitVec 32)) (handler : BitVec 32) : (deliver s err handler).Stack (frameWords s err ++ ws) := by
  have h3 := ((h.push s.eflags (by omega)).push (s.cs.setWidth 32) (by simp; omega)).push s.eip (by simp; omega)
  cases err with
  | none => exact h3
  | some code => exact h3.push code (by simp; omega)

/-- the stack of the handler, from the return address up to the words `ws` of the interrupted code -/
theorem handlerEntry_stack {s : Cpu} {ws : List (BitVec 32)} (h : s.Stack ws) (hn : ws.length ≤ 2)
    (err : Option (BitVec 32)) (handler ret : BitVec 32) : ∃ saved, SavedWords (deliver s err handler) saved ∧
      (handlerEntry s err handler ret).Stack
        (ret :: (pushRegisters (deliver s err handler)).esp :: (saved ++ (frameWords s err ++ ws))) := by
  have hlen : (frameWords s err ++ ws).length ≤ 6 := by
    cases err <;> simp [frameWords] <;> omega
  obtain ⟨saved, hsaved, h1⟩ := pushRegisters_stack (deliver_stack h hn err handler) hlen
  have h2 : (saved ++ (frameWords s err ++ ws)).length ≤ 18 := by
    rw [List.length_append, hsaved.length]
    omega
  exact ⟨saved, hsaved, (h1.push _ (by omega)).push ret (by rw [List.length_cons]; omega)⟩

section
variable (s : Cpu) (err : Option (BitVec 32)) (handler : BitVec 32)
@[simp] theorem deliver_eax : (deliver s err handler).eax = s.eax := by cases err <;> rfl
@[simp] theorem deliver_ecx : (deliver s err handler).ecx = s.ecx := by cases err <;> rfl
@[simp] theorem deliver_edx : (deliver s err handler).edx = s.edx := by cases err <;> rfl
@[simp] theorem deliver_ebx : (deliver s err handler).ebx = s.ebx := by cases err <;> rfl
@[simp] theorem deliver_ebp : (deliver s err handler).ebp = s.ebp := by cases err <;> rfl
@[simp] theorem deliver_esi : (deliver s err handler).esi = s.esi := by cases err <;> rfl
@[simp] theorem deliver_edi : (deliver s err handler).edi = s.edi := by cases err <;> rfl
@[simp] theorem deliver_ds : (deliver s err handler).ds = s.ds := by cases err <;> rfl
@[simp] theorem deliver_es : (deliver s err handler).es = s.es := by cases err <;> rfl
@[simp] theorem deliver_fs : (deliver s err handler).fs = s.fs := by cases err <;> rfl
@[simp] theorem deliver_gs : (deliver s err handler).gs = s.gs := by cases err <;> rfl

theorem SavedWords.deliver {s : Cpu} {err : Option (BitVec 32)} {handler : BitVec 32} {saved : List (BitVec 32)}
    (h : SavedWords (Interrupt.deliver s err handler) saved) : ∃ gs fs es ds : BitVec 32,
      gs.setWidth 16 = s.gs ∧ fs.setWidth 16 = s.fs ∧ es.setWidth 16 = s.es ∧ ds.setWidth 16 = s.ds ∧
      saved = [gs, fs, es, ds, s.edi, s.esi, s.ebp, (Interrupt.deliver s err handler).esp, s.ebx, s.edx, s.ecx, s.eax] := by
  obtain ⟨hgs, hfs, hes, hds⟩ := h
  refine ⟨_, _, _, _, hgs.trans (deliver_gs ..), hfs.trans (deliver_fs ..), hes.trans (deliver_es ..),
    hds.trans (deliver_ds ..), ?_⟩
  simp

end

@[simp] theorem addEsp_mem (s : Cpu) (n : BitVec 32) : (s.addEsp n).mem = s.mem := rfl
@[simp] theorem addEsp_esp (s : Cpu) (n : BitVec 32) : (s.addEsp n).esp = s.esp + n := rfl

/-! ## what the handler leaves -/

/-- A handler in C comes back with the stack pointer that it got, and it has not written to the stack above its
argument: 16 words lie there, with the error code.  The registers may hold anything. -/
structure CFunction (ck : Cpu → Cpu) : Prop where
  esp : ∀ s, (ck s).esp = s.esp
  stack : ∀ s, SameWords s.mem (ck s).mem (s.esp + 8) 16

theorem handler_stack {ck : Cpu → Cpu} (hck : CFunction ck) (s : Cpu) (err : Option (BitVec 32))
    (handler ret : BitVec 32) : let t := callHandler ck ret (deliver s err handler)
    t.esp + 4 = (pushRegisters (deliver s err handler)).esp ∧
      ∃ saved, SavedWords (deliver s err handler) saved ∧ Holds t.mem (t.esp + 4) (saved ++ frameWords s err) := by
  have hnil : s.Stack [] := trivial
  obtain ⟨saved, hsaved, hentry⟩ := handlerEntry_stack hnil (Nat.zero_le _) err handler ret
  rw [List.append_nil] at hentry
  have hlen : (saved ++ frameWords s err).length ≤ 16 := by
    rw [List.length_append, hsaved.length]
    cases err <;> simp [frameWords]
  let e := handlerEntry s err handler ret
  have hesp : (callHandler ck ret (deliver s err handler)).esp = e.esp + 4 := by
    show (ck e).esp + 4 = _
    rw [hck.esp]
  have htop : (e.esp + 4) + 4 = (pushRegisters (deliver s err handler)).esp := by
    show (pushRegisters (deliver s err handler)).esp - 4 - 4 + 4 + 4 = _
    rw [BitVec.sub_add_cancel, BitVec.sub_add_cancel]
  have hsum : (e.esp + 4) + 4 = e.esp + 8 := BitVec.add_assoc _ _ _
  simp only []
  rw [hesp]
  refine ⟨htop, saved, hsaved, Holds.congr hentry.pop.pop fun i hi => ?_⟩
  rw [hsum]
  exact hck.stack e i (by omega)

/-- twelve words are taken off, in the order of the context -/
theorem popRegisters_eq {t : Cpu} {gs fs es ds edi esi ebp skip ebx edx ecx eax : BitVec 32} {ws : List (BitVec 32)}
    (h : Holds t.mem t.esp (gs :: fs :: es :: ds :: edi :: esi :: ebp :: skip :: ebx :: edx :: ecx :: eax :: ws)) :
    ∃ sp, Holds t.mem sp ws ∧ sp = t.esp + 48 ∧ popRegisters t = { t with
      gs := gs.setWidth 16, fs := fs.setWidth 16, es := es.setWidth 16, ds := ds.setWidth 16, edi := edi, esi := esi
      ebp := ebp, ebx := ebx, edx := edx, ecx := ecx, eax := eax, esp := sp } := by
  obtain ⟨h1, h2, h3, h4, h5, h6, h7, _, h8, h9, h10, h11, hws⟩ := h
  refine ⟨_, hws, by simp only [BitVec.add_assoc]; rfl, ?_⟩
  unfold popRegisters Cpu.popad
  simp only [h1, h2, h3, h4, h5, h6, h7, h8, h9, h10, h11]

theorem iretd_eq {t : Cpu} {eip cs eflags : BitVec 32} (h : Holds t.mem t.esp [eip, cs, eflags]) :
    t.iretd = { t with eip := eip, cs := cs.setWidth 16, eflags := eflags, esp := t.esp + 12 } := by
  obtain ⟨h1, h2, h3, _⟩ := h
  have hsp : t.esp + 4 + 4 + 4 = t.esp + 12 := by
    simp only [BitVec.add_assoc]
    rfl
  unfold Cpu.iretd
  simp only [h1, h2, h3, hsp]

theorem setWidth_setWidth_16 (v : BitVec 16) : (v.setWidth 32).setWidth 16 = v := by
  rw [BitVec.setWidth_setWidth_of_le v (by decide), BitVec.setWidth_eq]

theorem pushRegisters_esp (s : Cpu) : (pushRegisters s).esp = s.esp - 48 := by
  show s.esp - 4 - 4 - 4 - 4 - 4 - 4 - 4 - 4 - 4 - 4 - 4 - 4 = _
  simp only [BitVec.sub_sub]
  rfl

/-! ## the context that a handler reads -/

/-- the fields that `pushRegisters` fills, those of the segment registers in their lower halves; `esp` is the one below the
words of the processor -/
structure SavedFields (s : Cpu) (sp : BitVec 32) (c : InterruptContext) : Prop where
  segments : c.gs.setWidth 16 = s.gs ∧ c.fs.setWidth 16 = s.fs ∧ c.es.setWidth 16 = s.es ∧ c.ds.setWidth 16 = s.ds
  pointers : c.edi = s.edi ∧ c.esi = s.esi ∧ c.ebp = s.ebp ∧ c.esp = sp
  data : c.ebx = s.ebx ∧ c.edx = s.edx ∧ c.ecx = s.ecx ∧ c.eax = s.eax

/-- the fields of the processor, by the names that go with an error code or without one; the last two are no words
of the processor, but what the interrupted code has on the top of its stack -/
def FrameFields (s : Cpu) (c : InterruptContext) : Option (BitVec 32) → Prop
  | none => c.eip = s.eip ∧ c.cs.setWidth 16 = s.cs ∧ c.eflag = s.eflags ∧ c.esp2 = load32 s.mem s.esp ∧
      c.ss2 = load32 s.mem (s.esp + 4)
  | some code => c.err_code = code ∧ c.err_eip = s.eip ∧ c.err_cs.setWidth 16 = s.cs ∧ c.err_eflag = s.eflags ∧
      c.err_esp2 = load32 s.mem s.esp ∧ c.err_ss2 = load32 s.mem (s.esp + 4)

/-- which of the two macros the stub of a vector is made with: the table of `ckIdtTableInitialize`, and
`ckUnknownIntHandler` and the handlers of the devices behind it -/
def stubTakesErr (v : Nat) : Bool :=
  [false, false, false, false, false, false, false, false, true, false, true, true, true, true, true, false, false,
    true, false, false, false].getD v false

/-- the exceptions of the processor that come with an error code -/
def pushesErrorCode (v : Nat) : Bool := v = 8 || (10 ≤ v && v ≤ 14) || v = 17

theorem stubTakesErr_eq (v : Nat) : stubTakesErr v = pushesErrorCode v := by
  by_cases h : v < 21
  · interval_cases v <;> rfl
  · have h1 : pushesErrorCode v = false := by
      simp only [pushesErrorCode, Bool.or_eq_false_iff, Bool.and_eq_false_iff, decide_eq_false_iff_not]
      omega
    rw [h1, stubTakesErr, List.getD_eq_getElem?_getD, List.getElem?_eq_none (Nat.le_of_not_lt h)]
    rfl

theorem deliver_esp (s : Cpu) (err : Option (BitVec 32)) (handler : BitVec 32) :
    (deliver s err handler).esp = s.esp - BitVec.ofNat 32 (4 * (frameWords s err).length) := by
  cases err with
  | none =>
    show s.esp - 4 - 4 - 4 = _
    simp only [BitVec.sub_sub]
    rfl
  | some code =>
    show s.esp - 4 - 4 - 4 - 4 = _
    simp only [BitVec.sub_sub]
    rfl

section
variable {ck : Cpu → Cpu} (hck : CFunction ck) (s : Cpu) (handler ret : BitVec 32)
include hck

/-- **The plain stub is transparent**: all registers, the flags and the place of the interrupted code come back, and
the memory is the one that the handler leaves. -/
theorem makeIntHandler_eq : makeIntHandler ck ret (deliver s none handler) =
    { s with mem := (callHandler ck ret (deliver s none handler)).mem } := by
  obtain ⟨hsp, saved, hsaved, hst⟩ := handler_stack hck s none handler ret
  obtain ⟨gs, fs, es, ds, hgs, hfs, hes, hds, rfl⟩ := hsaved.deliver
  rw [pushRegisters_esp, deliver_esp] at hsp
  unfold makeIntHandler
  generalize callHandler ck ret (deliver s none handler) = t at hsp hst ⊢
  obtain ⟨sp, hframe, hsp', e⟩ := popRegisters_eq (t := t.addEsp 4) hst
  have hesp : sp + 12 = s.esp := by
    rw [hsp', addEsp_esp, hsp, BitVec.sub_add_cancel]
    exact BitVec.sub_add_cancel s.esp 12
  have hu : Holds (popRegisters (t.addEsp 4)).mem (popRegisters (t.addEsp 4)).esp (frameWords s none) := by
    rw [e]
    exact hframe
  rw [iretd_eq hu, e]
  simp only [setWidth_setWidth_16, hesp, addEsp_mem, hgs, hfs, hes, hds]

/-- **The stub for error codes** comes back to the right place with the registers moved on by one. -/
theorem makeIntHandlerWithErr_eq (code : BitVec 32) :
    makeIntHandlerWithErr ck ret (deliver s (some code) handler) =
      { s with
        gs := s.fs, fs := s.es, es := s.ds, ds := s.edi.setWidth 16, edi := s.esi, esi := s.ebp, ebp := s.esp - 16
        ebx := s.edx, edx := s.ecx, ecx := s.eax, eax := code
        mem := (callHandler ck ret (deliver s (some code) handler)).mem } := by
  obtain ⟨hsp, saved, hsaved, hst⟩ := handler_stack hck s (some code) handler ret
  obtain ⟨gs, fs, es, ds, hgs, hfs, hes, hds, rfl⟩ := hsaved.deliver
  have hentry : (deliver s (some code) handler).esp = s.esp - 16 := deliver_esp s (some code) handler
  rw [hentry] at hst
  rw [pushRegisters_esp, hentry] at hsp
  unfold makeIntHandlerWithErr
  generalize callHandler ck ret (deliver s (some code) handler) = t at hsp hst ⊢
  have hsp8 : (t.addEsp (4 * 2)).esp = t.esp + 4 + 4 := (BitVec.add_assoc _ 4 4).symm
  have hst' := hst.2
  rw [← hsp8] at hst'
  obtain ⟨sp, hframe, hsp', e⟩ := popRegisters_eq (t := t.addEsp (4 * 2)) hst'
  have hesp : sp + 12 = s.esp := by
    rw [hsp', hsp8, hsp]
    simp only [BitVec.add_assoc, BitVec.sub_sub]
    exact BitVec.sub_add_cancel s.esp 64
  have hu : Holds (popRegisters (t.addEsp (4 * 2))).mem (popRegisters (t.addEsp (4 * 2))).esp
      [s.eip, s.cs.setWidth 32, s.eflags] := by
    rw [e]
    exact hframe
  rw [iretd_eq hu, e]
  simp only [setWidth_setWidth_16, hesp, addEsp_mem, hfs, hes, hds]

/-- the interrupted code cannot tell that its registers have moved on -/
structure Rotated (code : BitVec 32) : Prop where
  segments : s.fs = s.gs ∧ s.es = s.fs ∧ s.ds = s.es ∧ s.edi.setWidth 16 = s.ds
  pointers : s.esi = s.edi ∧ s.ebp = s.esi ∧ s.esp - 16 = s.ebp
  data : s.edx = s.ebx ∧ s.ecx = s.edx ∧ s.eax = s.ecx ∧ code = s.eax

omit hck in
theorem rotated_iff (code : BitVec 32) (m : Mem) : ({ s with
    gs := s.fs, fs := s.es, es := s.ds, ds := s.edi.setWidth 16, edi := s.esi, esi := s.ebp, ebp := s.esp - 16
    ebx := s.edx, edx := s.ecx, ecx := s.eax, eax := code, mem := m } : Cpu) = { s with mem := m } ↔ Rotated s code := by
  rw [Cpu.mk.injEq]
  constructor
  · rintro ⟨h1, h2, h3, h4, _, h5, h6, h7, h8, h9, h10, h11, _⟩
    exact ⟨⟨h11, h10, h9, h8⟩, ⟨h7, h6, h5⟩, ⟨h4, h3, h2, h1⟩⟩
  · rintro ⟨⟨h11, h10, h9, h8⟩, ⟨h7, h6, h5⟩, ⟨h4, h3, h2, h1⟩⟩
    exact ⟨h1, h2, h3, h4, rfl, h5, h6, h7, h8, h9, h10, h11, rfl, rfl, rfl, rfl⟩

end

/-- a handler that spoils the data registers -/
def spoil (s : Cpu) : Cpu := { s with eax := 0, ecx := 0, edx := 0, ds := 0, eflags := 0 }

/-- a stack at 1 MiB with nothing on it -/
def restingCpu : Cpu :=
  { eax := 1, ecx := 2, edx := 3, ebx := 4, esp := 0x00100000, ebp := 5, esi := 6, edi := 7
    ds := 8, es := 8, fs := 8, gs := 8, eip := 0x1000, cs := 16, eflags := 0x202, mem := fun _ => 0 }

end Clubcos.Interrupt
