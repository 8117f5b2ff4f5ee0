import Clubcos.Keyboard.Stream

/-!
# keyboard.c and the loop of ckMain.c: from the controller to the keys

Scan codes come out of the keyboard controller in two ways: `ck_KeyboardIntHandler` reads them one at a time, and
`ckKeyboardUpdateLED`, which the release of a lock key calls, reads what comes before the acknowledgements.  Both
put them into `g_InterruptQueue`, and `ckMain` takes them out.

* `DispatchStep`           an interrupt, or a step of the loop;
* `DispatchInv`            what is in the queue, and what of it will be passed on;
* `codes_dispatched`       **no scan code is lost just in case the controller sends nothing but acknowledgements while
                           the LEDs are updated**;
* `code_lost`              a key pressed while Caps Lock is released.
-/

set_option linter.unusedVariables false

namespace Clubcos
open Word

/-! ## keyboard.c -/

def keyboardAck : Byte := 0xfa

/-- `PIC_IRQ_KEYBOARD << 24` -/
def interruptQueueFlagKeyboard : BitVec 32 := 1 <<< 24

def interruptQueueSize : Nat := 1024

def ck_KeyboardIntHandler (q : CircularQueue32) (code : Byte) : CircularQueue32 :=
  if code ≠ keyboardAck then (ckCircularQueue32Put q (code.setWidth 32 ||| interruptQueueFlagKeyboard)).2 else q

def ackTryCount : Nat := 100

/-- The loop with the bytes that come out of the port, and those that it leaves; `none` if there are not enough. -/
def ckKeyboardWaitForACKAndPutQueue : (tries : Nat) → CircularQueue32 → List Byte →
    Option (Bool × CircularQueue32 × List Byte)
  | 0, q, port => some (false, q, port)
  | _ + 1, q, [] => none
  | tries + 1, q, data :: port =>
    if data = keyboardAck then some (true, q, port)
    else ckKeyboardWaitForACKAndPutQueue tries (ckCircularQueue32Put q (data.setWidth 32)).2 port

/-- the acknowledgement of the command, and that of the state of the LEDs -/
def ckKeyboardUpdateLED (q : CircularQueue32) (port : List Byte) : Option (Bool × CircularQueue32 × List Byte) :=
  (ckKeyboardWaitForACKAndPutQueue ackTryCount q port).bind fun r =>
    if r.1 then ckKeyboardWaitForACKAndPutQueue ackTryCount r.2.1 r.2.2 else some r

/-! ## the loop of ckMain.c -/

structure Dispatcher where
  queue : CircularQueue32
  keys : Keys
  /-- the entry that has been taken out of the queue -/
  queueData : Option (BitVec 32)

inductive DispatchEvent where
  | irq (code : Byte)
  /-- `ckCircularQueue32Get` -/
  | get
  /-- a call of `ckOnKeyboardInterrupt`, with the bytes read by `ckKeyboardUpdateLED` -/
  | keyboard (data : BitVec 32) (port : List Byte)
  /-- the `switch` has no case for the entry -/
  | skip

/-- the calls of `ckKeyboardUpdateLED`, one after the other -/
def updateLEDs : Nat → CircularQueue32 → List Byte → Option (CircularQueue32 × List Byte)
  | 0, q, port => some (q, port)
  | n + 1, q, port => (ckKeyboardUpdateLED q port).bind fun r => updateLEDs n r.2.1 r.2.2

/-- Nothing is known after an access outside of `g_KeyTable`. -/
def Handles (keys : Keys) (data : BitVec 32) (keys' : Keys) (leds : Nat) : Prop :=
  ∀ r ∈ ckOnKeyboardInterrupt keys data, keys' = r.1 ∧ leds = r.2.count .updateLED

inductive DispatchStep (s : Dispatcher) : DispatchEvent → Dispatcher → Prop
  | irq {code} : DispatchStep s (.irq code) { s with queue := ck_KeyboardIntHandler s.queue code }
  | get {data success queue} : s.queueData = none → s.queue.bEmpty = false →
      ckCircularQueue32Get s.queue false = (data, success, queue) →
      DispatchStep s .get { s with queue := queue, queueData := some data }
  | keyboard {queueData data keys leds port queue} : s.queueData = some queueData →
      queueData &&& 0xff000000 = interruptQueueFlagKeyboard → queueData &&& 0xffffff = data →
      Handles s.keys data keys leds → updateLEDs leds s.queue port = some (queue, []) →
      DispatchStep s (.keyboard data port) ⟨queue, keys, none⟩
  | skip {queueData} : s.queueData = some queueData → queueData &&& 0xff000000 ≠ interruptQueueFlagKeyboard →
      DispatchStep s .skip { s with queueData := none }

inductive DispatchRun (ok : Dispatcher → DispatchEvent → Prop) (s₀ : Dispatcher) : List DispatchEvent → Dispatcher → Prop
  | start : DispatchRun ok s₀ [] s₀
  | step {tr s e s'} : DispatchRun ok s₀ tr s → ok s e → DispatchStep s e s' → DispatchRun ok s₀ (tr ++ [e]) s'

/-! ## what the controller sends -/

def DispatchEvent.interrupt : DispatchEvent → List Byte
  | .irq code => [code]
  | _ => []

def DispatchEvent.polled : DispatchEvent → List Byte
  | .keyboard _ port => port
  | _ => []

/-- the bytes that the controller delivers, in order -/
def delivered (tr : List DispatchEvent) : List Byte := tr.flatMap fun e => e.interrupt ++ e.polled

def polled (tr : List DispatchEvent) : List Byte := tr.flatMap DispatchEvent.polled

/-- the arguments of the calls of `ckOnKeyboardInterrupt` -/
def passed (tr : List DispatchEvent) : List (BitVec 32) :=
  tr.filterMap fun e => match e with
    | .keyboard data _ => some data
    | _ => none

/-- the scan codes among the bytes -/
def codes (bs : List Byte) : List (BitVec 32) := (bs.filter (· ≠ keyboardAck)).map (·.setWidth 32)

/-- The interrupt queue is never full. -/
def DispatchRoom (s : Dispatcher) (e : DispatchEvent) : Prop :=
  Circular.count s.queue.size s.queue.first s.queue.last s.queue.bEmpty + (codes (e.interrupt ++ e.polled)).length ≤
    s.queue.size

/-- an empty queue, in any memory -/
def Dispatcher.start (q : CircularQueue32) (keys : Keys) : Dispatcher :=
  ⟨ckCircularQueue32Init q interruptQueueSize, keys, none⟩

/-- The loop has nothing left to do. -/
def Dispatcher.Drained (s : Dispatcher) : Prop := s.queueData = none ∧ s.queue.bEmpty = true

/-! ## the scan codes -/

theorem codes_append (bs cs : List Byte) : codes (bs ++ cs) = codes bs ++ codes cs := by
  rw [codes, List.filter_append, List.map_append]
  rfl

theorem codes_cons {b : Byte} (h : b ≠ keyboardAck) (bs : List Byte) : codes (b :: bs) = b.setWidth 32 :: codes bs := by
  rw [codes, List.filter_cons_of_pos (p := fun b => decide (b ≠ keyboardAck)) (decide_eq_true h)]
  rfl

theorem codes_ack (bs : List Byte) : codes (keyboardAck :: bs) = codes bs := rfl

theorem codes_eq_nil (bs : List Byte) : codes bs = [] ↔ ∀ b ∈ bs, b = keyboardAck := by
  rw [codes, List.map_eq_nil_iff, List.filter_eq_nil_iff]
  exact forall₂_congr fun b _ => by rw [decide_eq_true_iff, not_not]

/-- the bytes polled are what is delivered beyond the interrupts -/
theorem codes_delivered (tr : List DispatchEvent) : (codes (delivered tr)).length =
    (codes (tr.flatMap DispatchEvent.interrupt)).length + (codes (polled tr)).length ∧
    (codes (polled tr) = [] → codes (delivered tr) = codes (tr.flatMap DispatchEvent.interrupt)) := by
  induction tr with
  | nil => exact ⟨rfl, fun _ => rfl⟩
  | cons e tr ih =>
    unfold delivered polled at *
    simp only [List.flatMap_cons, codes_append, List.length_append, List.append_eq_nil_iff]
    refine ⟨by omega, fun ⟨h1, h2⟩ => ?_⟩
    rw [h1, List.append_nil, ih.2 h2]

/-! ## the polling loop -/

/-- bytes read from the port, and put into the queue without the flag of the keyboard -/
def Reads (q : CircularQueue32) (port : List Byte) (q' : CircularQueue32) (rest : List Byte) : Prop :=
  ∃ read, port = read ++ rest ∧ ∀ xs, q.Contains xs → xs.length + (codes read).length ≤ q.size →
    q'.Contains (xs ++ codes read) ∧ q'.size = q.size

theorem Reads.refl (q : CircularQueue32) (port : List Byte) : Reads q port q port :=
  ⟨[], rfl, fun xs h _ => ⟨(List.append_nil xs).symm ▸ h, rfl⟩⟩

theorem Reads.trans {q q' q'' : CircularQueue32} {port port' port'' : List Byte} (h : Reads q port q' port')
    (h' : Reads q' port' q'' port'') : Reads q port q'' port'' := by
  obtain ⟨read, rfl, hread⟩ := h
  obtain ⟨read', rfl, hread'⟩ := h'
  refine ⟨read ++ read', (List.append_assoc _ _ _).symm, fun xs hxs hroom => ?_⟩
  rw [codes_append, List.length_append] at hroom
  obtain ⟨h1, hsize⟩ := hread xs hxs (by omega)
  obtain ⟨h2, hsize'⟩ := hread' _ h1 (by rw [List.length_append, hsize]; omega)
  rw [codes_append, ← List.append_assoc]
  exact ⟨h2, hsize'.trans hsize⟩

theorem wait_reads : ∀ {tries : Nat} {q q' : CircularQueue32} {port rest : List Byte} {ack : Bool},
    ckKeyboardWaitForACKAndPutQueue tries q port = some (ack, q', rest) → Reads q port q' rest
  | 0, q, q', port, rest, ack, h => by
    obtain ⟨_, h⟩ := Prod.mk.inj (Option.some.inj h)
    obtain ⟨rfl, rfl⟩ := Prod.mk.inj h
    exact Reads.refl q port
  | tries + 1, q, q', data :: port, rest, ack, h => by
    unfold ckKeyboardWaitForACKAndPutQueue at h
    by_cases hack : data = keyboardAck
    · rw [if_pos hack] at h
      obtain ⟨_, h⟩ := Prod.mk.inj (Option.some.inj h)
      obtain ⟨rfl, rfl⟩ := Prod.mk.inj h
      exact ⟨[data], rfl, fun xs hxs _ => by
        rw [hack, codes_ack]
        exact ⟨(List.append_nil xs).symm ▸ hxs, rfl⟩⟩
    · rw [if_neg hack] at h
      refine Reads.trans ⟨[data], rfl, fun xs hxs hroom => ?_⟩ (wait_reads h)
      rw [codes_cons hack] at hroom ⊢
      obtain ⟨q₁, hput, hq₁, hsize⟩ := ckCircularQueue32Put_contains hxs (Nat.lt_of_succ_le hroom) (data.setWidth 32)
      rw [hput]
      exact ⟨hq₁, hsize⟩

theorem updateLED_reads {q q' : CircularQueue32} {port rest : List Byte} {ret : Bool}
    (h : ckKeyboardUpdateLED q port = some (ret, q', rest)) : Reads q port q' rest := by
  obtain ⟨⟨ack, q₁, port₁⟩, h₁, h⟩ := Option.bind_eq_some_iff.mp h
  by_cases hack : ack = true
  · rw [if_pos hack] at h
    exact (wait_reads h₁).trans (wait_reads h)
  · rw [if_neg hack] at h
    obtain ⟨_, h⟩ := Prod.mk.inj (Option.some.inj h)
    obtain ⟨rfl, rfl⟩ := Prod.mk.inj h
    exact wait_reads h₁

theorem updateLEDs_reads : ∀ {n : Nat} {q q' : CircularQueue32} {port rest : List Byte},
    updateLEDs n q port = some (q', rest) → Reads q port q' rest
  | 0, q, q', port, rest, h => by
    obtain ⟨rfl, rfl⟩ := Prod.mk.inj (Option.some.inj h)
    exact Reads.refl q port
  | n + 1, q, q', port, rest, h => by
    obtain ⟨⟨ret, q₁, port₁⟩, h₁, h⟩ := Option.bind_eq_some_iff.mp h
    exact (updateLED_reads h₁).trans (updateLEDs_reads h)

/-! ## the invariant -/

/-- what `ckMain` passes on of an entry -/
def tagged (x : BitVec 32) : Option (BitVec 32) :=
  if x &&& 0xff000000 = interruptQueueFlagKeyboard then some (x &&& 0xffffff) else none

theorem tagged_interrupt (b : Byte) : tagged (b.setWidth 32 ||| interruptQueueFlagKeyboard) = some (b.setWidth 32) := by
  revert b
  decide +kernel

/-- the entries of the polling loop have no case in the `switch` -/
theorem tagged_polled (b : Byte) : tagged (b.setWidth 32) = none := by
  revert b
  decide +kernel

theorem codes_tagged (bs : List Byte) : (codes bs).filterMap tagged = [] := by
  rw [codes, List.filterMap_map, List.filterMap_eq_nil_iff]
  exact fun b _ => tagged_polled b

/-- **What is passed on, and what will be, is what the interrupts have read.** -/
structure DispatchInv (xs : List (BitVec 32)) (tr : List DispatchEvent) (s : Dispatcher) : Prop where
  queue : s.queue.Contains xs
  passes : passed tr ++ (s.queueData.toList ++ xs).filterMap tagged = codes (tr.flatMap DispatchEvent.interrupt)

theorem passed_snoc (tr : List DispatchEvent) (e : DispatchEvent) : passed (tr ++ [e]) = passed tr ++ passed [e] :=
  List.filterMap_append

theorem codes_snoc (tr : List DispatchEvent) (e : DispatchEvent) :
    codes ((tr ++ [e]).flatMap DispatchEvent.interrupt) =
      codes (tr.flatMap DispatchEvent.interrupt) ++ codes e.interrupt := by
  rw [List.flatMap_append, codes_append, List.flatMap_singleton]

/-- an interrupt puts in what will be passed on as its scan code -/
theorem intHandler_contains {q : CircularQueue32} {xs : List (BitVec 32)} (h : q.Contains xs) {code : Byte}
    (hroom : xs.length + (codes [code]).length ≤ q.size) :
    ∃ entries, (ck_KeyboardIntHandler q code).Contains (xs ++ entries) ∧ entries.filterMap tagged = codes [code] := by
  unfold ck_KeyboardIntHandler
  by_cases hack : code = keyboardAck
  · subst hack
    rw [if_neg (not_not_intro rfl)]
    exact ⟨[], (List.append_nil xs).symm ▸ h, rfl⟩
  · rw [codes_cons hack] at hroom ⊢
    obtain ⟨q', hput, hq', _⟩ := ckCircularQueue32Put_contains h (Nat.lt_of_succ_le hroom)
      (code.setWidth 32 ||| interruptQueueFlagKeyboard)
    rw [if_pos hack, hput]
    refine ⟨[_], hq', ?_⟩
    rw [List.filterMap_cons_some (tagged_interrupt code)]
    rfl

/-- one step, given room in the queue -/
theorem DispatchStep.spec {xs : List (BitVec 32)} {tr : List DispatchEvent} {s s' : Dispatcher} {e : DispatchEvent}
    (h : DispatchInv xs tr s) (hroom : DispatchRoom s e) (hs : DispatchStep s e s') :
    ∃ xs', DispatchInv xs' (tr ++ [e]) s' := by
  have hcount : Circular.count s.queue.size s.queue.first s.queue.last s.queue.bEmpty = xs.length :=
    Circular.Contains.count_eq h.queue
  have hpasses := h.passes
  unfold DispatchRoom at hroom
  rw [hcount] at hroom
  cases hs with
  | @irq code =>
    obtain ⟨entries, hq, htagged⟩ := intHandler_contains h.queue hroom
    refine ⟨xs ++ entries, hq, ?_⟩
    rw [passed_snoc, codes_snoc, ← hpasses, List.append_assoc]
    show passed tr ++ ([] ++ (s.queueData.toList ++ (xs ++ entries)).filterMap tagged) = _ ++ codes [code]
    rw [List.nil_append, ← List.append_assoc s.queueData.toList, List.filterMap_append, htagged, List.append_assoc]
  | @get data success queue hnone hempty hget =>
    have hne : xs ≠ [] := fun e => Bool.false_ne_true (hempty.symm.trans (h.queue.empty.mpr e))
    obtain ⟨x, xs, rfl⟩ := List.exists_cons_of_ne_nil hne
    obtain ⟨q', hget', hq', _⟩ := ckCircularQueue32Get_contains h.queue
    obtain ⟨rfl, h'⟩ := Prod.mk.inj (hget'.symm.trans hget)
    obtain ⟨_, rfl⟩ := Prod.mk.inj h'
    refine ⟨xs, hq', ?_⟩
    rw [passed_snoc, codes_snoc, ← hpasses, hnone, List.append_assoc]
    show passed tr ++ ([] ++ (x :: xs).filterMap tagged) = _ ++ []
    rw [List.nil_append, List.append_nil]
    rfl
  | @keyboard queueData data keys leds port queue hdata hflag hcode _ hled =>
    obtain ⟨read, hport, hread⟩ := updateLEDs_reads hled
    rw [List.append_nil] at hport
    subst hport
    obtain ⟨hq, _⟩ := hread xs h.queue hroom
    refine ⟨xs ++ codes port, hq, ?_⟩
    have hpass : tagged queueData = some data := by rw [tagged, if_pos hflag, hcode]
    rw [passed_snoc, codes_snoc, ← hpasses, hdata, List.append_assoc]
    show passed tr ++ ([data] ++ (xs ++ codes port).filterMap tagged) =
      passed tr ++ (queueData :: xs).filterMap tagged ++ []
    rw [List.filterMap_append, codes_tagged, List.append_nil, List.append_nil, List.filterMap_cons_some hpass]
    rfl
  | @skip queueData hdata hflag =>
    have hpass : tagged queueData = none := if_neg hflag
    refine ⟨xs, h.queue, ?_⟩
    rw [passed_snoc, codes_snoc, ← hpasses, hdata, List.append_assoc]
    show passed tr ++ ([] ++ xs.filterMap tagged) = passed tr ++ (queueData :: xs).filterMap tagged ++ []
    rw [List.filterMap_cons_none hpass, List.nil_append, List.append_nil]

theorem DispatchRun.inv {q : CircularQueue32} {keys : Keys} {tr : List DispatchEvent} {s : Dispatcher}
    (hr : DispatchRun DispatchRoom (.start q keys) tr s) : ∃ xs, DispatchInv xs tr s := by
  induction hr with
  | start => exact ⟨[], ckCircularQueue32Init_contains q (by decide), rfl⟩
  | step _ ho hs ih =>
    obtain ⟨xs, hinv⟩ := ih
    exact hs.spec hinv ho

/-- **Scan codes and LEDs**: the scan codes passed on are always some of the delivered ones, in order and each
once, as long as only acknowledgements are polled; and when the loop has nothing left to do, they are all of them
just in case that is so. -/
theorem codes_dispatched {q : CircularQueue32} {keys : Keys} {tr : List DispatchEvent} {s : Dispatcher}
    (hr : DispatchRun DispatchRoom (.start q keys) tr s) :
    ((∀ b ∈ polled tr, b = keyboardAck) → passed tr <+: codes (delivered tr)) ∧
    (s.Drained → (passed tr = codes (delivered tr) ↔ ∀ b ∈ polled tr, b = keyboardAck)) := by
  obtain ⟨xs, hinv⟩ := hr.inv
  obtain ⟨hlen, heq⟩ := codes_delivered tr
  have hpasses := hinv.passes
  refine ⟨fun hack => ?_, fun ⟨hnone, hempty⟩ => ?_⟩
  · rw [heq ((codes_eq_nil _).mpr hack), ← hpasses]
    exact List.prefix_append _ _
  · rw [hnone, hinv.queue.empty.mp hempty] at hpasses
    have hall : passed tr = codes (tr.flatMap DispatchEvent.interrupt) := (List.append_nil _).symm.trans hpasses
    rw [hall, ← codes_eq_nil]
    refine ⟨fun e => List.length_eq_zero_iff.mp ?_, fun e => (heq e).symm⟩
    rw [← e] at hlen
    omega

/-! ## a release of Caps Lock -/

theorem handles_capsLock : ∃ keys, Handles (Keys.start g_Keyboard) 0xba keys 1 := by
  have h : (ckOnKeyboardInterrupt (Keys.start g_Keyboard) 0xba).map Prod.snd = some [.updateLED] := by decide +kernel
  obtain ⟨r, hr, heffects⟩ := Option.map_eq_some_iff.mp h
  refine ⟨r.1, fun r' hr' => ?_⟩
  obtain rfl := Option.some.inj (hr.symm.trans hr')
  rw [heffects]
  exact ⟨rfl, rfl⟩

def anyQueue : CircularQueue32 := ⟨fun _ => 0, 0, 0, 0, false⟩

/-- the interrupt of the release, and the bytes that come while the LEDs are updated -/
def capsLock (port : List Byte) : List DispatchEvent := [.irq 0xba, .get, .keyboard 0xba port]

theorem capsLock_taken : ∃ s, DispatchRun DispatchRoom (.start anyQueue (Keys.start g_Keyboard)) [.irq 0xba, .get] s ∧
    s.keys = Keys.start g_Keyboard ∧ s.queueData = some 0x010000ba ∧
    s.queue = ⟨Function.update (fun _ => 0) 0 0x010000ba, 1, 1, 1024, true⟩ := by
  have r₀ : DispatchRun DispatchRoom (.start anyQueue (Keys.start g_Keyboard)) [] _ := .start
  have r₁ := r₀.step (e := .irq 0xba) (by unfold DispatchRoom; decide) .irq
  have r₂ := r₁.step (e := .get) (by unfold DispatchRoom; decide) (.get rfl rfl rfl)
  exact ⟨_, r₂, rfl, rfl, rfl⟩

theorem capsLock_run (port : List Byte) {queue : CircularQueue32} (hroom : (codes port).length ≤ 1024)
    (hled : updateLEDs 1 ⟨Function.update (fun _ => 0) 0 0x010000ba, 1, 1, 1024, true⟩ port = some (queue, [])) :
    ∃ keys, DispatchRun DispatchRoom (.start anyQueue (Keys.start g_Keyboard)) (capsLock port) ⟨queue, keys, none⟩ := by
  obtain ⟨keys, hkeys⟩ := handles_capsLock
  obtain ⟨s, hr, hs, hdata, hqueue⟩ := capsLock_taken
  refine ⟨keys, hr.step ?_ (.keyboard hdata rfl rfl (hs ▸ hkeys) (hqueue ▸ hled))⟩
  unfold DispatchRoom
  rw [hqueue]
  exact Nat.le_trans (Nat.le_of_eq (Nat.zero_add _)) hroom

theorem codes_dispatched_capsLock : passed (capsLock [0xfa, 0xfa]) = codes (delivered (capsLock [0xfa, 0xfa])) ↔
    ∀ b ∈ polled (capsLock [0xfa, 0xfa]), b = keyboardAck := by
  obtain ⟨keys, hr⟩ := capsLock_run [0xfa, 0xfa] (by decide) rfl
  exact (codes_dispatched hr).2 ⟨rfl, rfl⟩

/-- **The key `a`, pressed at that time**, goes into the queue without the flag, and the loop drops it. -/
theorem code_lost : ∃ s, DispatchRun DispatchRoom (.start anyQueue (Keys.start g_Keyboard))
      (capsLock [0x1e, 0xfa, 0xfa] ++ [.get] ++ [.skip]) s ∧ s.Drained ∧
    codes (delivered (capsLock [0x1e, 0xfa, 0xfa] ++ [.get] ++ [.skip])) = [0xba, 0x1e] ∧
    passed (capsLock [0x1e, 0xfa, 0xfa] ++ [.get] ++ [.skip]) = [0xba] := by
  obtain ⟨keys, hr⟩ := capsLock_run [0x1e, 0xfa, 0xfa] (by decide) rfl
  have r₁ := hr.step (e := .get) (by show Circular.count 1024 1 2 false + 0 ≤ 1024; decide) (.get rfl rfl rfl)
  have r₂ := r₁.step (e := .skip) (by show Circular.count 1024 2 2 true + 0 ≤ 1024; decide)
    (@DispatchStep.skip _ 0x1e rfl (by decide))
  exact ⟨_, r₂, ⟨rfl, rfl⟩, rfl, rfl⟩

end Clubcos
