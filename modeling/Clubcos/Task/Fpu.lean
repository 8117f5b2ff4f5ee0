import Clubcos.Task.Run

/-!
# Lazy switching of the FPU registers

The registers change hands only when a task executes an FPU instruction while TS is set.  Under eager
switching every task has registers `v t` of its own.

* `FpuInv`          where the registers of each task are: in the FPU, saved, or not used yet;
* `lazy_eager`      **every FPU instruction finds the registers that eager switching gives it.**
-/

set_option linter.unusedVariables false
set_option linter.unusedSectionVars false

namespace Clubcos
open Word

/-- the registers of the tasks after a call: a slot that is taken starts with `finit` -/
def eager (finit : FpuContext) (s s' : TaskStruct) (v : TaskPtr → FpuContext) : Op → TaskPtr → FpuContext
  | .fpu f => Function.update v s.pNow (f (v s.pNow))
  | _ => fun t => if (s.tasks t).selector = 0 ∧ (s'.tasks t).selector ≠ 0 then finit else v t

/-- `L` are the tasks that have not terminated -/
structure FpuInv (finit : FpuContext) (s : TaskStruct) (L : TaskPtr → Prop) (v : TaskPtr → FpuContext) : Prop where
  owner : s.ts = false → s.pLastTaskUsedFPU = some s.pNow
  last : ∀ t, s.pLastTaskUsedFPU = some t → L t ∧ (s.tasks t).bFpuUsed = true ∧ v t = s.fpu
  saved : ∀ t, L t → s.pLastTaskUsedFPU ≠ some t →
    v t = if (s.tasks t).bFpuUsed then (s.tasks t).fpuContext else finit

variable {finit : FpuContext}

/-- the tasks keep their registers, end, or are new -/
theorem FpuInv.transfer {s s' : TaskStruct} {L L' : TaskPtr → Prop} {v v' : TaskPtr → FpuContext}
    (hf : FpuInv finit s L v)
    (htasks : ∀ t, L' t → (L t ∧ (s'.tasks t).fpuContext = (s.tasks t).fpuContext ∧
        (s'.tasks t).bFpuUsed = (s.tasks t).bFpuUsed ∧ v' t = v t) ∨
      (¬ L t ∧ (s'.tasks t).bFpuUsed = false ∧ v' t = finit))
    (hlast : ∀ t, s'.pLastTaskUsedFPU = some t ↔ s.pLastTaskUsedFPU = some t ∧ L' t) (hfpu : s'.fpu = s.fpu)
    (howner : s'.ts = false → s'.pLastTaskUsedFPU = some s'.pNow) : FpuInv finit s' L' v' := by
  refine ⟨howner, fun t ht => ?_, fun t ht hne => ?_⟩
  · obtain ⟨ht, hL'⟩ := (hlast t).mp ht
    obtain ⟨hL, hused, hv⟩ := hf.last t ht
    rcases htasks t hL' with ⟨_, _, hu, e⟩ | ⟨hno, _⟩
    · exact ⟨hL', hu.trans hused, e.trans (hv.trans hfpu.symm)⟩
    · exact absurd hL hno
  · have hne' : s.pLastTaskUsedFPU ≠ some t := fun h => hne ((hlast t).mpr ⟨h, ht⟩)
    rcases htasks t ht with ⟨hL, hc, hu, e⟩ | ⟨_, hu, e⟩
    · rw [e, hc, hu]
      exact hf.saved t hL hne'
    · rw [e, hu]
      rfl

theorem eager_keeps {s s' : TaskStruct} {v : TaskPtr → FpuContext} {op : Op} (hop : ∀ f, op ≠ .fpu f) {t : TaskPtr}
    (ht : (s.tasks t).selector ≠ 0) : eager finit s s' v op t = v t := by
  cases op with
  | fpu f => exact absurd rfl (hop f)
  | _ => exact if_neg fun h => ht h.1

theorem eager_new {s s' : TaskStruct} {v : TaskPtr → FpuContext} {op : Op} (hop : ∀ f, op ≠ .fpu f) {t : TaskPtr}
    (ht : (s.tasks t).selector = 0) (ht' : (s'.tasks t).selector ≠ 0) : eager finit s s' v op t = finit := by
  cases op with
  | fpu f => exact absurd rfl (hop f)
  | _ => exact if_pos ⟨ht, ht'⟩

/-! ## an FPU instruction -/

/-- **The registers are those of the current task** when its instruction is executed. -/
theorem FpuInv.ready {s : TaskStruct} {L : TaskPtr → Prop} {v : TaskPtr → FpuContext} (hf : FpuInv finit s L v)
    (hnow : L s.pNow) : FpuInv finit (fpuReady finit s) L v ∧ (fpuReady finit s).fpu = v s.pNow ∧
      (fpuReady finit s).pLastTaskUsedFPU = some s.pNow ∧ (fpuReady finit s).pNow = s.pNow := by
  obtain ⟨h1, h2, h3⟩ := hf
  unfold fpuReady
  by_cases hts : s.ts = true
  · rw [if_pos hts]
    by_cases how : some s.pNow = s.pLastTaskUsedFPU
    · rw [handler_owner how]
      exact ⟨⟨fun _ => how.symm, h2, h3⟩, (h2 s.pNow how.symm).2.2.symm, how.symm, rfl⟩
    · -- the registers of the last task are saved, those of the current one loaded
      have hload := h3 s.pNow hnow (Ne.symm how)
      rw [handler_other how]
      refine ⟨⟨fun _ => rfl, fun t ht => ?_, fun t ht hne => ?_⟩, hload.symm, rfl, rfl⟩
      · obtain rfl : s.pNow = t := Option.some.inj ht
        exact ⟨hnow, if_pos rfl, hload⟩
      · have hne : t ≠ s.pNow := fun e => hne (congrArg some e.symm)
        show v t = if (if t = s.pNow then true else (s.tasks t).bFpuUsed) then
          (if s.pLastTaskUsedFPU = some t then s.fpu else (s.tasks t).fpuContext) else finit
        rw [if_neg hne]
        by_cases hl : s.pLastTaskUsedFPU = some t
        · obtain ⟨_, hused, hv⟩ := h2 t hl
          rw [if_pos hused, if_pos hl, hv]
        · rw [if_neg hl]
          exact h3 t ht hl
  · have hts' : s.ts = false := Bool.eq_false_iff.mpr hts
    rw [if_neg hts]
    exact ⟨⟨h1, h2, h3⟩, (h2 s.pNow (h1 hts')).2.2.symm, h1 hts', rfl⟩

theorem FpuInv.instruction {s : TaskStruct} {L : TaskPtr → Prop} {v : TaskPtr → FpuContext}
    (hf : FpuInv finit s L v) (hnow : L s.pNow) (f : FpuContext → FpuContext) :
    FpuInv finit (fpuInstruction finit f s) L (Function.update v s.pNow (f (v s.pNow))) := by
  obtain ⟨⟨h1, h2, h3⟩, hfpu, hlast, hpNow⟩ := hf.ready hnow
  refine ⟨h1, fun t ht => ?_, fun t ht hne => ?_⟩
  · obtain ⟨hL, hused, _⟩ := h2 t ht
    obtain rfl : s.pNow = t := Option.some.inj (hlast.symm.trans ht)
    refine ⟨hL, hused, ?_⟩
    rw [Function.update_self]
    exact congrArg f hfpu.symm
  · have hne' : t ≠ s.pNow := fun e => hne (e ▸ hlast)
    rw [Function.update_of_ne hne']
    exact h3 t ht hne

/-! ## the other calls -/

/-- TS is clear after a switch only if the registers are those of the task that runs now -/
theorem Switched.owner {s s' : TaskStruct} {t : TaskPtr} {hw : Bool} (hs : Switched s t hw s')
    (h : s'.ts = false) : s'.pLastTaskUsedFPU = some s'.pNow := by
  have hts := hs.ts
  rw [h] at hts
  have hnot := (Bool.or_eq_false_iff.mp hts.symm).1
  rw [hs.last, hs.now]
  exact (not_not.mp (of_decide_eq_false hnot)).symm

theorem FpuInv.switched {s s' : TaskStruct} {v v' : TaskPtr → FpuContext} {t : TaskPtr} {p : TaskPriority}
    {hw : Bool} (hf : FpuInv finit s (fun t => (s.tasks t).Live) v) (ht : s.place t = some (.ready p))
    (hs : Switched s t hw s') (hv : ∀ j, (s.tasks j).selector ≠ 0 → v' j = v j) :
    FpuInv finit s' (fun t => (s'.tasks t).Live) v' := by
  have howner := hs.owner
  obtain ⟨cpu, htasks⟩ := hs.tasks
  have hready := (ready_of_place ht).2
  have hexit : (s.tasks t).flag ≠ .waitForExit := fun e => by cases hready.symm.trans e
  have hlive : ∀ j, (s'.tasks j).Live ↔ (s.tasks j).Live := fun j => by
    rw [htasks]
    exact and_congr_right fun _ => not_congr (switchFlag_exit hexit)
  refine hf.transfer (fun j hj => Or.inl ?_) (fun j => ?_) hs.fpu howner
  · have hj' := (hlive j).mp hj
    refine ⟨hj', ?_, ?_, hv j hj'.1⟩ <;> rw [htasks]
  · rw [hs.last]
    exact ⟨fun h => ⟨h, (hlive j).mpr (hf.last j h).1⟩, And.left⟩

theorem FpuInv.created {s s' : TaskStruct} {v v' : TaskPtr → FpuContext} {i : TaskPtr} {t : Task}
    (hf : FpuInv finit s (fun t => (s.tasks t).Live) v) (hfree : (s.tasks i).selector = 0) (hused : t.bFpuUsed = false)
    (htasks : s'.tasks = Function.update s.tasks i t) (hlast : s'.pLastTaskUsedFPU = s.pLastTaskUsedFPU)
    (hfpu : s'.fpu = s.fpu) (hts : s'.ts = s.ts) (hnow : s'.pNow = s.pNow)
    (hv : ∀ j, (s.tasks j).selector ≠ 0 → v' j = v j)
    (hnew : ∀ j, (s.tasks j).selector = 0 → (s'.tasks j).selector ≠ 0 → v' j = finit) :
    FpuInv finit s' (fun t => (s'.tasks t).Live) v' := by
  have hother : ∀ j, j ≠ i → s'.tasks j = s.tasks j := fun j e => by rw [htasks, Function.update_of_ne e]
  refine hf.transfer (fun j hj => ?_) (fun j => ?_) hfpu fun h => ?_
  · by_cases e : j = i
    · refine Or.inr ⟨fun h => h.1 (e ▸ hfree), ?_, hnew j (e ▸ hfree) hj.1⟩
      rw [e, htasks, Function.update_self, hused]
    · rw [hother j e] at hj ⊢
      exact Or.inl ⟨hj, rfl, rfl, hv j hj.1⟩
  · rw [hlast]
    refine ⟨fun h => ⟨h, ?_⟩, And.left⟩
    have hL := (hf.last j h).1
    rwa [hother j fun e => hL.1 (e ▸ hfree)]
  · rw [hlast, hnow]
    exact hf.owner (hts ▸ h)

theorem Departed.registers {s s₁ : TaskStruct} {u : TaskPtr} {r : Option ProcPtr} (hd : Departed s u r s₁)
    (j : TaskPtr) : (s₁.tasks j).fpuContext = (s.tasks j).fpuContext ∧
      (s₁.tasks j).bFpuUsed = (s.tasks j).bFpuUsed := by
  rw [hd.tasks]
  unfold departedTask awake
  constructor <;> split <;> split <;> rfl

/-- a task that has departed owns the registers no more -/
theorem Departed.last_iff {s s₁ : TaskStruct} {u : TaskPtr} {r : Option ProcPtr} (hd : Departed s u r s₁)
    (j : TaskPtr) : s₁.pLastTaskUsedFPU = some j ↔ s.pLastTaskUsedFPU = some j ∧ j ≠ u := by
  rw [hd.last]
  by_cases e : s.pLastTaskUsedFPU = some u
  · rw [if_pos e, e]
    exact ⟨nofun, fun h => absurd (Option.some.inj h.1).symm h.2⟩
  · rw [if_neg e]
    exact ⟨fun h => ⟨h, fun eq => e (eq ▸ h)⟩, And.left⟩

section
variable {s : TaskStruct} (hi : TaskInv s) {v v' : TaskPtr → FpuContext}
  (hf : FpuInv finit s (fun t => (s.tasks t).Live) v) (hv : ∀ j, (s.tasks j).selector ≠ 0 → v' j = v j)
include hi hf hv

theorem FpuInv.exited {s₁ s' : TaskStruct} {u : TaskPtr} {r : Option ProcPtr} {hw : Bool} (hd : Departed s u r s₁)
    (hnow : u = s.pNow) (hex : Exited s₁ u hw s') : FpuInv finit s' (fun t => (s'.tasks t).Live) v' := by
  have hready := hd.not_ready hi.1.toSlotInv (hnow ▸ hi.2.2 : (s.tasks u).flag = .running)
  obtain ⟨flag, cpu, htasks, hflag⟩ := hex.tasks hready
  obtain ⟨t, _, _, hs⟩ := hex
  have hlive : ∀ j, (s'.tasks j).Live ↔ (s.tasks j).Live ∧ j ≠ u := by
    intro j
    rw [← hd.live_iff hi.1.toSlotInv j, htasks]
    show (s₁.tasks j).selector ≠ 0 ∧ flag j ≠ .waitForExit ↔ _
    rw [ne_eq (flag j), hflag, not_or]
    exact ⟨fun h => ⟨⟨h.1, h.2.2⟩, h.2.1⟩, fun h => ⟨h.1.1, h.2, h.1.2⟩⟩
  refine hf.transfer (fun j hj => Or.inl ?_) (fun j => ?_) (hs.fpu.trans hd.fpu) hs.owner
  · have hj' := ((hlive j).mp hj).1
    refine ⟨hj', ?_, ?_, hv j hj'.1⟩
    · rw [htasks]
      exact (hd.registers j).1
    · rw [htasks]
      exact (hd.registers j).2
  · have hlast : s'.pLastTaskUsedFPU = s₁.pLastTaskUsedFPU := hs.last
    rw [hlast, hd.last_iff, hlive]
    exact ⟨fun h => ⟨h.1, (hf.last j h.1).1, h.2⟩, fun h => ⟨h.1, h.2.2⟩⟩

theorem FpuInv.killed {s₁ : TaskStruct} {u : TaskPtr} {r : Option ProcPtr} {h : Heap SchedList TaskPtr}
    {h' : Heap TaskPtr TaskPtr} {g : Pages} (hd : Departed s u r s₁) (hnow : u ≠ s.pNow) :
    FpuInv finit (Clubcos.killed s₁ u r h h' g) (fun t => ((Clubcos.killed s₁ u r h h' g).tasks t).Live) v' := by
  have hlive : ∀ j, ((Clubcos.killed s₁ u r h h' g).tasks j).Live ↔ (s.tasks j).Live ∧ j ≠ u := by
    intro j
    by_cases e : j = u
    · rw [e, killed_self]
      exact ⟨fun h => absurd rfl h.1, fun h => absurd rfl h.2⟩
    · rw [killed_ne e, hd.live_iff hi.1.toSlotInv j]
      exact ⟨fun h => ⟨h, e⟩, And.left⟩
  refine hf.transfer (fun j hj => Or.inl ?_) (fun j => ?_) hd.fpu fun hts => ?_
  · obtain ⟨hj', e⟩ := (hlive j).mp hj
    rw [killed_ne e]
    exact ⟨hj', (hd.registers j).1, (hd.registers j).2, hv j hj'.1⟩
  · show s₁.pLastTaskUsedFPU = some j ↔ _
    rw [hd.last_iff, hlive]
    exact ⟨fun h => ⟨h.1, (hf.last j h.1).1, h.2⟩, fun h => ⟨h.1, h.2.2⟩⟩
  · -- the current task is another one, so its registers stay where they are
    show s₁.pLastTaskUsedFPU = some s₁.pNow
    rw [hd.now]
    exact (hd.last_iff s.pNow).mpr ⟨hf.owner (hd.ts ▸ hts), hnow.symm⟩

end

/-- **A call other than an FPU instruction** keeps the registers of every task. -/
theorem FpuInv.step {s s' : TaskStruct} {v : TaskPtr → FpuContext} {op : Op} {hw : Bool} (hi : TaskInv s)
    (hf : FpuInv finit s (fun t => (s.tasks t).Live) v) (hs : Step finit hw s op s') (hop : ∀ f, op ≠ .fpu f) :
    FpuInv finit s' (fun t => (s'.tasks t).Live) (eager finit s s' v op) := by
  have hv : ∀ j, (s.tasks j).selector ≠ 0 → eager finit s s' v op j = v j := fun j => eager_keeps hop
  have hnew : ∀ j, (s.tasks j).selector = 0 → (s'.tasks j).selector ≠ 0 → eager finit s s' v op j = finit :=
    fun j => eager_new hop
  cases hs with
  | untouched h =>
    refine hf.transfer (fun j hj => Or.inl ?_) (fun j => ?_) h.fpu fun hts => ?_
    · rw [h.tasks] at hj ⊢
      exact ⟨hj, rfl, rfl, hv j hj.1⟩
    · rw [h.last, h.tasks]
      exact ⟨fun h => ⟨h, (hf.last j h).1⟩, And.left⟩
    · rw [h.last, h.now]
      exact hf.owner (h.ts ▸ hts)
  | taskCreated hfree _ => exact hf.created (freeTask_some hfree).2 rfl rfl rfl rfl rfl rfl hv hnew
  | processCreated hfree _ _ => exact hf.created (freeTask_some hfree).2 rfl rfl rfl rfl rfl rfl hv hnew
  | switched ht h => exact hf.switched ht h hv
  | @joined _ u t p s' hu ht h =>
    have hnow := hi.now_live
    have hlive : ∀ j, ((Clubcos.joined s u).tasks j).Live ↔ (s.tasks j).Live := by
      intro j
      by_cases e : j = s.pNow
      · rw [e, joined_self]
        exact ⟨fun _ => hnow, fun _ => ⟨hi.2.1, fun e => by cases e⟩⟩
      · rw [joined_ne e]
    have hf₁ : FpuInv finit (Clubcos.joined s u) (fun t => ((Clubcos.joined s u).tasks t).Live) v := by
      refine hf.transfer (fun j hj => Or.inl ⟨(hlive j).mp hj, ?_, ?_, rfl⟩) (fun j => ?_) rfl hf.owner
      · by_cases e : j = s.pNow
        · rw [e, joined_self]
        · rw [joined_ne e]
      · by_cases e : j = s.pNow
        · rw [e, joined_self]
        · rw [joined_ne e]
      · exact ⟨fun h => ⟨h, (hlive j).mpr (hf.last j h).1⟩, And.left⟩
    refine hf₁.switched ht h fun j hj => hv j ?_
    by_cases e : j = s.pNow
    · exact e ▸ hi.2.1
    · rwa [joined_ne e] at hj
  | exited _ hd hnow hex => exact hf.exited hi hv hd hnow hex
  | killed _ hd hnow => exact hf.killed hi hv hd hnow
  | @buried _ u g hu =>
    have hend : ¬ (s.tasks u).Live := fun h => h.2 (exit_of_place hu).2
    have hne : ∀ j, (s.tasks j).Live → j ≠ u := fun j h e => hend (e ▸ h)
    refine hf.transfer (fun j hj => Or.inl ?_) (fun j => ?_) rfl hf.owner
    · have e : j ≠ u := by
        rintro rfl
        rw [buried_self] at hj
        exact hj.1 rfl
      rw [buried_ne e] at hj ⊢
      exact ⟨hj, rfl, rfl, hv j hj.1⟩
    · refine ⟨fun h => ⟨h, ?_⟩, And.left⟩
      have hL := (hf.last j h).1
      rwa [buried_ne (hne j hL)]
  | fpu => exact absurd rfl (hop _)

/-! ## runs -/

/-- the runs, with the registers that eager switching gives each task -/
inductive EagerRun (finit : FpuContext) : TaskStruct → (TaskPtr → FpuContext) → Prop
  | boot (fpu mem) : EagerRun finit (ckTaskStructInitialize fpu mem) fun _ => finit
  | call {s v op hw s'} : EagerRun finit s v → op.Proper s → exec finit hw s op = some s' →
      EagerRun finit s' (eager finit s s' v op)

theorem boot_fpu (fpu : FpuContext) (mem : Nat → Nat) : FpuInv finit (ckTaskStructInitialize fpu mem)
    (fun t => ((ckTaskStructInitialize fpu mem).tasks t).Live) fun _ => finit := by
  obtain ⟨k, i, htasks, _, _, _, _, hku, _, _, _, _, hiu, _⟩ := boot_tasks fpu mem
  refine ⟨nofun, nofun, fun t _ _ => ?_⟩
  have hused : ((ckTaskStructInitialize fpu mem).tasks t).bFpuUsed = false := by
    rw [htasks]
    show (if t = idleTask then i else if t = kernelTask then k else (TaskStruct.zero fpu mem).tasks t).bFpuUsed = false
    split
    · exact hiu
    · split
      · exact hku
      · rfl
  rw [hused]
  rfl

theorem EagerRun.inv {s : TaskStruct} {v : TaskPtr → FpuContext} (h : EagerRun finit s v) :
    TaskInv s ∧ FpuInv finit s (fun t => (s.tasks t).Live) v := by
  induction h with
  | boot fpu mem => exact ⟨boot_inv fpu mem, boot_fpu fpu mem⟩
  | @call s v op hw s' _ ho e ih =>
    obtain ⟨hi, hf⟩ := ih
    obtain ⟨hi', hs⟩ := ho.step hi e
    refine ⟨hi', ?_⟩
    cases op with
    | fpu f =>
      obtain rfl : fpuInstruction finit f s = s' := Option.some.inj e
      have hf' := hf.instruction hi.now_live f
      obtain ⟨ctx, used, ts, fpu, last, e⟩ := fpuInstruction_eq finit f s
      rw [e] at hf' ⊢
      exact hf'
    | _ => exact hf.step hi hs fun f => nofun

/-- **Lazy switching is eager switching**: whatever the run before it, an FPU instruction finds in the
registers what the last one of the same task left there, or the initial value. -/
theorem lazy_eager {s : TaskStruct} {v : TaskPtr → FpuContext} (h : EagerRun finit s v)
    (f : FpuContext → FpuContext) :
    (fpuReady finit s).fpu = v s.pNow ∧ (fpuInstruction finit f s).fpu = f (v s.pNow) := by
  obtain ⟨hi, hf⟩ := h.inv
  have hready := (hf.ready hi.now_live).2.1
  exact ⟨hready, congrArg f hready⟩

/-- the calls `ops` with the registers that eager switching gives each task -/
def eagerAll (finit : FpuContext) : List Op → TaskStruct → (TaskPtr → FpuContext) →
    Option (TaskStruct × (TaskPtr → FpuContext))
  | [], s, v => some (s, v)
  | op :: ops, s, v =>
    if op.Proper s then (exec finit false s op).bind fun s' => eagerAll finit ops s' (eager finit s s' v op)
    else none

theorem eagerAll_run {ops : List Op} : ∀ {s : TaskStruct} {v : TaskPtr → FpuContext}
    {r : TaskStruct × (TaskPtr → FpuContext)}, EagerRun finit s v → eagerAll finit ops s v = some r →
      EagerRun finit r.1 r.2 := by
  induction ops with
  | nil =>
    intro s v r h e
    exact Option.some.inj e ▸ h
  | cons op ops ih =>
    intro s v r h e
    unfold eagerAll at e
    by_cases ho : op.Proper s
    · rw [if_pos ho] at e
      obtain ⟨s₁, e₁, e₂⟩ := Option.bind_eq_some_iff.mp e
      exact ih (h.call ho e₁) e₂
    · rw [if_neg ho] at e
      cases e

/-- the kernel task loads 1, a new task uses the FPU and ends while it owns the registers -/
def ownerEnds : List Op :=
  [.fpu fun _ => 1, .taskCreate 0 0 0 .realtime, .schedule, .fpu fun x => x + 2, .taskTerminate 4098,
    .schedule]

theorem ownerEnds_some : (eagerAll 5 ownerEnds bootState fun _ => 5).isSome := by decide +kernel

def ownerEndsState : TaskStruct × (TaskPtr → FpuContext) :=
  (eagerAll 5 ownerEnds bootState fun _ => 5).get ownerEnds_some

theorem lazy_eager_ownerEnds : ownerEndsState.1.pNow = kernelTask ∧ (fpuReady 5 ownerEndsState.1).fpu = 1 := by
  have hrun : EagerRun 5 ownerEndsState.1 ownerEndsState.2 :=
    eagerAll_run (.boot 0 fun _ => 0) (Option.some_get ownerEnds_some).symm
  refine ⟨by decide +kernel, (lazy_eager hrun id).1.trans ?_⟩
  decide +kernel

end Clubcos
