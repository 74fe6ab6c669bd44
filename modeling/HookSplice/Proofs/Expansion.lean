import HookSplice.Proofs.Exploration
import HookSplice.Proofs.Splicing

/-!
# Expanded templates

What a valid template expands to: emitted instructions without labels of their own, accesses to its
scratch locals, and branches to the deny label or to one of its own labels.  These are the labels
that the body hands out for its markers, and the run ends with a conditional branch to the deny
label.
-/

namespace HookSplice.Template

/-! ### Valid templates -/

/-- A step that a template with `scratch` scratch locals may have. -/
def SoundStep (scratch : Nat) : Step → Prop
  | .emit ins => ins.opcode.isBranch = false ∧ ins.target? = none ∧ ins.operandFits ∧ ins.labels = []
  | .loadScratch n | .storeScratch n => n < scratch
  | .branch opcode _ => opcode.isBranch ∧ opcode ≠ .leave
  | .mark _ => True

theorem stepFault?_eq_none {scratch : Nat} {placed : List Nat} {step : Step}
    (sound : stepFault? scratch placed step = none) :
    SoundStep scratch step ∧ ∀ n, step.placed? = some n → n ∉ placed := by
  cases step with
  | emit ins =>
      refine ⟨?_, fun n placedHere => by cases placedHere⟩
      simp only [stepFault?] at sound
      split at sound
      · cases sound
      split at sound
      · cases sound
      split at sound
      · cases sound
      simp_all [SoundStep]
  | loadScratch | storeScratch | branch =>
      refine ⟨by simpa [stepFault?, SoundStep] using sound, fun n placedHere => ?_⟩
      cases placedHere
  | mark n =>
      refine ⟨trivial, fun m placedHere => ?_⟩
      cases placedHere
      simpa [stepFault?] using sound

theorem stepsFault?_eq_none {scratch : Nat} {placed : List Nat} {steps : List Step}
    (valid : stepsFault? scratch placed steps = none) :
    (∀ step ∈ steps, SoundStep scratch step) ∧ (steps.filterMap Step.placed?).Nodup ∧
      ∀ n ∈ steps.filterMap Step.placed?, n ∉ placed := by
  induction steps generalizing placed with
  | nil => simp
  | cons step rest ih =>
      unfold stepsFault? at valid
      split at valid
      · cases valid
      next sound =>
        obtain ⟨first, absent⟩ := stepFault?_eq_none sound
        obtain ⟨steps, distinct, new⟩ := ih valid
        refine ⟨List.forall_mem_cons.mpr ⟨first, steps⟩, ?_⟩
        cases placedHere : step.placed? with
        | none =>
            rw [List.filterMap_cons_none placedHere]
            rw [placedHere] at new
            exact ⟨distinct, new⟩
        | some n =>
            rw [List.filterMap_cons_some placedHere]
            simp only [placedHere, Option.toList_some, List.singleton_append, List.mem_cons,
              not_or] at new
            exact ⟨List.nodup_cons.mpr ⟨fun member => (new n member).1 rfl, distinct⟩,
              List.forall_mem_cons.mpr ⟨absent n placedHere, fun m member => (new m member).2⟩⟩

/-- The shape of a valid template. -/
structure Valid (t : Template) : Prop where
  final : ∃ front opcode, t.steps = front ++ [.branch opcode .deny] ∧ opcode.isConditionalBranch
  steps : ∀ step ∈ t.steps, SoundStep t.scratch.length step
  distinct : (t.steps.filterMap Step.placed?).Nodup
  placed : ∀ n ∈ t.steps.filterMap Step.used?, n ∈ t.steps.filterMap Step.placed?

theorem fault?_eq_none {t : Template} (sound : t.fault? = none) : t.Valid := by
  unfold fault? at sound
  split at sound
  · cases sound
  next ends =>
    obtain ⟨stepsSound, unplaced⟩ := Option.or_eq_none_iff.mp sound
    obtain ⟨steps, distinct, -⟩ := stepsFault?_eq_none stepsSound
    refine ⟨?_, steps, distinct, fun n used => ?_⟩
    · cases last : t.steps.getLast? with
      | none => simp [last] at ends
      | some step =>
          obtain ⟨front, split⟩ := List.getLast?_eq_some_iff.mp last
          have final : isFinal step := by simpa [last] using ends
          unfold isFinal at final
          split at final
          · next opcode => exact ⟨front, opcode, split, final⟩
          · cases final
    · simpa using List.find?_eq_none.mp (Option.map_eq_none_iff.mp unplaced) n used

/-! ### Labels -/

theorem filterMap_lookup {κ β : Type} [DecidableEq κ] {entries : List (κ × β)}
    (distinct : (entries.map Prod.fst).Nodup) :
    (entries.map Prod.fst).filterMap (fun x => entries.lookup x) = entries.map Prod.snd := by
  rw [List.filterMap_map, ← List.filterMap_eq_map]
  refine List.filterMap_congr fun entry member => ?_
  exact lookup_of_mem distinct member

variable {slots : List UInt16} {labels : List (Nat × Label)} {deny : Label}

/-- A step that becomes an instruction places no marker, and its instruction has no label. -/
theorem instructionOf?_unlabelled {scratch : Nat} {step : Step} {source : Instruction}
    (sound : SoundStep scratch step) (made : instructionOf? slots labels deny step = some source) :
    step.placed? = none ∧ source.labels = [] := by
  cases step with
  | emit ins =>
      cases made
      exact ⟨rfl, sound.2.2.2⟩
  | loadScratch n => cases made; exact ⟨rfl, rfl⟩
  | storeScratch n => cases made; exact ⟨rfl, rfl⟩
  | branch opcode target => cases target <;> (cases made; exact ⟨rfl, rfl⟩)
  | mark n => cases made

/-- The labels attached in an expansion are those of the markers, in the order in which they are
    placed; the ones pending at the end are lost, which a final branch rules out. -/
theorem labels_expand {scratch : Nat} {front : List Step} {opcode : Opcode}
    (sound : ∀ step ∈ front, SoundStep scratch step) (pending : List Label) :
    Code.labels (expand slots labels deny pending (front ++ [.branch opcode .deny])) =
      pending ++ (front.filterMap Step.placed?).filterMap (fun n => labels.lookup n) := by
  induction front generalizing pending with
  | nil => simp [expand, instructionOf?, Code.labels, Instruction.attach, Instruction.of]
  | cons step rest ih =>
      obtain ⟨first, others⟩ := List.forall_mem_cons.mp sound
      rw [List.cons_append]
      unfold expand
      cases made : instructionOf? slots labels deny step with
      | some source =>
          obtain ⟨unplaced, unlabelled⟩ := instructionOf?_unlabelled first made
          rw [List.filterMap_cons_none unplaced]
          simp only [Code.labels, List.flatMap_cons]
          rw [← Code.labels, ih others]
          simp [Instruction.attach, unlabelled]
      | none =>
          simp only [ih others]
          cases placedHere : step.placed? with
          | none => simp [List.filterMap_cons_none placedHere]
          | some n =>
              rw [List.filterMap_cons_some placedHere]
              cases found : labels.lookup n <;> simp [found]

/-- The labels attached in the expansion of a valid template are those of its markers, as its final
    branch leaves none pending. -/
theorem Valid.labels_expand {t : Template} (valid : t.Valid) :
    Code.labels (expand slots labels deny [] t.steps) =
      (t.steps.filterMap Step.placed?).filterMap fun n => labels.lookup n := by
  obtain ⟨front, opcode, split, -⟩ := valid.final
  have sound : ∀ step ∈ front, SoundStep t.scratch.length step := fun step member =>
    valid.steps step (split ▸ List.mem_append_left _ member)
  have marks : t.steps.filterMap Step.placed? = front.filterMap Step.placed? := by
    rw [split, List.filterMap_append]
    simp [Step.placed?]
  rw [marks, split, Template.labels_expand sound, List.nil_append]

/-! ### Instructions -/

/-- Every instruction of an expansion comes from a step; only its labels are its own. -/
theorem mem_expand {steps : List Step} {pending : List Label} {ins : Instruction}
    (member : ins ∈ expand slots labels deny pending steps) :
    ∃ step ∈ steps, ∃ source, instructionOf? slots labels deny step = some source ∧
      ins.opcode = source.opcode ∧ ins.operand = source.operand := by
  induction steps generalizing pending with
  | nil => cases member
  | cons step rest ih =>
      unfold expand at member
      split at member
      · next source made =>
          rcases List.mem_cons.mp member with rfl | member
          · exact ⟨step, List.mem_cons_self .., source, made, rfl, rfl⟩
          · obtain ⟨step', member', found⟩ := ih member
            exact ⟨step', List.mem_cons_of_mem _ member', found⟩
      · obtain ⟨step', member', found⟩ := ih member
        exact ⟨step', List.mem_cons_of_mem _ member', found⟩

/-- The last instruction of an expansion is the final branch. -/
theorem expand_final (front : List Step) (opcode : Opcode) (pending : List Label) :
    ∃ before last, expand slots labels deny pending (front ++ [.branch opcode .deny]) =
      before ++ [last] ∧ last.opcode = opcode ∧ last.operand = .label deny := by
  induction front generalizing pending with
  | nil => exact ⟨[], _, rfl, rfl, rfl⟩
  | cons step rest ih =>
      rw [List.cons_append]
      unfold expand
      split
      · obtain ⟨before, last, split, found⟩ := ih []
        exact ⟨_ :: before, last, congrArg _ split, found⟩
      · exact ih _

/-- What a valid template with the steps `t.steps` expands to in a body. -/
structure Expanded (t : Template) (body wide : Body) (deny : Label) (run : List Instruction) :
    Prop where
  labels : Code.labels run = (List.range t.marks.length).map body.labelAfter
  allocator : wide.nextLabel = (body.advance t.marks.length).nextLabel
  final : ∃ before last, run = before ++ [last] ∧ last.opcode.isConditionalBranch ∧
    last.operand = .label deny
  made : ∀ ins ∈ run,
    (∃ e, .emit e ∈ t.steps ∧ ins.opcode = e.opcode ∧ ins.operand = e.operand ∧
      e.opcode.isBranch = false ∧ e.target? = none ∧ e.operandFits) ∨
    ((ins.opcode = .ldloc ∨ ins.opcode = .stloc) ∧
      ∃ slot, ins.operand = .slot slot ∧ slot.toNat < wide.locals.length) ∨
    (ins.opcode.isBranch ∧ ins.opcode ≠ .leave ∧
      ∃ l, ins.operand = .label l ∧ (l = deny ∨ l ∈ Code.labels run))

section Labelled

variable {t : Template} (valid : t.Valid)
  (keys : labels.map Prod.fst = t.steps.filterMap Step.placed?)
include valid keys

/-- Each marker gets its label. -/
theorem Valid.labels_eq :
    Code.labels (expand slots labels deny [] t.steps) = labels.map Prod.snd := by
  have distinct : (labels.map Prod.fst).Nodup := keys ▸ valid.distinct
  rw [valid.labels_expand, ← keys, filterMap_lookup distinct]

/-- The marker that a branch names has a label. -/
theorem Valid.lookup_mem {opcode : Opcode} {n : Nat}
    (member : Step.branch opcode (.fresh n) ∈ t.steps) :
    (labels.lookup n).getD deny ∈ labels.map Prod.snd := by
  have placed : n ∈ labels.map Prod.fst := by
    rw [keys]
    exact valid.placed n (List.mem_filterMap.mpr ⟨_, member, rfl⟩)
  obtain ⟨⟨m, l⟩, pair, rfl⟩ := List.mem_map.mp placed
  rw [lookup_of_mem (keys ▸ valid.distinct) pair]
  exact List.mem_map.mpr ⟨_, pair, rfl⟩

/-- An instruction of an expansion is one of the template's own, reads or writes a scratch local, or
    is a branch to the deny label or to one of the expansion. -/
theorem Valid.made {size : Nat} (scratch : ∀ n < t.scratch.length, (slots.getD n 0).toNat < size)
    {ins : Instruction} (member : ins ∈ expand slots labels deny [] t.steps) :
    (∃ e, .emit e ∈ t.steps ∧ ins.opcode = e.opcode ∧ ins.operand = e.operand ∧
      e.opcode.isBranch = false ∧ e.target? = none ∧ e.operandFits) ∨
    ((ins.opcode = .ldloc ∨ ins.opcode = .stloc) ∧
      ∃ slot, ins.operand = .slot slot ∧ slot.toNat < size) ∨
    (ins.opcode.isBranch ∧ ins.opcode ≠ .leave ∧
      ∃ l, ins.operand = .label l ∧ (l = deny ∨ l ∈ labels.map Prod.snd)) := by
  obtain ⟨step, memberStep, source, made, op, operand⟩ := mem_expand member
  have sound := valid.steps step memberStep
  cases step with
  | emit e =>
      cases made
      exact Or.inl ⟨source, memberStep, op, operand, sound.1, sound.2.1, sound.2.2.1⟩
  | loadScratch n =>
      cases made
      exact Or.inr (Or.inl ⟨Or.inl op, _, operand, scratch n sound⟩)
  | storeScratch n =>
      cases made
      exact Or.inr (Or.inl ⟨Or.inr op, _, operand, scratch n sound⟩)
  | branch opcode target =>
      refine Or.inr (Or.inr ?_)
      cases target with
      | deny =>
          cases made
          exact ⟨op ▸ sound.1, op ▸ sound.2, deny, operand, Or.inl rfl⟩
      | fresh n =>
          cases made
          exact ⟨op ▸ sound.1, op ▸ sound.2, _, operand, Or.inr (valid.lookup_mem keys memberStep)⟩
  | mark n => cases made

end Labelled

theorem materialize_expanded {overflow : Overflow} {t : Template} {body wide : Body}
    {deny : Label} {run : List Instruction} (valid : t.Valid)
    (success : t.materialize overflow body deny = .ok (run, wide)) :
    t.Expanded body wide deny run := by
  obtain ⟨slots, labels, declared, allocated, rfl⟩ := materialize_eq_ok success
  obtain ⟨front, opcode, split, conditional⟩ := valid.final
  have keys := allocated.keys
  have length := length_of_declareScratch declared
  have attached : Code.labels (expand slots labels deny [] t.steps) = labels.map Prod.snd :=
    valid.labels_eq keys
  have count : labels.length = t.marks.length := by
    have lengths := congrArg List.length keys
    rwa [List.length_map] at lengths
  have locals : wide.locals = body.locals ++ t.scratch := by rw [allocated.body]; rfl
  have scratch : ∀ n < t.scratch.length, (slots.getD n 0).toNat < wide.locals.length := by
    intro n below
    have below : n < slots.length := length ▸ below
    rw [locals, List.getD_eq_getElem?_getD, List.getElem?_eq_getElem below]
    exact (mem_declareScratch declared (List.getElem_mem below)).2
  refine {
    labels := by rw [attached, allocated.numbers, count]; rfl
    allocator := by rw [allocated.body, count]; rfl
    final := ?_
    made := fun ins member => attached ▸ valid.made keys scratch member }
  obtain ⟨before, last, run, op, operand⟩ := expand_final front opcode []
  exact ⟨before, last, split ▸ run, op ▸ conditional, operand⟩

/-- A checked build expands a template only with numbers for all of its labels. -/
theorem spares_of_materialize {t : Template} {body wide : Body} {deny : Label}
    {run : List Instruction} (success : t.materialize .stops body deny = .ok (run, wide)) :
    body.Spares t.marks.length := by
  obtain ⟨slots, labels, -, allocated, -⟩ := materialize_eq_ok success
  have lengths := congrArg List.length allocated.keys
  rw [List.length_map] at lengths
  exact lengths ▸ allocated.room rfl

/-- When none of its labels is the deny label, a run that control leaves at its end has its last
    branch among its exits, with the depth at the end. -/
theorem Expanded.exists_exit {t : Template} {body wide : Body} {run : List Instruction}
    {symbols : SymbolTable} {signature : MethodDef} {effect : RunEffect}
    (expanded : t.Expanded body wide deny run)
    (explored : RunEffect.Run symbols signature run effect) (absent : deny ∉ Code.labels run) :
    ∃ e ∈ effect.exits, e.label = deny ∧ e.offset < run.length ∧ e.delta = effect.delta := by
  obtain ⟨before, last, split, conditional, operand⟩ := expanded.final
  have reached := explored.reached explored.final
  generalize end_eq : run.length = stop at reached
  cases reached with
  | entry =>
      rw [split, List.length_append, List.length_singleton] at end_eq
      omega
  | branch _ _ _ _ found =>
      have := Code.position?_lt found
      omega
  | @onward o ins reached here falls =>
      have offset : o = before.length := by
        rw [split, List.length_append, List.length_singleton] at end_eq
        omega
      obtain rfl : ins = last := by
        rw [split, offset, List.getElem?_append_right (Nat.le_refl _), Nat.sub_self] at here
        exact (Option.some.inj here).symm
      obtain ⟨r, known⟩ := explored.exists_of_reaches reached
      have transfers : RunEffect.branches ins := Or.inr (by
        simpa [Opcode.isConditionalBranch] using conditional)
      have target : ins.target? = some deny := by
        simp [Instruction.target?, operand]
      obtain ⟨change, -, -, -, -, onward, -, outside⟩ := explored.step known here
      have final := explored.final
      rw [end_eq, onward falls] at final
      exact ⟨_, outside transfers target (Code.position?_eq_none_iff.mpr absent), rfl,
        Nat.lt_succ_self o, Option.some.inj final⟩

/-- A template that places no markers expands to unlabelled instructions. -/
theorem labels_materialize {overflow : Overflow} {t : Template} {body wide : Body} {deny : Label}
    {run : List Instruction} (valid : t.Valid) (unmarked : t.marks = [])
    (success : t.materialize overflow body deny = .ok (run, wide)) : Code.labels run = [] := by
  rw [(materialize_expanded valid success).labels, unmarked]
  rfl

end HookSplice.Template
