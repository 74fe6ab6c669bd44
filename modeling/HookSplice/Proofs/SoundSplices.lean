import HookSplice.Proofs.KnownTemplates
import HookSplice.Proofs.SplicedCode

/-!
# Splices into sound bodies

A template over a table, spliced into a body that is sound over this table, leaves a sound body
behind.  The labels of the new body are the old ones and the deny label, which the final branch of
the template uses.
-/

namespace HookSplice.Splice

/-- The only label that a deny site attaches is its own. -/
theorem Sited.mem_labels {body : Body} {signature : MethodDef} {point : Nat} {deny : DenyTarget}
    {site : DenySite} (sited : Sited body signature point deny site) {l : Label}
    (member : l ∈ Code.labels site.body.code) : l ∈ Code.labels body.code ∨ l = site.label := by
  cases sited with
  | label found follows => exact Or.inl member
  | returning fits closed => exact Or.inl member
  | anchor found follows =>
      have parts := (labels_attachAt _ (locate_lt found)).mem_iff.mp member
      exact (List.mem_append.mp parts).imp_right List.mem_singleton.mp

/-- A bound within the code stays within the new code. -/
theorem shiftBound_le {point count bound size : Nat} (inside : bound ≤ size) :
    Region.shiftBound point count bound ≤ size + count := by
  unfold Region.shiftBound
  split <;> omega

namespace Done

variable {symbols : SymbolTable} {options : SpliceOptions} {body : Body} {point : Nat}
  {t : Template} (d : Done symbols options body point t) (sound : body.Sound symbols)
  (known : t.KnownIn symbols)

/-- The instructions of a stub fit their opcodes and name no symbols. -/
theorem stub_known {j : Nat} {ins : Instruction} (here : d.stub[j]? = some ins) :
    ins.operandFits ∧ ins.operand.Known symbols := by
  obtain ⟨v, fits, stub⟩ := d.stub_cases here
  rw [stub] at here
  refine ⟨(returnStub_sound symbols body fits here).1, ?_⟩
  rcases returnStub_getElem? here with ⟨-, alike⟩ | ⟨load, loaded, -, alike⟩ | ⟨-, alike⟩
  · rw [alike.2]
    trivial
  · rw [alike.2]
    cases v <;> cases loaded <;> trivial
  · rw [alike.2]
    trivial

include sound known

/-- The instructions of the new body fit their opcodes and name symbols of the table. -/
theorem instruction_known {ins : Instruction} (member : ins ∈ d.result.code) :
    ins.operandFits ∧ ins.operand.Known symbols := by
  obtain ⟨p, here⟩ := List.mem_iff_getElem?.mp member
  cases d.origin here with
  | moved there alike =>
      have inCode := List.mem_of_getElem? there
      exact ⟨alike.operandFits ▸ sound.fits _ inCode, alike.2 ▸ sound.known _ inCode⟩
  | inside there alike =>
      rcases d.run_cases there with ⟨e, emitted, same, -, fits⟩ | ⟨opcode, slot, operand, -⟩ |
        ⟨-, -, fits, l, operand, -⟩
      · have alike' := alike.trans same
        exact ⟨alike'.operandFits ▸ fits, alike'.2 ▸ known.emitted e emitted⟩
      · refine ⟨?_, alike.2 ▸ operand ▸ trivial⟩
        rw [alike.operandFits]
        unfold Instruction.operandFits
        rw [operand]
        rcases opcode with opcode | opcode <;> rw [opcode] <;> rfl
      · exact ⟨alike.operandFits ▸ fits, alike.2 ▸ operand ▸ trivial⟩
  | stub there => exact d.stub_known there

omit known in
/-- A label of the old body is still used. -/
theorem used_old {l : Label} (attached : l ∈ Code.labels body.code) :
    ∃ ins ∈ d.result.code, ins.target? = some l := by
  obtain ⟨old, member, target⟩ := (sound.used l).mp attached
  obtain ⟨i, there⟩ := List.mem_iff_getElem?.mp member
  obtain ⟨ins, here, alike⟩ := d.getElem?_moved there
  exact ⟨ins, List.mem_of_getElem? here, alike.target?.trans target⟩

omit sound known in
/-- The final branch uses the deny label. -/
theorem used_deny : ∃ ins ∈ d.result.code, ins.target? = some d.site.label := by
  obtain ⟨before, last, run, -, operand⟩ := d.expansion.final
  have there : d.run[before.length]? = some last := by
    rw [run]
    exact List.getElem?_concat_length
  obtain ⟨ins, here, alike⟩ := d.getElem?_inside there
  refine ⟨ins, List.mem_of_getElem? here, alike.target?.trans ?_⟩
  rw [Instruction.target?, operand]

variable (spares : body.Spares t.labelCount)
include spares

/-- Exactly the attached labels are used. -/
theorem used_iff (l : Label) :
    l ∈ Code.labels d.result.code ↔ ∃ ins ∈ d.result.code, ins.target? = some l := by
  constructor
  · intro attached
    have unlabelled := Template.labels_materialize (Template.fault?_eq_none d.wellFormed)
      known.unmarked d.expanded
    have parts := d.labels_perm.mem_iff.mp attached
    rw [unlabelled, List.append_nil, List.mem_append] at parts
    rcases parts with site | stub
    · rcases (denySite_eq_ok d.sited).mem_labels site with old | rfl
      · exact d.used_old sound old
      · exact d.used_deny
    · obtain ⟨rfl, -⟩ := d.labels_stub stub
      exact d.used_deny
  · rintro ⟨ins, member, target⟩
    exact d.mem_labels (d.distinct_of_fresh sound.numbered spares) ⟨ins, member, Or.inr target⟩

/-- The new body is sound. -/
theorem sound_result (numbered : d.result.Fresh) : d.result.Sound symbols where
  method := d.method_eq ▸ sound.method
  fits := fun _ member => (d.instruction_known sound known member).1
  known := fun _ member => (d.instruction_known sound known member).2
  attached := d.distinct_of_fresh sound.numbered spares
  used := d.used_iff sound known spares
  numbered := numbered
  locals := fun type member => by
    rw [d.locals_eq] at member
    exact (List.mem_append.mp member).elim (sound.locals type) (known.scratch type)
  inside := fun r member => by
    rw [d.regions_eq] at member
    obtain ⟨old, there, rfl⟩ := List.mem_map.mp member
    obtain ⟨tryStart, tryEnd, handlerStart, handlerEnd⟩ := sound.inside old there
    have within {bound : Nat} (inside : bound ≤ body.size) :
        Region.shiftBound point d.run.length bound ≤ d.result.size := by
      rw [d.size_eq]
      exact (shiftBound_le inside).trans (Nat.le_add_right _ _)
    exact ⟨within tryStart, within tryEnd, within handlerStart, within handlerEnd⟩
  caught := fun r member => by
    rw [d.regions_eq] at member
    obtain ⟨old, there, rfl⟩ := List.mem_map.mp member
    exact sound.caught old there

end Done

/-- A splice of a template over a table leaves a sound body sound, in a checked build or where there
    are numbers for its labels. -/
theorem splice_sound {symbols : SymbolTable} {options : SpliceOptions} {body : Body} {point : Nat}
    {t : Template} {s : Spliced} (sound : body.Sound symbols) (known : t.KnownIn symbols)
    (room : options.overflow = .stops ∨ body.Spares t.labelCount)
    (success : splice symbols options body point t = .ok s) : s.body.Sound symbols := by
  have numbered := splice_fresh sound.numbered room success
  obtain ⟨d, -, -, rfl⟩ := splice_eq_ok success
  exact d.sound_result sound known (d.spares room) numbered

end HookSplice.Splice
