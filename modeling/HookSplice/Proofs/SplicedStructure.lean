import HookSplice.Proofs.Relocation

/-!
# The structure of spliced bodies

The structural conditions of verification hold of the body that a splice makes.  The operands of the
run and of the stub are in range; regions keep their bounds; and no branch crosses the boundary of a
region, as the whole run stands inside the regions around the splice point, and the splice has
checked its deny branches.
-/

namespace HookSplice

/-! ### Operands and transfers -/

theorem Body.OperandInRange.mono {symbols : SymbolTable} {argCount : Nat} {body body' : Body}
    {a b : Instruction} (range : body.OperandInRange symbols argCount a) (alike : b.Alike a)
    (locals : body.locals.length ≤ body'.locals.length)
    (positions : ∀ l, (body.position? l).isSome → (body'.position? l).isSome) :
    body'.OperandInRange symbols argCount b := by
  unfold OperandInRange at range ⊢
  rw [alike.1, alike.2]
  cases operand : a.operand with
  | slot index =>
      rw [operand] at range
      exact Nat.lt_of_lt_of_le range locals
  | label l =>
      rw [operand] at range
      exact positions l range
  | _ =>
      rw [operand] at range
      exact range

namespace Splice

/-! ### What the splice has checked -/

theorem denyDelta_eq_ok {run : RunEffect} {deny : Label} {delta : Int}
    (success : denyDelta run deny = .ok delta) {e : RunExit} (member : e ∈ run.exits)
    (leads : e.label = deny) : e.delta = delta := by
  have listed : e ∈ run.exits.filter fun e => e.label == deny := by
    simpa [List.mem_filter] using ⟨member, leads⟩
  unfold denyDelta at success
  split at success
  · next none => simp [none] at listed
  · next first others exits =>
      rw [exits] at listed
      split at success
      · cases success
      · next same =>
          cases success
          rcases List.mem_cons.mp listed with rfl | other
          · rfl
          · simpa using List.find?_eq_none.mp same e other

/-- Deny branches that carry the depth at the end of the run agree, and so do none at all. -/
theorem denyDelta_of_exits {run : RunEffect} {deny : Label}
    (agree : ∀ e ∈ run.exits, e.label = deny → e.delta = run.delta) :
    denyDelta run deny = .ok run.delta := by
  unfold denyDelta
  split
  · rfl
  · next first others exits =>
      have inside : ∀ e ∈ first :: others, e.delta = run.delta := by
        intro e member
        rw [← exits] at member
        obtain ⟨listed, leads⟩ := List.mem_filter.mp member
        exact agree e listed (beq_iff_eq.mp leads)
      obtain ⟨same, rest⟩ := List.forall_mem_cons.mp inside
      have none : (others.find? fun e => e.delta != first.delta) = none := by
        rw [List.find?_eq_none]
        intro e member
        rw [rest e member, same]
        simp
      rw [none, same]

/-- What is known of a run whose effect has passed the checks. -/
structure Checked (t : Template) (run : RunEffect) (depth : Nat) (map : StackMap)
    (site : DenySite) (delta : Int) : Prop where
  balance : run.delta = t.delta.toInt
  enough : run.needs ≤ depth
  exits : ∀ e ∈ run.exits, e.label = site.label → e.delta = delta
  arrives : ∀ expected, site.target.bind map.depthAt? = some expected →
    (depth : Int) + delta = expected

theorem checkRun_eq_ok {t : Template} {run : RunEffect} {point depth : Nat} {map : StackMap}
    {site : DenySite} {delta : Int} (success : checkRun t run point depth map site = .ok delta) :
    Checked t run depth map site delta := by
  unfold checkRun at success
  split at success
  · cases success
  next balance =>
    split at success
    · cases success
    next enough =>
      obtain ⟨delta', agree, success⟩ := Except.bind_eq_ok success
      have same : delta' = delta ∧ ∀ expected, site.target.bind map.depthAt? = some expected →
          (depth : Int) + delta' = expected := by
        split at success
        · next unknown =>
            cases success
            exact ⟨rfl, fun expected found => by rw [unknown] at found; cases found⟩
        · next expected known =>
            split at success
            · next equal =>
                cases success
                refine ⟨rfl, fun expected' found => ?_⟩
                rw [known] at found
                cases found
                exact equal
            · cases success
      obtain ⟨rfl, arrives⟩ := same
      exact {
        balance := Decidable.not_not.mp balance
        enough := Nat.le_of_not_lt enough
        exits := fun e member => denyDelta_eq_ok agree member
        arrives := arrives }

/-- No deny branch crosses the boundary of a region. -/
theorem crossing?_eq_none {regions : List Region} {point : Nat} {run : RunEffect} {deny : Label}
    {denyPosition : Nat} (uncrossed : crossing? regions point run deny denyPosition = none)
    {e : RunExit} (member : e ∈ run.exits) (leads : e.label = deny) :
    ∀ r ∈ regions, r.protects (point + e.offset) = r.protects denyPosition ∧
      r.handles (point + e.offset) = r.handles denyPosition := by
  have listed : e ∈ run.exits.filter fun e => e.label == deny := by
    simpa [List.mem_filter] using ⟨member, leads⟩
  have none := List.findSome?_eq_none_iff.mp uncrossed e listed
  simpa using none

/-! ### Return stubs -/

theorem length_returnStub (depth : Nat) (v : ReturnValue) (deny : Label) :
    (returnStub depth v deny).length = depth + v.load.length + 1 := by
  unfold returnStub
  rw [length_withLabels]
  simp [Nat.add_assoc]

/-- The instructions of a return stub. -/
theorem returnStub_getElem? {depth j : Nat} {v : ReturnValue} {deny : Label} {ins : Instruction}
    (here : (returnStub depth v deny)[j]? = some ins) :
    (j < depth ∧ ins.Alike (.plain .pop)) ∨
      (∃ load, v.load = [load] ∧ j = depth ∧ ins.Alike load) ∨
      (j = depth + v.load.length ∧ ins.Alike (.plain .ret)) := by
  have below : j < (List.replicate depth (Instruction.plain .pop) ++ v.load ++
      [Instruction.plain .ret]).length := by
    rw [← length_withLabels [deny]]
    exact (List.getElem?_eq_some_iff.mp here).1
  obtain ⟨base, found⟩ : ∃ base, (List.replicate depth (Instruction.plain .pop) ++ v.load ++
      [Instruction.plain .ret])[j]? = some base := ⟨_, List.getElem?_eq_getElem below⟩
  obtain ⟨ins', here', alike, -⟩ := withLabels_getElem? [deny] found
  obtain rfl := Option.some.inj (here.symm.trans here')
  simp only [List.length_append, List.length_replicate, List.length_singleton] at below
  rw [List.append_assoc, List.getElem?_append, List.length_replicate] at found
  split at found
  · next pops =>
      rw [List.getElem?_replicate, if_pos pops] at found
      cases found
      exact Or.inl ⟨pops, alike⟩
  · next beyond =>
      refine Or.inr ?_
      rw [List.getElem?_append] at found
      split at found
      · next loads =>
          obtain ⟨load, only⟩ : ∃ load, v.load = [load] := by
            cases v <;> first | exact ⟨_, rfl⟩ | exact absurd loads (Nat.not_lt_zero _)
          rw [only, List.length_singleton] at loads
          have start : j = depth := by omega
          rw [only, start, Nat.sub_self, List.getElem?_cons_zero] at found
          cases found
          exact Or.inl ⟨_, only, start, alike⟩
      · next behind =>
          have last : j - depth - v.load.length = 0 := by omega
          rw [last, List.getElem?_cons_zero] at found
          cases found
          exact Or.inr ⟨by omega, alike⟩

/-- The instructions of a stub name no label, and no argument but one that the method has. -/
theorem returnStub_sound (symbols : SymbolTable) (body : Body) {signature : MethodDef}
    {depth j : Nat} {v : ReturnValue} {deny : Label} {ins : Instruction} (fits : v.fits signature)
    (here : (returnStub depth v deny)[j]? = some ins) :
    ins.operandFits ∧ ins.target? = none ∧
      body.OperandInRange symbols signature.argCount ins := by
  have transport {a : Instruction} (alike : ins.Alike a) (sound : a.operandFits ∧
      a.target? = none ∧ body.OperandInRange symbols signature.argCount a) :
      ins.operandFits ∧ ins.target? = none ∧
        body.OperandInRange symbols signature.argCount ins := by
    rw [alike.operandFits, alike.target?]
    exact ⟨sound.1, sound.2.1, sound.2.2.mono alike (Nat.le_refl _) fun _ => id⟩
  rcases returnStub_getElem? here with ⟨-, alike⟩ | ⟨load, only, -, alike⟩ | ⟨-, alike⟩
  · exact transport alike ⟨rfl, rfl, trivial⟩
  · refine transport alike ?_
    cases v with
    | void => cases only
    | arg i =>
        cases only
        simp only [ReturnValue.fits, Bool.and_eq_true, decide_eq_true_eq] at fits
        exact ⟨rfl, rfl, fits.2⟩
    | null | int | text =>
        cases only
        exact ⟨rfl, rfl, trivial⟩
  · exact transport alike ⟨rfl, rfl, trivial⟩

/-! ### The new body -/

namespace Done

variable {symbols : SymbolTable} {options : SpliceOptions} {body : Body} {point : Nat}
  {t : Template} (d : Done symbols options body point t)

/-- The relative depths of the run. -/
theorem explored : RunEffect.Run symbols d.signature d.run d.effect :=
  RunEffect.ofRun_eq_ok d.computed

theorem checks : Checked t d.effect d.depth d.map d.site d.delta :=
  checkRun_eq_ok d.checked

/-- What an instruction of the run may be: one of the template, an access to a scratch local, or a
    branch to the deny label or inside the run. -/
theorem run_cases {o : Nat} {ins : Instruction} (here : d.run[o]? = some ins) :
    (∃ e, .emit e ∈ t.steps ∧ ins.Alike e ∧ e.target? = none ∧ e.operandFits) ∨
      ((ins.opcode = .ldloc ∨ ins.opcode = .stloc) ∧
        ∃ slot, ins.operand = .slot slot ∧ slot.toNat < d.result.locals.length) ∨
      (RunEffect.branches ins ∧ ins.opcode ≠ .leave ∧ ins.operandFits ∧
        ∃ l, ins.operand = .label l ∧ (l = d.site.label ∨ l ∈ Code.labels d.run)) := by
  rcases d.expansion.made ins (List.mem_of_getElem? here) with emitted | scratch | branch
  · obtain ⟨e, source, op, operand, -, untargeted, fits⟩ := emitted
    exact Or.inl ⟨e, source, ⟨op, operand⟩, untargeted, fits⟩
  · exact Or.inr (Or.inl scratch)
  · obtain ⟨transfers, stays, l, operand, known⟩ := branch
    refine Or.inr (Or.inr ⟨?_, stays, ?_, l, operand, known⟩)
    · unfold RunEffect.branches
      revert transfers stays
      cases ins.opcode <;> decide
    · unfold Instruction.operandFits
      rw [operand]
      exact transfers

/-- An instruction of the run that names a label is a branch, to the deny label or inside the
    run. -/
theorem run_target {o : Nat} {ins : Instruction} {l : Label} (here : d.run[o]? = some ins)
    (names : ins.target? = some l) : RunEffect.branches ins ∧ ins.opcode ≠ .leave ∧
      (l = d.site.label ∨ l ∈ Code.labels d.run) := by
  rcases d.run_cases here with emit | scratch | branch
  · obtain ⟨e, -, same, untargeted, -⟩ := emit
    rw [same.target?, untargeted] at names
    cases names
  · obtain ⟨-, slot, operand, -⟩ := scratch
    simp [Instruction.target?, operand] at names
  · obtain ⟨transfers, stays, -, l', operand, label⟩ := branch
    obtain rfl : l' = l := by simpa [Instruction.target?, operand] using names
    exact ⟨transfers, stays, label⟩

/-- The stub stands behind all regions. -/
theorem outside_stub {r : Region} (member : r ∈ body.regions) (j : Nat) :
    (r.shiftAfter point d.run.length).protects (body.size + d.run.length + j) = false ∧
      (r.shiftAfter point d.run.length).handlerStart ≠ body.size + d.run.length + j + 1 := by
  have bounds : StackMap.inBounds (body.size + d.run.length) (r.shiftAfter point d.run.length) :=
    inBounds_shiftAfter r (d.verified.structured.regions r member) (Nat.le_refl _)
  simp only [StackMap.inBounds, Bool.and_eq_true, decide_eq_true_eq] at bounds
  unfold Region.protects
  simp only [Bool.and_eq_false_imp, decide_eq_true_eq, decide_eq_false_iff_not]
  omega

/-- An instruction of the stub belongs to an early return. -/
theorem stub_cases {j : Nat} {ins : Instruction} (here : d.stub[j]? = some ins) :
    ∃ v, v.fits d.signature ∧
      d.stub = returnStub ((d.depth : Int) + d.delta).toNat v d.site.label := by
  cases target : d.site.target with
  | some target' =>
      have empty : d.stub = [] := (denySite_eq_ok d.sited).stub_eq_nil target _ _
      rw [empty] at here
      cases here
  | none => exact d.stub_eq target

section Distinct

variable (distinct : (Code.labels d.result.code).Nodup)
include distinct

/-- A branch of the run to the deny label leaves the run. -/
theorem exit_of_deny {o : Nat} {r : Int} {ins : Instruction}
    (known : RunEffect.depthAt? symbols d.signature d.run o = some r) (here : d.run[o]? = some ins)
    (transfers : RunEffect.branches ins) (target : ins.target? = some d.site.label) :
    ∃ change, StackEffect.ofInstruction symbols d.signature ins = .ok change ∧
      ⟨o, d.site.label, r + change.delta⟩ ∈ d.effect.exits := by
  obtain ⟨change, effect, -, -, -, -, -, outside⟩ := d.explored.step known here
  have absent := Code.position?_eq_none_iff.mpr (d.deny_not_mem_run distinct)
  exact ⟨change, effect, outside transfers target absent⟩

/-- The branch at the end of the run is one of the deny branches that the splice has checked, with
    the depth at the end of the run. -/
theorem exists_exit : ∃ e ∈ d.effect.exits, e.label = d.site.label ∧ e.offset < d.run.length ∧
    e.delta = d.effect.delta :=
  d.expansion.exists_exit d.explored (d.deny_not_mem_run distinct)

/-- The regions around the splice point are those around the deny position. -/
theorem regions_deny
    (uncrossed : crossing? d.result.regions point d.effect d.site.label d.denyPosition = none) :
    ∀ r ∈ body.regions,
      (r.shiftAfter point d.run.length).protects d.denyPosition = r.protects point ∧
      (r.shiftAfter point d.run.length).handles d.denyPosition = r.handles point := by
  intro r member
  obtain ⟨e, exit, leads, within, -⟩ := d.exists_exit distinct
  have shifted : r.shiftAfter point d.run.length ∈ d.result.regions := by
    rw [d.regions_eq]
    exact List.mem_map_of_mem member
  obtain ⟨protects, handles⟩ := crossing?_eq_none uncrossed exit leads _ shifted
  rw [protects_inside r within] at protects
  rw [handles_inside r within] at handles
  exact ⟨protects.symm, handles.symm⟩

/-- Where a label resolves to that a branch of the run names. -/
theorem resolves {l : Label} (known : l = d.site.label ∨ l ∈ Code.labels d.run) :
    (l = d.site.label ∧ d.result.position? l = some d.denyPosition) ∨
      ∃ o, o < d.run.length ∧ Code.position? d.run l = some o ∧
        d.result.position? l = some (point + o) := by
  rcases known with rfl | own
  · exact Or.inl ⟨rfl, d.position?_deny distinct⟩
  · cases found : Code.position? d.run l with
    | none => exact absurd own (Code.position?_eq_none_iff.mp found)
    | some o => exact Or.inr ⟨o, Code.position?_lt found, rfl, d.position?_inside distinct found⟩

theorem operands
    (emitted : ∀ ins, .emit ins ∈ t.steps → body.OperandInRange symbols d.signature.argCount ins)
    {p : Nat} {ins : Instruction} (here : d.result.code[p]? = some ins) :
    StackMap.operandFault? symbols d.result d.signature.argCount p ins = none := by
  have locals : body.locals.length ≤ d.result.locals.length := by
    rw [d.locals_eq, List.length_append]
    exact Nat.le_add_right ..
  have positions : ∀ l, (body.position? l).isSome → (d.result.position? l).isSome := by
    intro l known
    obtain ⟨q, found⟩ := Option.isSome_iff_exists.mp known
    rw [d.position?_moved distinct found]
    rfl
  refine StackMap.operandFault?_eq_none_iff.mpr ?_
  cases d.origin here with
  | moved there alike =>
      obtain ⟨fits, range⟩ :=
        StackMap.operandFault?_eq_none_iff.mp (d.verified.structured.operands there)
      rw [alike.operandFits]
      exact ⟨fits, range.mono alike locals positions⟩
  | @inside o _ inner there alike =>
      have range (inRange : d.result.OperandInRange symbols d.signature.argCount inner) :
          d.result.OperandInRange symbols d.signature.argCount ins :=
        inRange.mono alike (Nat.le_refl _) fun _ => id
      rw [alike.operandFits]
      rcases d.run_cases there with emit | scratch | branch
      · obtain ⟨e, source, same, -, fits⟩ := emit
        rw [same.operandFits]
        exact ⟨fits, range ((emitted e source).mono same locals positions)⟩
      · obtain ⟨op, slot, operand, below⟩ := scratch
        refine ⟨?_, range ?_⟩
        · unfold Instruction.operandFits
          rcases op with op | op <;> rw [op, operand] <;> rfl
        · unfold Body.OperandInRange
          rw [operand]
          exact below
      · obtain ⟨-, -, fits, l, operand, known⟩ := branch
        refine ⟨fits, range ?_⟩
        unfold Body.OperandInRange
        rw [operand]
        show (d.result.position? l).isSome
        rcases d.resolves distinct known with ⟨-, found⟩ | ⟨o, -, -, found⟩ <;> rw [found] <;> rfl
  | stub there =>
      obtain ⟨v, fits, code⟩ := d.stub_cases there
      rw [code] at there
      obtain ⟨shape, -, range⟩ := returnStub_sound symbols d.result fits there
      exact ⟨shape, range⟩

theorem targetOf?_moved {i : Nat} {ins old : Instruction} (here : body.code[i]? = some old)
    (alike : ins.Alike old) :
    d.result.targetOf? ins = (body.targetOf? old).map (Region.shiftBound point d.run.length) := by
  unfold Body.targetOf?
  rw [alike.target?]
  cases target : old.target? with
  | none => rfl
  | some l =>
      have range := (StackMap.operandFault?_eq_none_iff.mp (d.verified.structured.operands here)).2
      have operand : old.operand = .label l := by
        unfold Instruction.target? at target
        split at target
        · next operand =>
            cases target
            exact operand
        · cases target
      unfold Body.OperandInRange at range
      rw [operand] at range
      obtain ⟨q, found⟩ := Option.isSome_iff_exists.mp range
      simp only [Option.bind_some]
      rw [found, d.position?_moved distinct found]
      rfl

theorem transfers
    (uncrossed : crossing? d.result.regions point d.effect d.site.label d.denyPosition = none)
    {p : Nat} {ins : Instruction} (here : d.result.code[p]? = some ins) :
    StackMap.transferFault? d.result p ins = none := by
  refine StackMap.transferFault?_eq_none_iff.mpr ?_
  simp only [d.regions_eq, List.forall_mem_map]
  cases d.origin here with
  | @moved i _ old there alike =>
      obtain ⟨apart, allowed⟩ :=
        StackMap.transferFault?_eq_none_iff.mp (d.verified.structured.transfers there)
      rw [alike.1]
      constructor
      · intro falls r member start
        rw [moved_succ] at start
        have upper := shiftBound_le_shiftBound.mp (Nat.le_of_eq start)
        have lower := shiftBound_le_shiftBound.mp (Nat.le_of_eq start.symm)
        exact apart falls r member (Nat.le_antisymm upper lower)
      · intro target found r member
        rw [d.targetOf?_moved distinct there alike, Option.map_eq_some_iff] at found
        obtain ⟨q, resolved, rfl⟩ := found
        unfold StackMap.mayBranch
        rw [protects_moved, handles_moved, protects_shiftBound, handles_shiftBound]
        exact allowed q resolved r member
  | @inside o _ inner there alike =>
      have within := (List.getElem?_eq_some_iff.mp there).1
      constructor
      · intro _ r _ start
        simp only [Region.shiftAfter, Region.shiftBound] at start
        split at start <;> omega
      · intro target found r member
        obtain ⟨l, names, resolved⟩ := Option.bind_eq_some_iff.mp found
        rw [alike.target?] at names
        obtain ⟨-, stays, known⟩ := d.run_target there names
        unfold StackMap.mayBranch
        rw [if_neg (by simpa [alike.1] using stays), protects_inside r within,
          handles_inside r within]
        rcases d.resolves distinct known with ⟨-, position⟩ | ⟨o', within', -, position⟩
        · obtain rfl := Option.some.inj (resolved.symm.trans position)
          obtain ⟨protects, handles⟩ := d.regions_deny distinct uncrossed r member
          simp [protects, handles]
        · obtain rfl := Option.some.inj (resolved.symm.trans position)
          simp [protects_inside r within', handles_inside r within']
  | @stub j _ there =>
      obtain ⟨v, fits, code⟩ := d.stub_cases there
      rw [code] at there
      constructor
      · exact fun _ r member => (d.outside_stub member j).2
      · intro target found
        obtain ⟨l, names, -⟩ := Option.bind_eq_some_iff.mp found
        rw [(returnStub_sound symbols body fits there).2.1] at names
        cases names

/-- The new body satisfies the structural conditions of verification. -/
theorem structured
    (emitted : ∀ ins, .emit ins ∈ t.steps → body.OperandInRange symbols d.signature.argCount ins)
    (uncrossed : crossing? d.result.regions point d.effect d.site.label d.denyPosition = none) :
    d.result.Structured symbols d.signature.argCount where
  labels := distinct
  operands := d.operands distinct emitted
  regions := by
    rw [d.regions_eq, List.forall_mem_map]
    intro r member
    refine inBounds_shiftAfter r (d.verified.structured.regions r member) ?_
    rw [d.size_eq]
    exact Nat.le_add_right ..
  transfers := d.transfers distinct uncrossed

end Distinct

end Done

end Splice

end HookSplice
