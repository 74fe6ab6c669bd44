import HookSplice.Proofs.SplicedCode

/-!
# Closed templates

A valid template expands to closed code: one instruction for each step that is no mark, branches to
the deny label or to the labels of its own marks, and no labels but these, each of them attached to
the one instruction behind its mark.  The marks take the labels from the allocator on, so that they
differ from each other and from all labels of a body whose allocator is fresh, as long as there are
numbers for them.  The scratch locals stand behind those of the body; when the slots do not suffice,
the expansion fails, and no index is made at all.
-/

namespace HookSplice.Template

/-- The label of a marker in a body: the markers take the labels that the body hands out, in the
    order in which they are placed. -/
def markLabel (t : Template) (body : Body) (n : Nat) : Label :=
  body.labelAfter (t.marks.idxOf n)

/-- The instruction that a step becomes, apart from its labels, when the scratch locals stand behind
    `base` other ones. -/
inductive Becomes (base : Nat) (labelOf : Nat → Label) (deny : Label) : Step → Instruction → Prop
  | emit {source ins : Instruction} (alike : ins.Alike source) :
      Becomes base labelOf deny (.emit source) ins
  | load {n : Nat} {slot : UInt16} {ins : Instruction} (index : slot.toNat = base + n)
      (alike : ins.Alike (.of .ldloc (.slot slot))) :
      Becomes base labelOf deny (.loadScratch n) ins
  | store {n : Nat} {slot : UInt16} {ins : Instruction} (index : slot.toNat = base + n)
      (alike : ins.Alike (.of .stloc (.slot slot))) :
      Becomes base labelOf deny (.storeScratch n) ins
  | deny {opcode : Opcode} {ins : Instruction} (alike : ins.Alike (.of opcode (.label deny))) :
      Becomes base labelOf deny (.branch opcode .deny) ins
  | fresh {opcode : Opcode} {n : Nat} {ins : Instruction}
      (alike : ins.Alike (.of opcode (.label (labelOf n)))) :
      Becomes base labelOf deny (.branch opcode (.fresh n)) ins

/-- The code that a template expands to in a body whose allocator is fresh. -/
structure Closed (t : Template) (body : Body) (deny : Label) (run : List Instruction) : Prop where
  count : run.length = t.count
  steps : List.Forall₂ (Becomes body.locals.length (t.markLabel body) deny)
    (t.steps.filter Step.isInstruction) run
  targets : ∀ ins ∈ run, ∀ l, ins.target? = some l →
    l = deny ∨ ∃ n ∈ t.marks, l = t.markLabel body n
  labels : Code.labels run = t.marks.map (t.markLabel body)
  /-- A label stands at the instruction that follows its mark, and nowhere else. -/
  attached : ∀ before n after, t.steps = before ++ .mark n :: after →
    before.countP Step.isInstruction < run.length ∧
      ∀ (i : Nat) (ins : Instruction), run[i]? = some ins →
        (t.markLabel body n ∈ ins.labels ↔ i = before.countP Step.isInstruction)
  distinct : (t.marks.map (t.markLabel body)).Nodup
  unused : ∀ n ∈ t.marks, ¬ body.Uses (t.markLabel body n)
  /-- A deny label that the body knows is none of the marks' own. -/
  apart : deny.number < body.nextLabel.toNat → deny ∉ Code.labels run
  final : ∃ front last, run = front ++ [last] ∧ last.opcode.isConditionalBranch ∧
    last.operand = .label deny

/-! ### Scratch locals -/

/-- The slots of scratch locals follow those of the body. -/
theorem declareScratch_of_room {types : List TypeId} {body : Body}
    (room : types.length ≤ Body.slotLimit - body.locals.length) :
    declareScratch types body =
      .ok ((List.range' body.locals.length types.length).map UInt16.ofNat,
        { body with locals := body.locals ++ types }) := by
  induction types generalizing body with
  | nil => simp [declareScratch]
  | cons type rest ih =>
      have free : body.locals.length < Body.slotLimit := by
        rw [List.length_cons] at room
        omega
      have later := @ih { body with locals := body.locals ++ [type] } (by
        simp only [List.length_cons, List.length_append, List.length_nil] at room ⊢
        omega)
      unfold declareScratch Body.declareLocal?
      simp only [if_pos free, later, Except.ok_bind]
      simp [List.range'_succ, pure, Except.pure]

/-- When there are too few slots, they are all taken at the failure. -/
theorem declareScratch_of_crowded {types : List TypeId} {body : Body}
    (crowded : Body.slotLimit - body.locals.length < types.length) :
    ∃ full, declareScratch types body = .error full ∧
      full.locals.length = max Body.slotLimit body.locals.length := by
  induction types generalizing body with
  | nil => simp at crowded
  | cons type rest ih =>
      unfold declareScratch Body.declareLocal?
      by_cases free : body.locals.length < Body.slotLimit
      · obtain ⟨full, fails, length⟩ := @ih { body with locals := body.locals ++ [type] } (by
          simp only [List.length_cons, List.length_append, List.length_nil] at crowded ⊢
          omega)
        refine ⟨full, ?_, ?_⟩
        · simp only [if_pos free, fails]
          rfl
        · rw [length]
          simp only [List.length_append, List.length_singleton]
          omega
      · refine ⟨body, by rw [if_neg free], ?_⟩
        omega

theorem getD_slots {base count n : Nat} (room : count ≤ Body.slotLimit - base) (below : n < count) :
    (((List.range' base count).map UInt16.ofNat).getD n 0).toNat = base + n := by
  have small : base + n < UInt16.size := by
    unfold Body.slotLimit at room
    omega
  simp only [List.getD_eq_getElem?_getD, List.getElem?_map, List.getElem?_range' below]
  simpa using UInt16.toNat_ofNat_of_lt' small

/-! ### Labels of marks -/

section Marks

variable {t : Template} {body : Body}

/-- The number of a mark's label is behind those of the body by its place among the marks. -/
theorem number_markLabel (spares : body.Spares t.marks.length) {n : Nat} (placed : n ∈ t.marks) :
    (t.markLabel body n).number = body.nextLabel.toNat + t.marks.idxOf n :=
  (spares.le (Nat.le_of_lt (List.idxOf_lt_length_of_mem placed))).number_labelAfter

theorem nextLabel_le_markLabel (spares : body.Spares t.marks.length) {n : Nat}
    (placed : n ∈ t.marks) : body.nextLabel.toNat ≤ (t.markLabel body n).number := by
  rw [number_markLabel spares placed]
  exact Nat.le_add_right ..

theorem nodup_markLabels (distinct : t.marks.Nodup) (spares : body.Spares t.marks.length) :
    (t.marks.map (t.markLabel body)).Nodup := by
  refine distinct.map_on fun n here m there same => ?_
  have numbers := congrArg Label.number same
  rw [number_markLabel spares here, number_markLabel spares there] at numbers
  exact (List.idxOf_inj here).mp (Nat.add_left_cancel numbers)

/-- The labels of the markers are those that the expansion allocates. -/
theorem lookup_freshLabels (distinct : t.marks.Nodup) {overflow : Overflow} {start wide : Body}
    {labels : List (Nat × Label)} (allocated : Allocated overflow t.steps start wide labels)
    (next : start.nextLabel = body.nextLabel) {n : Nat} (placed : n ∈ t.marks) :
    labels.lookup n = some (t.markLabel body n) := by
  have keys : labels.map Prod.fst = t.marks := allocated.keys
  have below := List.idxOf_lt_length_of_mem placed
  have inside : t.marks.idxOf n < labels.length := by
    have length := congrArg List.length keys
    rw [List.length_map] at length
    exact length ▸ below
  have key : labels[t.marks.idxOf n].1 = n := by
    have here : (labels.map Prod.fst)[t.marks.idxOf n]? = some n := by
      rw [keys]
      exact (List.getElem?_eq_getElem below).trans (congrArg some (List.getElem_idxOf below))
    simpa [List.getElem?_eq_getElem inside] using here
  have label : labels[t.marks.idxOf n].2 = t.markLabel body n := by
    have here := congrArg (·[t.marks.idxOf n]?) allocated.numbers
    simpa [List.getElem?_eq_getElem inside, List.getElem?_range inside, Body.labelAfter, next,
      markLabel] using here
  have pair : labels[t.marks.idxOf n] = (n, t.markLabel body n) := Prod.ext key label
  exact lookup_of_mem (keys ▸ distinct) (pair ▸ List.getElem_mem inside)

end Marks

/-! ### The expansion, step by step -/

section Expand

variable {slots : List UInt16} {labels : List (Nat × Label)} {deny : Label}

theorem isSome_instructionOf? (step : Step) :
    (instructionOf? slots labels deny step).isSome = step.isInstruction := by
  cases step with
  | branch opcode target => cases target <;> rfl
  | emit | loadScratch | storeScratch | mark => rfl

/-- Each step that is no mark becomes one instruction, in the order of the steps. -/
theorem forall₂_expand {R : Step → Instruction → Prop} {steps : List Step}
    (becomes : ∀ step ∈ steps, ∀ source ins, instructionOf? slots labels deny step = some source →
      ins.Alike source → R step ins) (pending : List Label) :
    List.Forall₂ R (steps.filter Step.isInstruction) (expand slots labels deny pending steps) := by
  induction steps generalizing pending with
  | nil => exact .nil
  | cons step rest ih =>
      obtain ⟨first, others⟩ := List.forall_mem_cons.mp becomes
      have kind := @isSome_instructionOf? slots labels deny step
      unfold expand
      cases made : instructionOf? slots labels deny step with
      | some source =>
          rw [made, Option.isSome_some] at kind
          rw [List.filter_cons_of_pos kind.symm]
          exact .cons (first source _ made ⟨rfl, rfl⟩) (ih others [])
      | none =>
          rw [made, Option.isSome_none] at kind
          rw [List.filter_cons_of_neg (by simp [← kind])]
          exact ih others _

theorem length_expand (pending : List Label) (steps : List Step) :
    (expand slots labels deny pending steps).length = steps.countP Step.isInstruction := by
  have made := @forall₂_expand slots labels deny (fun _ _ => True) steps
    (fun _ _ _ _ _ _ => trivial) pending
  rw [← made.length_eq, List.countP_eq_length_filter]

/-- The first instruction takes all labels that are pending. -/
theorem expand_takes_pending (pending : List Label) {steps : List Step}
    (goesOn : ∃ step ∈ steps, step.isInstruction) :
    ∃ ins, (expand slots labels deny pending steps)[0]? = some ins ∧ pending ⊆ ins.labels := by
  induction steps generalizing pending with
  | nil =>
      obtain ⟨step, member, -⟩ := goesOn
      cases member
  | cons step rest ih =>
      have kind := @isSome_instructionOf? slots labels deny step
      unfold expand
      cases made : instructionOf? slots labels deny step with
      | some source => exact ⟨_, rfl, List.subset_append_right _ _⟩
      | none =>
          rw [made, Option.isSome_none] at kind
          obtain ⟨found, member, isInstruction⟩ := goesOn
          have later : found ∈ rest := by
            rcases List.mem_cons.mp member with rfl | later
            · rw [← kind] at isInstruction
              cases isInstruction
            · exact later
          obtain ⟨ins, first, taken⟩ := ih (pending ++ (step.placed?.bind fun n =>
            labels.lookup n).toList) ⟨found, later, isInstruction⟩
          exact ⟨ins, first, fun l member => taken (List.mem_append_left _ member)⟩

/-- The label of a marker stands at the instruction that follows its mark. -/
theorem expand_attaches {n : Nat} {l : Label} (known : labels.lookup n = some l)
    {after : List Step} (goesOn : ∃ step ∈ after, step.isInstruction) (pending : List Label)
    (before : List Step) :
    ∃ ins, (expand slots labels deny pending
      (before ++ .mark n :: after))[before.countP Step.isInstruction]? = some ins ∧
        l ∈ ins.labels := by
  induction before generalizing pending with
  | nil =>
      obtain ⟨ins, first, taken⟩ :=
        @expand_takes_pending slots labels deny (pending ++ [l]) after goesOn
      have placed : expand slots labels deny pending (.mark n :: after) =
          expand slots labels deny (pending ++ [l]) after := by
        rw [expand]
        simp [instructionOf?, Step.placed?, known]
      rw [List.nil_append, placed]
      exact ⟨ins, first, taken (by simp)⟩
  | cons step rest ih =>
      have kind := @isSome_instructionOf? slots labels deny step
      rw [List.cons_append, List.countP_cons]
      unfold expand
      cases made : instructionOf? slots labels deny step with
      | some source =>
          rw [made, Option.isSome_some] at kind
          rw [if_pos kind.symm]
          exact ih []
      | none =>
          rw [made, Option.isSome_none] at kind
          rw [if_neg (by simp [← kind])]
          exact ih _

end Expand

/-! ### Valid templates -/

section Valid

variable {t : Template} {body : Body} {slots : List UInt16} {labels : List (Nat × Label)}
  {deny : Label}

/-- A step of a template becomes its instruction, when its slots and labels are known. -/
theorem becomes_of_instructionOf? {base : Nat} {labelOf : Nat → Label} {step : Step}
    {source ins : Instruction} (sound : SoundStep t.scratch.length step)
    (slot : ∀ n < t.scratch.length, (slots.getD n 0).toNat = base + n)
    (label : ∀ n, step.used? = some n → labels.lookup n = some (labelOf n))
    (made : instructionOf? slots labels deny step = some source) (alike : ins.Alike source) :
    Becomes base labelOf deny step ins := by
  cases step with
  | emit =>
      cases made
      exact .emit alike
  | loadScratch n =>
      cases made
      exact .load (slot n sound) alike
  | storeScratch n =>
      cases made
      exact .store (slot n sound) alike
  | branch opcode target =>
      cases target with
      | deny =>
          cases made
          exact .deny alike
      | fresh n =>
          cases made
          rw [label n rfl] at alike
          exact .fresh alike
  | mark => cases made

/-- A step branches to the deny label or to the label of its marker. -/
theorem Becomes.target_cases {base scratch : Nat} {labelOf : Nat → Label} {step : Step}
    {ins : Instruction} (becomes : Becomes base labelOf deny step ins)
    (sound : SoundStep scratch step) {l : Label} (named : ins.target? = some l) :
    l = deny ∨ ∃ n, step.used? = some n ∧ l = labelOf n := by
  cases becomes with
  | emit alike =>
      rw [alike.target?, sound.2.1] at named
      cases named
  | load _ alike | store _ alike =>
      rw [alike.target?] at named
      cases named
  | deny alike =>
      rw [alike.target?] at named
      exact Or.inl (Option.some.inj named).symm
  | fresh alike =>
      rw [alike.target?] at named
      exact Or.inr ⟨_, rfl, (Option.some.inj named).symm⟩

/-- A template expands to as many instructions as it counts. -/
theorem length_materialize {overflow : Overflow} {wide : Body} {run : List Instruction}
    (success : t.materialize overflow body deny = .ok (run, wide)) : run.length = t.count := by
  obtain ⟨slots, labels, -, -, rfl⟩ := materialize_eq_ok success
  exact length_expand [] t.steps

/-- An instruction follows every mark of a valid template. -/
theorem Valid.goesOn (valid : t.Valid) {before after : List Step} {n : Nat}
    (split : t.steps = before ++ .mark n :: after) : ∃ step ∈ after, step.isInstruction := by
  obtain ⟨front, opcode, ends, -⟩ := valid.final
  have last : (before ++ .mark n :: after).getLast? = some (.branch opcode .deny) := by
    rw [← split, ends, List.getLast?_concat]
  cases after with
  | nil => simp at last
  | cons first rest =>
      rw [List.getLast?_append_cons, List.getLast?_cons_cons] at last
      exact ⟨_, List.mem_of_getLast? last, rfl⟩

/-- The expansion of a valid template for the slots behind the locals of a body and the labels from
    its allocator on. -/
theorem Valid.closed (valid : t.Valid)
    (fresh : ∀ l, body.Uses l → l.number < body.nextLabel.toNat)
    (spares : body.Spares t.marks.length)
    (slot : ∀ n < t.scratch.length, (slots.getD n 0).toNat = body.locals.length + n)
    (label : ∀ n ∈ t.marks, labels.lookup n = some (t.markLabel body n)) :
    t.Closed body deny (expand slots labels deny [] t.steps) := by
  have attached : Code.labels (expand slots labels deny [] t.steps) =
      t.marks.map (t.markLabel body) := by
    rw [valid.labels_expand, ← List.filterMap_eq_map]
    exact List.filterMap_congr label
  have distinct : (t.marks.map (t.markLabel body)).Nodup :=
    nodup_markLabels valid.distinct spares
  have known : ∀ step ∈ t.steps, ∀ n, step.used? = some n → n ∈ t.marks :=
    fun step member n used => valid.placed n (List.mem_filterMap.mpr ⟨step, member, used⟩)
  have becomes : ∀ step ∈ t.steps, ∀ source ins,
      instructionOf? slots labels deny step = some source → ins.Alike source →
        Becomes body.locals.length (t.markLabel body) deny step ins :=
    fun step member source ins made alike => becomes_of_instructionOf? (valid.steps step member)
      slot (fun n used => label n (known step member n used)) made alike
  refine {
    count := length_expand [] t.steps
    steps := forall₂_expand becomes []
    targets := fun ins member l named => ?_
    labels := attached
    attached := fun before n after split => ?_
    distinct := distinct
    unused := fun n placed used => ?_
    apart := fun below carried => ?_
    final := ?_ }
  · obtain ⟨step, inside, source, made, alike⟩ := mem_expand member
    rcases (becomes step inside source ins made alike).target_cases (valid.steps step inside) named
      with denied | ⟨n, used, marked⟩
    · exact Or.inl denied
    · exact Or.inr ⟨n, known step inside n used, marked⟩
  · have placed : n ∈ t.marks := List.mem_filterMap.mpr ⟨.mark n, by simp [split], rfl⟩
    obtain ⟨here, there, carries⟩ := @expand_attaches slots labels deny n _ (label n placed) after
      (valid.goesOn split) [] before
    rw [← split] at there
    refine ⟨(List.getElem?_eq_some_iff.mp there).1, fun i ins found => ⟨fun carried => ?_, ?_⟩⟩
    · exact Code.position_unique (attached ▸ distinct) found there carried carries
    · rintro rfl
      exact Option.some.inj (there.symm.trans found) ▸ carries
  · exact absurd (fresh _ used) (Nat.not_lt.mpr (nextLabel_le_markLabel spares placed))
  · rw [attached] at carried
    obtain ⟨n, placed, rfl⟩ := List.mem_map.mp carried
    exact absurd below (Nat.not_lt.mpr (nextLabel_le_markLabel spares placed))
  · obtain ⟨front, opcode, ends, conditional⟩ := valid.final
    obtain ⟨before, last, run, op, operand⟩ :=
      @expand_final slots labels deny front opcode []
    exact ⟨before, last, ends ▸ run, op ▸ conditional, operand⟩

end Valid

/-- With slots enough, an expansion takes the labels of the marks from the body. -/
theorem materialize_of_room {overflow : Overflow} {t : Template} {body : Body} {deny : Label}
    (room : t.scratch.length ≤ Body.slotLimit - body.locals.length)
    (spares : body.Spares t.marks.length) :
    ∃ labels wide, Allocated overflow t.steps { body with locals := body.locals ++ t.scratch }
        wide labels ∧
      wide = { body.advance t.marks.length with locals := body.locals ++ t.scratch } ∧
      t.materialize overflow body deny = .ok (expand
        ((List.range' body.locals.length t.scratch.length).map UInt16.ofNat) labels deny []
        t.steps, wide) := by
  obtain ⟨⟨labels, wide⟩, allocated⟩ := Option.isSome_iff_exists.mp
    ((@isSome_freshLabels overflow t.steps { body with locals := body.locals ++ t.scratch }).mpr
      fun _ => spares)
  have sited := freshLabels_eq_some allocated
  have count := congrArg List.length sited.keys
  rw [List.length_map] at count
  refine ⟨labels, wide, sited, ?_, ?_⟩
  · rw [sited.body, count]
    rfl
  · unfold materialize
    rw [declareScratch_of_room room]
    simp only [allocated]

/-- A valid template expands, in a body whose labels all lie below its allocator, to closed code for
    which its scratch locals and labels are added to the body, if there are numbers for the labels
    of its marks; a checked build stops without them.  If the body has too few free slots, the
    expansion fails with the number of locals when all slots were taken. -/
theorem materialize_closed {overflow : Overflow} {t : Template} (valid : t.fault? = none)
    {body : Body} (fresh : ∀ l, body.Uses l → l.number < body.nextLabel.toNat) (deny : Label) :
    (t.scratch.length ≤ Body.slotLimit - body.locals.length →
      (body.Spares t.marks.length → ∃ run,
        t.materialize overflow body deny = .ok (run, { body.advance t.marks.length with
          locals := body.locals ++ t.scratch }) ∧
        t.Closed body deny run) ∧
      (overflow = .stops → ¬ body.Spares t.marks.length →
        t.materialize overflow body deny = .error .labelsExhausted)) ∧
    (Body.slotLimit - body.locals.length < t.scratch.length →
      t.materialize overflow body deny =
        .error (.tooManyLocals (max Body.slotLimit body.locals.length))) := by
  have valid := fault?_eq_none valid
  refine ⟨fun room => ⟨fun spares => ?_, fun stops full => ?_⟩, fun crowded => ?_⟩
  · obtain ⟨labels, wide, allocated, rfl, success⟩ :=
      @materialize_of_room overflow t body deny room spares
    exact ⟨_, success, valid.closed fresh spares (fun n below => getD_slots room below)
      fun n placed => lookup_freshLabels valid.distinct allocated rfl placed⟩
  · have unallocated : freshLabels overflow t.steps
        { body with locals := body.locals ++ t.scratch } = none := by
      rw [← Option.not_isSome_iff_eq_none, isSome_freshLabels]
      exact fun room => full (room stops)
    unfold materialize
    rw [declareScratch_of_room room]
    simp only [unallocated]
  · obtain ⟨full, fails, length⟩ := declareScratch_of_crowded crowded
    unfold materialize
    rw [fails, ← length]

/-- A template that loops until a scratch local is 0.  Two marks stand at its first instruction, one
    of which is named behind it and the other nowhere, and a third one is named before it is
    placed. -/
def resetLoop : Template :=
  ⟨[.mark 3, .mark 5, .loadScratch 1, .branch .brfalse (.fresh 7), .emit (.of .ldc (.int 0)),
    .storeScratch 1, .branch .br (.fresh 3), .mark 7, .loadScratch 0, .branch .brtrue .deny],
    [⟨1⟩, ⟨1⟩], 0, .label ⟨4⟩⟩

/-- A body with one local and the given labels at its last instruction. -/
def labelledBody (labels : List Label) : Body :=
  .ofParts ⟨0⟩ [.of .ldarg (.arg 0), ⟨.ret, .none, labels⟩] [⟨1⟩] []

theorem mem_of_uses_labelledBody {labels : List Label} {l : Label}
    (used : (labelledBody labels).Uses l) : l ∈ labels := by
  obtain ⟨ins, member, used⟩ := used
  rcases List.mem_pair.mp member with rfl | rfl
  · simp [Instruction.target?, Instruction.of] at used
  · simpa [Instruction.target?] using used

/-- A body with one label, and all slots taken but one. -/
def crowdedBody : Body :=
  { labelledBody [⟨4⟩] with locals := List.replicate 65535 ⟨1⟩ }

theorem resetLoop_closed :
    resetLoop.fault? = none ∧
    (∀ l, (labelledBody [⟨4⟩]).Uses l → l.number < (labelledBody [⟨4⟩]).nextLabel.toNat) ∧
    (∃ run wide, resetLoop.materialize .wraps (labelledBody [⟨4⟩]) ⟨4⟩ = .ok (run, wide) ∧
      resetLoop.Closed (labelledBody [⟨4⟩]) ⟨4⟩ run ∧ run.length = 7 ∧ wide.locals.length = 3 ∧
      wide.nextLabel = 8 ∧ Code.labels run = [⟨5⟩, ⟨6⟩, ⟨7⟩] ∧
      run[4]? = some (.of .br (.label ⟨5⟩)) ∧
      ∀ ins, run[5]? = some ins → ⟨7⟩ ∈ ins.labels) ∧
    resetLoop.materialize .wraps crowdedBody ⟨4⟩ = .error (.tooManyLocals 65536) := by
  have valid : resetLoop.fault? = none := by decide
  have fresh : ∀ l, (labelledBody [⟨4⟩]).Uses l →
      l.number < (labelledBody [⟨4⟩]).nextLabel.toNat := fun l used => by
    rw [List.mem_singleton.mp (mem_of_uses_labelledBody used)]
    decide
  refine ⟨valid, fresh, ?_, ?_⟩
  · obtain ⟨run, success, closed⟩ :=
      ((@materialize_closed .wraps resetLoop valid _ fresh ⟨4⟩).1 (by decide)).1 (by decide)
    refine ⟨run, _, success, closed, closed.count, rfl, rfl, closed.labels, ?_, ?_⟩
    · cases success
      rfl
    · intro ins here
      exact ((closed.attached (resetLoop.steps.take 7) 7 _ rfl).2 5 ins here).mpr rfl
  · have full : crowdedBody.locals.length = 65535 := List.length_replicate
    have fails := (@materialize_closed .wraps resetLoop valid crowdedBody fresh ⟨4⟩).2
    rw [full] at fails
    exact fails (by decide)

/-- Where the body holds the last number but one, the allocator has a number for one mark and none
    for the next.  A checked build stops; a wrapping one gives the mark the label 0, which the body
    has at its own last instruction. -/
theorem resetLoop_reissues :
    resetLoop.fault? = none ∧
    (∀ l, (labelledBody [⟨0⟩, ⟨4294967294⟩]).Uses l →
      l.number < (labelledBody [⟨0⟩, ⟨4294967294⟩]).nextLabel.toNat) ∧
    resetLoop.scratch.length ≤
      Body.slotLimit - (labelledBody [⟨0⟩, ⟨4294967294⟩]).locals.length ∧
    resetLoop.materialize .stops (labelledBody [⟨0⟩, ⟨4294967294⟩]) ⟨0⟩ =
      .error .labelsExhausted ∧
    ∃ run wide, resetLoop.materialize .wraps (labelledBody [⟨0⟩, ⟨4294967294⟩]) ⟨0⟩ =
        .ok (run, wide) ∧
      (labelledBody [⟨0⟩, ⟨4294967294⟩]).Uses ⟨0⟩ ∧ ⟨0⟩ ∈ Code.labels run := by
  refine ⟨by decide, fun l used => ?_, by decide, rfl, _, _, rfl,
    ⟨_, List.mem_cons_of_mem _ (List.mem_singleton_self _), .inl (.head _)⟩, by decide⟩
  rcases List.mem_pair.mp (mem_of_uses_labelledBody used) with rfl | rfl <;> decide

end HookSplice.Template
