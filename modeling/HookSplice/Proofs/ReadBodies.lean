import HookSplice.Proofs.PrintedImage
import HookSplice.Proofs.ReadSymbols

/-!
# Bodies that were read

Reading a body adds types to the table and gives a sound body: operands have the shapes of their
opcodes, exactly the names that branches use have become labels, and each label stands at the
position of its name.
-/

namespace HookSplice

namespace SymbolTable

/-! ### Handles that were looked up -/

theorem fieldId?_known {s : SymbolTable} {path : String} {f : FieldId}
    (found : s.fieldId? path = some f) : s.hasField f := by
  unfold fieldId? at found
  split at found
  · cases found
  split at found
  · cases found
  · obtain ⟨i, first, rfl⟩ := Option.map_eq_some_iff.mp found
    exact decide_eq_true (List.findIdx?_eq_some_iff_getElem.mp first).1

theorem methodId?_known {s : SymbolTable} {spelling : String} {m : MethodId}
    (found : s.methodId? spelling = some m) : s.hasMethod m := by
  obtain ⟨i, first, rfl⟩ := Option.map_eq_some_iff.mp found
  exact decide_eq_true (List.findIdx?_eq_some_iff_getElem.mp first).1

end SymbolTable

namespace Image

variable {symbols symbols' : SymbolTable}

/-! ### Lines of a body -/

theorem words_nonempty {cut : Char → Bool} {text word : List Char}
    (member : word ∈ Text.fieldsBetween cut text) : word ≠ [] := by
  simpa using (List.mem_filter.mp member).2

/-- What a draft takes from the table. -/
structure Draft.Known (symbols : SymbolTable) (d : Draft) : Prop where
  locals : ∀ t ∈ d.locals, symbols.hasType t
  regions : ∀ raw ∈ d.regions, ∀ name ∈ raw.type, name ≠ []

theorem readLabels_eq_ok {line : Line} {fuel : Nat} {text rest : List Char} {d d' : Draft}
    (success : readLabels line fuel text d = .ok (rest, d')) :
    d'.locals = d.locals ∧ d'.regions = d.regions := by
  induction fuel generalizing text d with
  | zero =>
      cases success
      exact ⟨rfl, rfl⟩
  | succ fuel ih =>
      rw [readLabels] at success
      simp only at success
      split at success
      · cases success
        exact ⟨rfl, rfl⟩
      split at success
      · cases success
      split at success
      · cases success
      · have later := ih success
        exact later

theorem readRegion_type {line : Line} {text : List Char} {raw : RawRegion}
    (success : readRegion line text = .ok raw) : ∀ name ∈ raw.type, name ≠ [] := by
  unfold readRegion at success
  split at success
  · split at success
    · cases success
      exact fun name member => absurd member (by simp)
    · cases success
  · next _ _ _ _ _ type words =>
      split at success
      · cases success
        intro name member
        cases member
        have inside : type ∈ Text.words text := by
          rw [words]
          simp
        exact words_nonempty inside
      · cases success
  · cases success

theorem readBodyLine_known {state state' : SymbolTable × Draft} {line : Line}
    (known : state.2.Known state.1) (success : readBodyLine state line = .ok state') :
    state.1.Widens state'.1 ∧ state'.2.Known state'.1 := by
  obtain ⟨symbols, d⟩ := state
  obtain ⟨⟨rest, d₁⟩, labels, success⟩ := Except.bind_eq_ok success
  obtain ⟨locals, regions⟩ := readLabels_eq_ok labels
  have known₁ : d₁.Known symbols :=
    ⟨locals ▸ known.locals, regions ▸ known.regions⟩
  unfold readStatement at success
  simp only at success
  split at success
  · cases success
    exact ⟨.refl _, known₁⟩
  split at success
  · cases success
    have named : ∀ name ∈ (Text.fieldsBetween (fun c => c == ',' || Text.isBlank c)
        (Text.splitFirst rest).2).map String.ofList, name ≠ "" := fun name member => by
      obtain ⟨word, here, rfl⟩ := List.mem_map.mp member
      exact ofList_ne_empty (words_nonempty here)
    have wide := symbols.internTypes_widens named
    refine ⟨wide, fun t member => ?_, known₁.regions⟩
    rcases List.mem_append.mp member with member | member
    · exact wide.grown.hasType (known₁.locals t member)
    · exact symbols.internTypes_known _ t member
  split at success
  · split at success
    · cases success
    · next read =>
        cases success
        refine ⟨.refl _, known₁.locals, fun raw member => ?_⟩
        rcases List.mem_append.mp member with member | member
        · exact known₁.regions raw member
        · rw [List.mem_singleton.mp member]
          exact readRegion_type read
  · split at success
    · cases success
    · cases success
      exact ⟨.refl _, known₁.locals, known₁.regions⟩

theorem readBodyLines_known {lines : List Line} {state state' : SymbolTable × Draft}
    (known : state.2.Known state.1) (success : lines.foldlM readBodyLine state = .ok state') :
    state.1.Widens state'.1 ∧ state'.2.Known state'.1 := by
  refine Except.foldlM_induction
    (P := fun next => state.1.Widens next.1 ∧ next.2.Known next.1) (fun next read => ?_)
    ⟨.refl _, known⟩ success
  obtain ⟨wide, known⟩ := readBodyLine_known next.2 read
  exact ⟨next.1.trans wide, known⟩

/-! ### Operands -/

/-- What an operand that was read has to do with its text. -/
structure ReadFrom (labels : List (List Char × Label)) (symbols : SymbolTable)
    (raw : RawInstruction) (operand : Operand) : Prop where
  fits : raw.opcode.operandKind = operand.kind
  known : operand.Known symbols
  label : ∀ l, operand = .label l → labels.lookup raw.operand = some l

theorem readOperandText_eq_ok {labels : List (List Char × Label)} {raw : RawInstruction}
    {operand : Operand} (typed : raw.opcode.operandKind = .type → raw.operand ≠ [])
    (success : readOperandText labels symbols raw = .ok (operand, symbols')) :
    symbols.Widens symbols' ∧ ReadFrom labels symbols' raw operand := by
  unfold readOperandText at success
  simp only at success
  split at success
  case h_1 kind =>
    cases success
    exact ⟨.refl _, kind, trivial, fun l same => by cases same⟩
  case h_9 kind =>
    cases success
    exact ⟨symbols.internType_widens (ofList_ne_empty (typed kind)), kind,
      (symbols.internType_known _).1, fun l same => by cases same⟩
  case h_6 kind =>
    split at success
    · next found =>
        cases success
        obtain ⟨l, here, rfl⟩ := Option.map_eq_some_iff.mp found
        exact ⟨.refl _, kind, trivial, fun k same => by cases same; exact here⟩
    · cases success
  case h_7 kind =>
    split at success
    · next found =>
        cases success
        obtain ⟨f, here, rfl⟩ := Option.map_eq_some_iff.mp found
        exact ⟨.refl _, kind, SymbolTable.fieldId?_known here, fun l same => by cases same⟩
    · cases success
  case h_8 kind =>
    split at success
    · next found =>
        cases success
        obtain ⟨m, here, rfl⟩ := Option.map_eq_some_iff.mp found
        exact ⟨.refl _, kind, SymbolTable.methodId?_known here, fun l same => by cases same⟩
    · cases success
  all_goals
    next kind =>
    split at success
    · next found =>
        cases success
        obtain ⟨value, -, rfl⟩ := Option.map_eq_some_iff.mp found
        exact ⟨.refl _, kind, trivial, fun l same => by cases same⟩
    · cases success

theorem readOperand_eq_ok {labels : List (List Char × Label)} {raw : RawInstruction}
    {operand : Operand} (success : readOperand labels symbols raw = .ok (operand, symbols')) :
    symbols.Widens symbols' ∧ ReadFrom labels symbols' raw operand := by
  unfold readOperand at success
  split at success
  · cases success
  split at success
  · cases success
  next present =>
  refine readOperandText_eq_ok (fun kind none_ => present ?_) (Except.mapError_eq_ok.mp success)
  exact ⟨by rw [kind]; decide, by rw [none_]; rfl⟩

theorem ReadFrom.grow {labels : List (List Char × Label)} {raw : RawInstruction} {operand : Operand}
    (read : ReadFrom labels symbols raw operand) (grown : symbols.Extends symbols') :
    ReadFrom labels symbols' raw operand :=
  ⟨read.fits, read.known.grow grown, read.label⟩

theorem readOperands_eq_ok {labels : List (List Char × Label)} {raws : List RawInstruction}
    {operands : List Operand}
    (success : readOperands labels symbols raws = .ok (operands, symbols')) :
    symbols.Widens symbols' ∧ List.Forall₂ (ReadFrom labels symbols') raws operands := by
  induction raws generalizing symbols operands with
  | nil =>
      cases success
      exact ⟨.refl _, .nil⟩
  | cons raw rest ih =>
      obtain ⟨⟨operand, next⟩, first, success⟩ := Except.bind_eq_ok success
      obtain ⟨⟨others, last⟩, later, success⟩ := Except.bind_eq_ok success
      cases success
      obtain ⟨wide, read⟩ := readOperand_eq_ok first
      obtain ⟨wide', reads⟩ := ih later
      exact ⟨wide.trans wide', .cons (read.grow wide'.grown) reads⟩

/-! ### Regions -/

section Regions

variable {labels : List (List Char × Nat)} {size : Nat}
  (inside : ∀ entry ∈ labels, entry.2 < size)
include inside

theorem readBound_le {line : Line} {name : List Char} {bound : Nat}
    (success : readBound labels size line name = .ok bound) : bound ≤ size := by
  unfold readBound at success
  split at success
  · cases success
    exact Nat.le_refl _
  split at success
  · next found =>
      cases success
      exact Nat.le_of_lt (inside _ (mem_of_lookup found))
  · cases success

theorem readBounds_le {line : Line} {names : List (List Char)} {bounds : List Nat}
    (success : names.mapM (readBound labels size line) = .ok bounds) :
    ∀ bound ∈ bounds, bound ≤ size := fun bound member => by
  obtain ⟨name, -, read⟩ := Except.mapM_eq_ok success bound member
  exact readBound_le inside read

/-- A region within the code, which catches a type of the table. -/
def RegionKnown (symbols : SymbolTable) (size : Nat) (r : Region) : Prop :=
  (r.tryStart ≤ size ∧ r.tryEnd ≤ size ∧ r.handlerStart ≤ size ∧ r.handlerEnd ≤ size) ∧
    ∀ t ∈ r.caught?, symbols.hasType t

theorem resolveRegion_eq_ok {raw : RawRegion} {r : Region} (named : ∀ name ∈ raw.type, name ≠ [])
    (success : resolveRegion labels size symbols raw = .ok (r, symbols')) :
    symbols.Widens symbols' ∧ RegionKnown symbols' size r := by
  obtain ⟨bounds, read, success⟩ := Except.bind_eq_ok success
  have below (i : Nat) : bounds.getD i 0 ≤ size := by
    rw [List.getD_eq_getElem?_getD]
    cases here : bounds[i]? with
    | none => exact Nat.zero_le _
    | some bound => exact readBounds_le inside read bound (List.mem_of_getElem? here)
  cases type : raw.type with
  | none =>
      simp only [type] at success
      cases success
      exact ⟨.refl _, ⟨below 0, below 1, below 2, below 3⟩, fun t member => by cases member⟩
  | some name =>
      simp only [type] at success
      cases success
      refine ⟨symbols.internType_widens (ofList_ne_empty (named name type)),
        ⟨below 0, below 1, below 2, below 3⟩, fun t member => ?_⟩
      cases member
      exact (symbols.internType_known _).1

theorem resolveRegions_eq_ok {raws : List RawRegion} {regions : List Region}
    (named : ∀ raw ∈ raws, ∀ name ∈ raw.type, name ≠ [])
    (success : resolveRegions labels size symbols raws = .ok (regions, symbols')) :
    symbols.Widens symbols' ∧ ∀ r ∈ regions, RegionKnown symbols' size r := by
  induction raws generalizing symbols regions with
  | nil =>
      cases success
      exact ⟨.refl _, fun _ member => absurd member List.not_mem_nil⟩
  | cons raw rest ih =>
      obtain ⟨⟨region, next⟩, first, success⟩ := Except.bind_eq_ok success
      obtain ⟨⟨others, last⟩, later, success⟩ := Except.bind_eq_ok success
      cases success
      obtain ⟨wide, known⟩ := resolveRegion_eq_ok inside (named raw (List.mem_cons_self ..)) first
      obtain ⟨wide', known'⟩ := ih (fun other member => named other (.tail _ member)) later
      refine ⟨wide.trans wide', fun r member => ?_⟩
      rcases List.mem_cons.mp member with rfl | member
      · exact ⟨known.1, fun t caught => wide'.grown.hasType (known.2 t caught)⟩
      · exact known' r member

end Regions

/-! ### Labels -/

section Labels

variable {refs : List (Nat × List Char)}

section Few

variable (few : refs.length < UInt32.size)
include few

/-- A label stands at the position of the reference that it numbers. -/
theorem mem_assemble {raw : RawInstruction} {operand : Operand} {i : Nat} {l : Label} :
    l ∈ (assemble refs raw operand i).labels ↔ ∃ name, refs[l.number]? = some (i, name) := by
  unfold assemble
  simp only
  rw [List.mem_map]
  constructor
  · rintro ⟨⟨⟨p, name⟩, number⟩, member, rfl⟩
    obtain ⟨inside, here⟩ := List.mem_filter.mp member
    rw [← eq_of_beq here]
    exact ⟨name, getElem?_number few inside⟩
  · rintro ⟨name, here⟩
    exact ⟨((i, name), l.number), List.mem_filter.mpr
      ⟨List.mem_zipIdx_iff_getElem?.mpr here, beq_self_eq_true i⟩, l.ofNat_number⟩

/-- The labels at one position ascend, as the references that they number do. -/
theorem ascending_assemble (raw : RawInstruction) (operand : Operand) (i : Nat) :
    (assemble refs raw operand i).labels.Pairwise fun l k => l.number < k.number := by
  have numbers : (refs.zipIdx.map Prod.snd).Pairwise (· < ·) := by
    rw [List.zipIdx_map_snd]
    exact List.pairwise_lt_range'
  have small (entry : (Nat × List Char) × Nat) (member : entry ∈ refs.zipIdx) :
      (Label.ofNat entry.2).number = entry.2 :=
    Label.number_ofNat (Nat.lt_trans (List.snd_lt_of_mem_zipIdx member) few)
  unfold assemble
  simp only
  rw [List.pairwise_map] at numbers ⊢
  refine (numbers.imp_of_mem fun {a b} here there less => ?_).sublist List.filter_sublist
  rwa [small a here, small b there]

theorem nodup_assemble (raw : RawInstruction) (operand : Operand) (i : Nat) :
    (assemble refs raw operand i).labels.Nodup :=
  (ascending_assemble few raw operand i).imp fun less same => Nat.ne_of_lt less (congrArg _ same)

end Few

/-- References in order to names with one position each are names without repetition. -/
theorem nodup_names {defs : List (List Char × Nat)} (ordered : refs.Pairwise ReferenceBefore)
    (positions : ∀ entry ∈ refs, defs.lookup entry.2 = some entry.1) :
    (refs.map Prod.snd).Nodup := by
  unfold List.Nodup
  rw [List.pairwise_map]
  refine List.Pairwise.imp_of_mem (fun {a b} member member' before same => ?_) ordered
  have position := positions a member
  rw [same, positions b member', Option.some.injEq] at position
  have equal : a = b := Prod.ext position.symm same
  exact ReferenceBefore.irrefl b (equal ▸ before)

end Labels

/-! ### Code -/

section Code

variable {refs : List (Nat × List Char)} {raws : List RawInstruction} {operands : List Operand}
  (few : refs.length < UInt32.size)

theorem getElem?_assembleAll {i : Nat} {ins : Instruction} :
    (assembleAll refs raws operands)[i]? = some ins ↔ ∃ raw operand, raws[i]? = some raw ∧
      operands[i]? = some operand ∧ assemble refs raw operand i = ins := by
  unfold assembleAll
  rw [List.getElem?_map, Option.map_eq_some_iff]
  constructor
  · rintro ⟨⟨⟨raw, operand⟩, j⟩, here, rfl⟩
    rw [List.getElem?_zipIdx, Option.map_eq_some_iff] at here
    obtain ⟨row, here, same⟩ := here
    obtain ⟨rfl, rfl⟩ := Prod.mk.inj same
    obtain ⟨first, second⟩ := List.getElem?_zip_eq_some.mp here
    exact ⟨raw, operand, first, second, by rw [Nat.zero_add]⟩
  · rintro ⟨raw, operand, first, second, rfl⟩
    refine ⟨((raw, operand), i), ?_, rfl⟩
    rw [List.getElem?_zipIdx,
      (List.getElem?_zip_eq_some (z := (raw, operand))).mpr ⟨first, second⟩, Option.map_some,
      Nat.zero_add]

include few in
theorem mem_labels_assembleAll (same : raws.length = operands.length)
    (inside : ∀ entry ∈ refs, entry.1 < raws.length) {l : Label} :
    l ∈ Code.labels (assembleAll refs raws operands) ↔ ∃ entry, refs[l.number]? = some entry := by
  rw [Code.mem_labels_iff]
  constructor
  · rintro ⟨i, ins, here, member⟩
    obtain ⟨raw, operand, -, -, rfl⟩ := getElem?_assembleAll.mp here
    obtain ⟨name, at_⟩ := (mem_assemble few).mp member
    exact ⟨_, at_⟩
  · rintro ⟨⟨i, name⟩, at_⟩
    have below : i < raws.length := inside _ (List.mem_of_getElem? at_)
    have below' : i < operands.length := same ▸ below
    exact ⟨i, assemble refs raws[i] operands[i] i,
      getElem?_assembleAll.mpr ⟨_, _, List.getElem?_eq_getElem below,
        List.getElem?_eq_getElem below', rfl⟩, (mem_assemble few).mpr ⟨name, at_⟩⟩

include few in
theorem nodup_labels_assembleAll : (Code.labels (assembleAll refs raws operands)).Nodup := by
  unfold Code.labels
  rw [List.nodup_flatMap]
  constructor
  · intro ins member
    obtain ⟨i, here⟩ := List.mem_iff_getElem?.mp member
    obtain ⟨raw, operand, -, -, rfl⟩ := getElem?_assembleAll.mp here
    exact nodup_assemble few raw operand i
  · rw [List.pairwise_iff_getElem]
    intro i j below below' less l member member'
    obtain ⟨raw, operand, -, -, shape⟩ := getElem?_assembleAll.mp (List.getElem?_eq_getElem below)
    obtain ⟨raw', operand', -, -, shape'⟩ := getElem?_assembleAll.mp
      (List.getElem?_eq_getElem below')
    rw [← shape] at member
    rw [← shape'] at member'
    obtain ⟨name, at_⟩ := (mem_assemble few).mp member
    obtain ⟨name', at_'⟩ := (mem_assemble few).mp member'
    rw [at_, Option.some.injEq, Prod.mk.injEq] at at_'
    omega

theorem length_assembleAll (same : raws.length = operands.length) :
    (assembleAll refs raws operands).length = raws.length := by
  unfold assembleAll
  simp [same]

section Reads

variable {symbols : SymbolTable}
  (reads : List.Forall₂ (ReadFrom (numbered refs) symbols) raws operands)
include reads

/-- An instruction comes from the raw one at its position. -/
theorem readFrom_assembleAll {i : Nat} {ins : Instruction}
    (here : (assembleAll refs raws operands)[i]? = some ins) : ∃ raw, raws[i]? = some raw ∧
      raw.opcode = ins.opcode ∧ ReadFrom (numbered refs) symbols raw ins.operand := by
  obtain ⟨raw, operand, first, second, rfl⟩ := getElem?_assembleAll.mp here
  obtain ⟨below, shape⟩ := List.getElem?_eq_some_iff.mp first
  obtain ⟨below', shape'⟩ := List.getElem?_eq_some_iff.mp second
  exact ⟨raw, first, rfl, shape ▸ shape' ▸ reads.get below below'⟩

/-- The branch that names a reference goes to the label of the reference. -/
theorem exists_branch (distinct : (refs.map Prod.snd).Nodup) {l : Label} {i : Nat}
    {raw : RawInstruction} (at_ : refs[l.number]? = some (i, raw.operand)) (inRaws : raw ∈ raws)
    (branch : raw.opcode.isBranch) :
    ∃ ins ∈ assembleAll refs raws operands, ins.target? = some l := by
  obtain ⟨j, below, rfl⟩ := List.mem_iff_getElem.mp inRaws
  have here : (assembleAll refs raws operands)[j]? = some _ :=
    getElem?_assembleAll.mpr ⟨_, _, List.getElem?_eq_getElem below,
      List.getElem?_eq_getElem (reads.length_eq ▸ below), rfl⟩
  obtain ⟨raw, first, opcode, read⟩ := readFrom_assembleAll reads here
  rw [List.getElem?_eq_getElem below, Option.some.injEq] at first
  subst first
  obtain ⟨k, target⟩ := (Instruction.isBranch_iff (beq_iff_eq.mpr (opcode ▸ read.fits))).mp
    (opcode ▸ branch)
  have found := read.label k (Instruction.operand_of_target? target)
  rw [numbered_of_getElem? distinct at_, Option.some.injEq] at found
  exact ⟨_, List.mem_of_getElem? here, found ▸ target⟩

include few in
/-- The labels that are attached are those that branches name, when the references are what the
    branches name. -/
theorem used_assembleAll (distinct : (refs.map Prod.snd).Nodup)
    (inside : ∀ entry ∈ refs, entry.1 < raws.length)
    (named : ∀ entry ∈ refs, Uses raws entry.2)
    (l : Label) : l ∈ Code.labels (assembleAll refs raws operands) ↔
      ∃ ins ∈ assembleAll refs raws operands, ins.target? = some l := by
  refine (mem_labels_assembleAll few reads.length_eq inside).trans ?_
  constructor
  · rintro ⟨⟨i, name⟩, at_⟩
    obtain ⟨raw, inRaws, branch, rfl⟩ := named _ (List.mem_of_getElem? at_)
    exact exists_branch reads distinct at_ inRaws branch
  · rintro ⟨ins, inCode, target⟩
    obtain ⟨i, here⟩ := List.mem_iff_getElem?.mp inCode
    obtain ⟨raw, -, -, read⟩ := readFrom_assembleAll reads here
    obtain ⟨k, at_⟩ :=
      getElem?_of_numbered few (read.label l (Instruction.operand_of_target? target))
    exact ⟨_, at_⟩

end Reads

end Code

/-! ### Bodies -/

/-- A body that was read is sound. -/
theorem readBody_sound {p : PendingBody} {b : Body} (known : symbols.hasMethod p.method)
    (success : readBody symbols p = .ok (b, symbols')) :
    symbols.Widens symbols' ∧ b.Sound symbols' := by
  obtain ⟨symbols₁, symbols₂, d, refs, operands, regions, lines, inside, refsRead, few,
    operandsRead, regionsRead, rfl⟩ := readBody_eq_ok success
  have empty : Draft.Known symbols ⟨[], [], [], []⟩ :=
    ⟨fun _ member => absurd member List.not_mem_nil, fun _ member => absurd member List.not_mem_nil⟩
  obtain ⟨wide₁, draft⟩ := readBodyLines_known empty lines
  obtain ⟨wide₂, reads⟩ := readOperands_eq_ok operandsRead
  obtain ⟨wide₃, caught⟩ := resolveRegions_eq_ok inside draft.regions regionsRead
  obtain ⟨ordered, member⟩ := references_eq_ok refsRead
  have distinct := nodup_names ordered fun entry here => (member.mp here).1
  have positions : ∀ entry ∈ refs, entry.1 < d.instructions.length := fun entry here =>
    inside _ (mem_of_lookup (member.mp here).1)
  exact ⟨(wide₁.trans wide₂).trans wide₃, {
      method := ((wide₁.trans wide₂).trans wide₃).grown.hasMethod known
      fits := fun ins inCode => by
        obtain ⟨i, here⟩ := List.mem_iff_getElem?.mp inCode
        obtain ⟨raw, -, opcode, read⟩ := readFrom_assembleAll reads here
        exact beq_iff_eq.mpr (opcode ▸ read.fits)
      known := fun ins inCode => by
        obtain ⟨i, here⟩ := List.mem_iff_getElem?.mp inCode
        obtain ⟨raw, -, -, read⟩ := readFrom_assembleAll reads here
        exact read.known.grow wide₃.grown
      attached := nodup_labels_assembleAll few
      used := used_assembleAll few reads distinct positions fun entry here => (member.mp here).2
      numbered := fun l attached => by
        obtain ⟨entry, at_⟩ := (mem_labels_assembleAll few reads.length_eq positions).mp attached
        exact (UInt32.toNat_ofNat_of_lt' few).symm ▸ (List.getElem?_eq_some_iff.mp at_).1
      locals := fun t here => (wide₂.trans wide₃).grown.hasType (draft.locals t here)
      inside := fun r here => by
        have size : Body.size ⟨p.method, assembleAll refs d.instructions operands, d.locals,
          regions, UInt32.ofNat refs.length⟩ = d.instructions.length :=
          length_assembleAll reads.length_eq
        exact size ▸ (caught r here).1
      caught := fun r here => (caught r here).2 }⟩

/-- Reading bodies adds types only. -/
theorem readBodies_widens {pending : List PendingBody} {h h' : Host}
    (known : ∀ p ∈ pending, h.symbols.hasMethod p.method)
    (success : readBodies h pending = .ok h') : h.symbols.Widens h'.symbols := by
  refine readBodies_induction (P := fun g => h.symbols.Widens g.symbols)
    (fun member wide bodyRead _ => ?_) (.refl _) success
  exact wide.trans (readBody_sound (wide.grown.hasMethod (known _ member)) bodyRead).1

theorem readBodies_sound {pending : List PendingBody} {h h' : Host} (sound : h.Sound)
    (known : ∀ p ∈ pending, h.symbols.hasMethod p.method)
    (success : readBodies h pending = .ok h') : h'.Sound := by
  refine (readBodies_induction
    (P := fun g => g.Sound ∧ ∀ p ∈ pending, g.symbols.hasMethod p.method)
    (fun {p g body symbols} here ⟨sound, known⟩ bodyRead _ => ?_) ⟨sound, known⟩ success).1
  obtain ⟨wide, whole⟩ := readBody_sound (known p here) bodyRead
  have proper := SymbolTable.Proper.widen ⟨sound.symbols, sound.legible⟩ wide
  refine ⟨⟨proper.sound, proper.legible, fun b member => ?_⟩,
    fun q later => wide.grown.hasMethod (known q later)⟩
  rcases Bodies.mem_insert member with rfl | member
  · exact whole
  · exact (sound.bodies b member).grow wide.grown

/-- A host that was read from an image is sound. -/
theorem read_sound {image : String} {h : Host} (success : read image = .ok h) : h.Sound := by
  obtain ⟨symbols, pending, outline, bodies⟩ := read_eq_ok success
  obtain ⟨proper, known⟩ := readOutline_proper outline
  have start : (Host.ofSymbols symbols).Sound :=
    ⟨proper.sound, proper.legible, fun _ member => absurd member List.not_mem_nil⟩
  exact readBodies_sound start known bodies

end Image

end HookSplice
