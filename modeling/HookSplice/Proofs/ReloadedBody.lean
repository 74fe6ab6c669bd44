import HookSplice.Proofs.PrintedBody

/-!
# Bodies that were printed and read again

Reading the printed form of a body gives the body under an arrangement: handles are those of the
new table, labels are numbered anew, and the labels at one position stand in the order of their
names.  Everything else stays.
-/

namespace HookSplice

open Text (Solid Trimmed)

/-! ### Bodies under an arrangement -/

/-- A sound body has fewer labels than there are numbers for them. -/
theorem Body.Sound.labels_lt {s : SymbolTable} {b : Body} (sound : b.Sound s) :
    (Code.labels b.code).length < UInt32.size :=
  Nat.lt_of_le_of_lt (Label.length_le_of_nodup sound.attached sound.numbered) b.nextLabel.toNat_lt

namespace Arrangement

/-- An operand with new handles and a new label. -/
def operand (a : Arrangement) (label : Label → Label) : Operand → Operand
  | .none => .none
  | .int n => .int n
  | .text t => .text t
  | .arg i => .arg i
  | .slot i => .slot i
  | .label l => .label (label l)
  | .field f => .field (a.field f)
  | .method m => .method (a.method m)
  | .type t => .type (a.type t)

/-- A kind of handler with new handles. -/
def kind (a : Arrangement) : HandlerKind → HandlerKind
  | .catching t => .catching (a.type t)
  | .finalizing => .finalizing

/-- A region with new handles. -/
def region (a : Arrangement) (r : Region) : Region :=
  { r with kind := a.kind r.kind }

/-- An instruction of some code with new handles and new labels. -/
def instruction (a : Arrangement) (code : List Instruction) (ins : Instruction) : Instruction :=
  ⟨ins.opcode, a.operand (Code.relabel code) ins.operand,
    (Code.byName code ins.labels).map (Code.relabel code)⟩

/-- A body with new handles and new labels. -/
def body (a : Arrangement) (b : Body) : Body :=
  ⟨a.method b.method, b.code.map (a.instruction b.code), b.locals.map a.type,
    b.regions.map a.region, UInt32.ofNat (Code.labels b.code).length⟩

/-- All fields and methods of a table are declared. -/
structure Complete (a : Arrangement) (s : SymbolTable) : Prop where
  fields : ∀ f, s.hasField f → f ∈ a.fields
  methods : ∀ m, s.hasMethod m → m ∈ a.methods

theorem mention_nil (a : Arrangement) : a.mention [] = a := by
  rw [mention, List.append_nil]

theorem Complete.mention {a : Arrangement} {s : SymbolTable} (complete : a.Complete s)
    (ts : List TypeId) : (a.mention ts).Complete s :=
  ⟨complete.fields, complete.methods⟩

end Arrangement

namespace Image

/-- Raw instructions that have the opcodes and the printed operands of some code. -/
def Prints (s : SymbolTable) (b : Body) (raws : List RawInstruction) (code : List Instruction) :
    Prop :=
  raws.map (fun raw => (raw.opcode, raw.operand)) =
    code.map fun ins => (ins.opcode, operandChars s b ins)

section Prints

variable {s : SymbolTable} {b : Body} {raws : List RawInstruction} {code : List Instruction}
  (prints : Prints s b raws code)
include prints

theorem Prints.length_eq : raws.length = code.length := by
  have lists := congrArg List.length prints
  rwa [List.length_map, List.length_map] at lists

theorem Prints.code_of_raw {raw : RawInstruction} (member : raw ∈ raws) :
    ∃ ins ∈ code, raw.opcode = ins.opcode ∧ raw.operand = operandChars s b ins := by
  have row : (raw.opcode, raw.operand) ∈ raws.map fun raw => (raw.opcode, raw.operand) :=
    List.mem_map_of_mem member
  rw [prints] at row
  obtain ⟨ins, inCode, same⟩ := List.mem_map.mp row
  exact ⟨ins, inCode, (congrArg Prod.fst same).symm, (congrArg Prod.snd same).symm⟩

theorem Prints.raw_of_code {ins : Instruction} (member : ins ∈ code) :
    ∃ raw ∈ raws, raw.opcode = ins.opcode ∧ raw.operand = operandChars s b ins := by
  have row : (ins.opcode, operandChars s b ins) ∈
      code.map fun ins => (ins.opcode, operandChars s b ins) := List.mem_map_of_mem member
  rw [← prints] at row
  obtain ⟨raw, inRaws, same⟩ := List.mem_map.mp row
  exact ⟨raw, inRaws, congrArg Prod.fst same, congrArg Prod.snd same⟩

theorem Prints.opcode_eq {i : Nat} (below : i < raws.length) (below' : i < code.length) :
    raws[i].opcode = code[i].opcode := by
  have rows := congrArg (fun rows => rows[i]?) prints
  simp only [List.getElem?_map, List.getElem?_eq_getElem below, List.getElem?_eq_getElem below',
    Option.map_some, Option.some.injEq, Prod.mk.injEq] at rows
  exact rows.1

end Prints

/-! ### Labels -/

section Lookups

variable {b : Body} (distinct : (Code.labels b.code).Nodup)
include distinct

/-- The name of a label finds the position of the label. -/
theorem lookup_label {i : Nat} {ins : Instruction} (here : b.code[i]? = some ins) {l : Label}
    (member : l ∈ ins.labels) :
    (markers b).lookup (labelName (rankedLabels b.code) l).toList = some i :=
  lookup_of_mem (nodup_markers distinct)
    (mem_markers.mpr ⟨ins, here, mem_markersAt.mpr (Or.inl ⟨l, member, rfl⟩)⟩)

/-- The name of a bound finds the position of the bound. -/
theorem lookup_bound {i : Nat} {name : String} (bound : (i, name) ∈ bounds b)
    (inside : i < b.size) :
    (markers b).lookup name.toList = some i :=
  lookup_of_mem (nodup_markers distinct)
    (mem_markers.mpr ⟨b.code[i], List.getElem?_eq_getElem inside, mem_markersAt.mpr (Or.inr bound)⟩)

end Lookups

section Body

variable {s : SymbolTable} {b : Body} (whole : b.Sound s)
include whole

omit whole in
/-- Every marker stands in front of an instruction. -/
theorem markers_inside : (markers b).find? (fun entry => b.size ≤ entry.2) = none := by
  rw [List.find?_eq_none]
  rintro ⟨name, i⟩ member
  have here : ((String.ofList name).toList, i) ∈ markers b := by rwa [String.toList_ofList]
  obtain ⟨ins, at_, -⟩ := mem_markers.mp here
  have below := (List.getElem?_eq_some_iff.mp at_).1
  have : i < b.size := below
  simpa using this

omit whole in
theorem operandChars_label {ins : Instruction} {l : Label} (target : ins.target? = some l) :
    operandChars s b ins = (labelName (rankedLabels b.code) l).toList := by
  rw [operandChars, Instruction.operand_of_target? target]
  rfl

/-- The operand of a branch finds the position of the label it goes to. -/
theorem lookup_branch {ins : Instruction} (inCode : ins ∈ b.code) (branch : ins.opcode.isBranch) :
    ∃ l i carrier, ins.target? = some l ∧ b.code[i]? = some carrier ∧ l ∈ carrier.labels ∧
      (markers b).lookup (operandChars s b ins) = some i := by
  obtain ⟨l, target⟩ := (Instruction.isBranch_iff (whole.fits ins inCode)).mp branch
  obtain ⟨i, carrier, at_, attached⟩ :=
    Code.mem_labels_iff.mp ((whole.used l).mpr ⟨ins, inCode, target⟩)
  exact ⟨l, i, carrier, target, at_, attached,
    operandChars_label target ▸ lookup_label whole.attached at_ attached⟩

section Prints

variable {raws : List RawInstruction} (prints : Prints s b raws b.code)
include prints

/-- The branches of the printed code name the attached labels. -/
theorem mem_namedReferences_iff {i : Nat} {name : List Char} :
    (i, name) ∈ Code.namedReferences b.code ↔
      (markers b).lookup name = some i ∧ Uses raws name := by
  rw [Code.mem_namedReferences]
  constructor
  · rintro ⟨carrier, l, at_, attached, rfl⟩
    refine ⟨lookup_label whole.attached at_ attached, ?_⟩
    obtain ⟨ins, inCode, target⟩ :=
      (whole.used l).mp (Code.mem_labels_iff.mpr ⟨i, carrier, at_, attached⟩)
    obtain ⟨raw, member, opcode, operand⟩ := prints.raw_of_code inCode
    refine ⟨raw, member, ?_, operand.trans (operandChars_label target)⟩
    rw [opcode]
    exact (Instruction.isBranch_iff (whole.fits ins inCode)).mpr ⟨l, target⟩
  · rintro ⟨found, raw, member, branch, rfl⟩
    obtain ⟨ins, inCode, opcode, operand⟩ := prints.code_of_raw member
    obtain ⟨l, j, carrier, target, at_, attached, found'⟩ :=
      lookup_branch whole inCode (opcode ▸ branch)
    rw [operand, found', Option.some.injEq] at found
    subst found
    exact ⟨carrier, l, at_, attached, (operand.trans (operandChars_label target)).symm⟩

/-- Exactly the attached labels are referred to. -/
theorem references_printed :
    references (markers b) raws [] = .ok (Code.namedReferences b.code) := by
  have defined : ∀ raw ∈ raws, raw.opcode.isBranch → ((markers b).lookup raw.operand).isSome := by
    intro raw member branch
    obtain ⟨ins, inCode, opcode, operand⟩ := prints.code_of_raw member
    obtain ⟨l, j, carrier, -, -, -, found⟩ := lookup_branch whole inCode (opcode ▸ branch)
    rw [operand, found]
    rfl
  obtain ⟨refs, success⟩ := references_ok defined []
  obtain ⟨sorted, members⟩ := references_eq_ok success
  have sorted' := Code.pairwise_namedReferences whole.attached
  have nodup {refs : List (Nat × List Char)} (sorted : refs.Pairwise ReferenceBefore) :
      refs.Nodup :=
    List.Pairwise.imp (fun {x y} before => by
      rintro rfl
      exact ReferenceBefore.irrefl _ before) sorted
  have perm : refs.Perm (Code.namedReferences b.code) := by
    rw [List.perm_ext_iff_of_nodup (nodup sorted) (nodup sorted')]
    rintro ⟨i, name⟩
    rw [members, mem_namedReferences_iff whole prints]
  rw [success]
  refine congrArg Except.ok (perm.eq_of_pairwise (fun x y _ _ before after => ?_) sorted sorted')
  exact absurd (before.trans after) (ReferenceBefore.irrefl _)

end Prints

end Body

/-! ### Operands -/

section Operands

variable {s : SymbolTable} (sound : s.Sound) (plain : s.Plain) (legible : s.Legible) {b : Body}
  (whole : b.Sound s) (least : ∀ ins ∈ b.code, ins.operand ≠ .int Int64.minValue)
include sound plain legible whole least

omit legible in
/-- The text of an operand reads back. -/
theorem readOperandText_printed {a z : Arrangement} (drawn : a.Over s) (complete : a.Complete s)
    {ins : Instruction} (member : ins ∈ b.code) {raw : RawInstruction}
    (kind : raw.opcode.operandKind = ins.operand.kind)
    (operand : raw.operand = operandChars s b ins)
    (below : (a.mention ins.operand.type?.toList).Below z) :
    readOperandText (numbered (Code.namedReferences b.code)) (a.table s) raw = .ok
      (z.operand (Code.relabel b.code) ins.operand,
        (a.mention ins.operand.type?.toList).table s) := by
  have known := whole.known ins member
  unfold readOperandText
  rw [kind, operand]
  unfold operandChars
  cases shape : ins.operand with
  | none =>
      simp only [Operand.type?, Option.toList_none, Arrangement.mention_nil]
      rfl
  | int n =>
      have value := readInteger?_toString fun same => least ins member (same ▸ shape)
      simp only [operandText, value, Operand.kind, Option.map_some, Operand.type?,
        Option.toList_none, Arrangement.mention_nil]
      rfl
  | text t =>
      simp only [operandText, String.toList_ofList, Text.Quoted.decode_encode, Operand.kind,
        Option.map_some, String.ofList_toList, Operand.type?, Option.toList_none,
        Arrangement.mention_nil]
      rfl
  | arg i =>
      simp only [operandText, Text.uint16?_toString, Operand.kind, Option.map_some, Operand.type?,
        Option.toList_none, Arrangement.mention_nil]
      rfl
  | slot i =>
      simp only [operandText, Text.uint16?_toString, Operand.kind, Option.map_some, Operand.type?,
        Option.toList_none, Arrangement.mention_nil]
      rfl
  | label l =>
      have attached : l ∈ Code.labels b.code :=
        (whole.used l).mpr ⟨ins, member, by rw [Instruction.target?, shape]⟩
      have value : (numbered (Code.namedReferences b.code)).lookup
        (labelName (rankedLabels b.code) l).toList =
          some (Code.relabel b.code l) := Code.lookup_numbered whole.attached attached
      simp only [operandText, value, Operand.kind, Option.map_some, Operand.type?,
        Option.toList_none, Arrangement.mention_nil]
      rfl
  | field f =>
      rw [shape] at known
      have declared := complete.fields f known
      simp only [shape, Operand.type?, Option.toList_none, Arrangement.mention_nil] at below
      simp only [operandText, String.ofList_toList,
        Arrangement.fieldId?_table drawn sound plain declared, Operand.kind, Option.map_some,
        Operand.type?, Option.toList_none, Arrangement.mention_nil, Arrangement.operand,
        below.field declared]
  | method m =>
      rw [shape] at known
      have declared := complete.methods m known
      simp only [shape, Operand.type?, Option.toList_none, Arrangement.mention_nil] at below
      simp only [operandText, String.ofList_toList,
        Arrangement.methodId?_table drawn sound plain declared, Operand.kind, Option.map_some,
        Operand.type?, Option.toList_none, Arrangement.mention_nil, Arrangement.operand,
        below.method declared]
  | type t =>
      rw [shape] at known
      rw [shape, Operand.type?, Option.toList_some] at below
      have stays := below.type (List.mem_append_right _ (List.mem_singleton_self t))
      simp only [operandText, String.ofList_toList, Arrangement.internType_table drawn sound known,
        Operand.kind, Operand.type?, Option.toList_some, Arrangement.operand, stays]

/-- One operand reads back. -/
theorem readOperand_printed {a z : Arrangement} (drawn : a.Over s) (complete : a.Complete s)
    {ins : Instruction} (member : ins ∈ b.code) {raw : RawInstruction}
    (opcode : raw.opcode = ins.opcode) (operand : raw.operand = operandChars s b ins)
    (below : (a.mention ins.operand.type?.toList).Below z) :
    readOperand (numbered (Code.namedReferences b.code)) (a.table s) raw = .ok
      (z.operand (Code.relabel b.code) ins.operand,
        (a.mention ins.operand.type?.toList).table s) := by
  have kind : raw.opcode.operandKind = ins.operand.kind := by
    rw [opcode]
    exact eq_of_beq (whole.fits ins member)
  have nonempty := (trimmed_operandChars sound plain legible.named whole.printable member).2
  have read :=
    readOperandText_printed sound plain whole least drawn complete member kind operand below
  unfold readOperand
  rw [if_neg, if_neg, read]
  · rfl
  · rintro ⟨takes, missing⟩
    rw [kind, ne_eq, Operand.kind_eq_none] at takes
    rw [operand] at missing
    exact nonempty takes (List.isEmpty_iff.mp missing)
  · rintro ⟨takesNone, present⟩
    rw [kind, Operand.kind_eq_none] at takesNone
    rw [operand, operandChars, takesNone] at present
    cases present

/-- The operands of the code read back one by one. -/
theorem readOperands_printed {a z : Arrangement} (drawn : a.Over s) (complete : a.Complete s)
    {rest : List Instruction} (inCode : ∀ ins ∈ rest, ins ∈ b.code) {raws : List RawInstruction}
    (prints : Prints s b raws rest)
    (below : (a.mention (rest.filterMap fun ins => ins.operand.type?)).Below z) :
    readOperands (numbered (Code.namedReferences b.code)) (a.table s) raws =
      .ok (rest.map fun ins => z.operand (Code.relabel b.code) ins.operand,
        (a.mention (rest.filterMap fun ins => ins.operand.type?)).table s) := by
  induction rest generalizing a raws with
  | nil =>
      rw [List.map_eq_nil_iff.mp prints, List.filterMap_nil, Arrangement.mention_nil]
      rfl
  | cons ins rest ih =>
      obtain ⟨raw, more, rfl, print, prints'⟩ := List.map_eq_cons_iff.mp prints
      obtain ⟨opcode, operand⟩ := Prod.mk.inj print
      have types : (ins :: rest).filterMap (fun ins => ins.operand.type?) =
          ins.operand.type?.toList ++ rest.filterMap fun ins => ins.operand.type? := by
        rw [List.filterMap_cons]
        cases ins.operand.type? <;> rfl
      rw [types, ← Arrangement.mention_mention] at below ⊢
      have here := inCode ins (List.mem_cons_self ..)
      have mentioned : ∀ t ∈ ins.operand.type?.toList, s.hasType t := by
        intro t member
        refine whole.mentioned t (List.mem_append_left _ (List.mem_append_right _ ?_))
        exact List.mem_filterMap.mpr ⟨ins, here, Option.mem_toList.mp member⟩
      have first :=
        readOperand_printed sound plain legible whole least drawn complete here opcode operand
        (((a.mention _).below_mention _).trans below)
      have later := ih (drawn.mention mentioned) (complete.mention _)
        (fun other member => inCode other (.tail _ member)) prints' below
      rw [readOperands, first, Except.ok_bind]
      simp only
      rw [later, Except.ok_bind]
      rfl

end Operands

/-! ### Regions -/

section Regions

variable {s : SymbolTable} {b : Body} (whole : b.Printable s)
include whole

/-- A bound reads back. -/
theorem readBound_printed {entry : Nat × String} (bound : entry ∈ bounds b)
    (inside : entry.1 ≤ b.size) (line : Line) :
    readBound (markers b) b.size line (if b.size ≤ entry.1 then endName else entry.2.toList) =
      .ok entry.1 := by
  obtain ⟨i, name⟩ := entry
  obtain ⟨index, part, shape⟩ := mem_bounds_name bound
  simp only at inside shape ⊢
  unfold readBound
  by_cases atEnd : b.size ≤ i
  · rw [if_pos atEnd, if_pos rfl, Nat.le_antisymm inside atEnd]
  · have other : name.toList ≠ endName := fun same =>
      ne_end_of_head (shape ▸ toList_boundName index part) (by decide) (String.toList_inj.mp same)
    rw [if_neg atEnd, if_neg other, lookup_bound whole.attached bound (Nat.lt_of_not_le atEnd)]

/-- The bounds of a region read back. -/
theorem readBounds_printed {r : Region} {index : Nat} (here : b.regions[index]? = some r)
    (line : Line) : (boundWords b.size index r).mapM (readBound (markers b) b.size line) =
      .ok [r.tryStart, r.tryEnd, r.handlerStart, r.handlerEnd] := by
  obtain ⟨tryStart, tryEnd, handlerStart, handlerEnd⟩ := whole.inside r (List.mem_of_getElem? here)
  have bound : ∀ entry ∈ boundNames index r, entry ∈ bounds b := fun _ => mem_bounds here
  rw [boundWords]
  rw [boundNames_eq] at bound ⊢
  simp only [List.map_cons, List.map_nil, List.mapM_cons, List.mapM_nil]
  have first := readBound_printed whole (bound _ (List.mem_cons_self ..)) tryStart line
  have second := readBound_printed whole (bound _ (.tail _ (List.mem_cons_self ..))) tryEnd line
  have third := readBound_printed whole (bound _ (.tail _ (.tail _ (List.mem_cons_self ..))))
    handlerStart line
  have fourth := readBound_printed whole
    (bound _ (.tail _ (.tail _ (.tail _ (List.mem_cons_self ..))))) handlerEnd line
  simp only at first second third fourth
  rw [first, second, third, fourth]
  rfl

/-- One region reads back. -/
theorem resolveRegion_printed (sound : s.Sound) {a z : Arrangement} (drawn : a.Over s) {r : Region}
    {index : Nat} (here : b.regions[index]? = some r) {raw : RawRegion}
    (words : raw.bounds = boundWords b.size index r)
    (type : raw.type = r.caught?.map fun t => (s.typeName t).toList)
    (below : (a.mention r.caught?.toList).Below z) :
    resolveRegion (markers b) b.size (a.table s) raw =
      .ok (z.region r, (a.mention r.caught?.toList).table s) := by
  have member := List.mem_of_getElem? here
  unfold resolveRegion
  rw [words, readBounds_printed whole here, Except.ok_bind, type]
  obtain ⟨kind, _, _, _, _⟩ := r
  cases kind with
  | finalizing =>
      simp only [Region.caught?, Option.map_none, Option.toList_none, Arrangement.mention_nil]
      rfl
  | catching t =>
      have known := whole.caught _ member t rfl
      have stays : z.type t = (a.mention [t]).type t :=
        below.type (List.mem_append_right _ (List.mem_singleton_self t))
      simp only [Region.caught?, Option.map_some, Option.toList_some, String.ofList_toList,
        Arrangement.internType_table drawn sound known]
      rw [Arrangement.region, Arrangement.kind, stays]
      rfl

/-- The regions read back one by one. -/
theorem resolveRegions_printed (sound : s.Sound) {a z : Arrangement} (drawn : a.Over s)
    {rows : List (Region × Nat)} (here : ∀ row ∈ rows, b.regions[row.2]? = some row.1)
    {raws : List RawRegion} (shape : raws.map (fun raw => (raw.bounds, raw.type)) =
      rows.map fun (r, i) => (boundWords b.size i r, r.caught?.map fun t => (s.typeName t).toList))
    (below : (a.mention (rows.filterMap fun row => row.1.caught?)).Below z) :
    resolveRegions (markers b) b.size (a.table s) raws =
      .ok (rows.map fun row => z.region row.1,
        (a.mention (rows.filterMap fun row => row.1.caught?)).table s) := by
  induction rows generalizing a raws with
  | nil =>
      rw [List.map_eq_nil_iff.mp shape, List.filterMap_nil, Arrangement.mention_nil]
      rfl
  | cons row rest ih =>
      obtain ⟨raw, more, rfl, first, shape'⟩ := List.map_eq_cons_iff.mp shape
      obtain ⟨words, type⟩ := Prod.mk.inj first
      have types : (row :: rest).filterMap (fun row => row.1.caught?) =
          row.1.caught?.toList ++ rest.filterMap fun row => row.1.caught? := by
        rw [List.filterMap_cons]
        cases row.1.caught? <;> rfl
      rw [types, ← Arrangement.mention_mention] at below ⊢
      have at_ := here row (List.mem_cons_self ..)
      have read := resolveRegion_printed whole sound drawn at_ words type
        (((a.mention _).below_mention _).trans below)
      have later := ih (drawn.mention fun t member =>
          whole.caught row.1 (List.mem_of_getElem? at_) t (Option.mem_toList.mp member))
        (fun other member => here other (.tail _ member)) shape' below
      rw [resolveRegions, read, Except.ok_bind]
      simp only
      rw [later, Except.ok_bind]
      rfl

end Regions

/-! ### Bodies -/

section Body

variable {s : SymbolTable} (sound : s.Sound) (plain : s.Plain) (legible : s.Legible) {b : Body}
  (whole : b.Sound s) (least : ∀ ins ∈ b.code, ins.operand ≠ .int Int64.minValue)

include whole in
/-- The instructions are put together again. -/
theorem assemble_printed (z : Arrangement) {raws : List RawInstruction}
    (prints : Prints s b raws b.code) :
    ((raws.zip (b.code.map fun ins => z.operand (Code.relabel b.code) ins.operand)).zipIdx.map
      fun ((raw, operand), i) => assemble (Code.namedReferences b.code) raw operand i) =
        b.code.map (z.instruction b.code) := by
  have length := prints.length_eq
  refine List.ext_getElem (by simp [length]) fun i below below' => ?_
  have inside : i < b.code.length := by simpa using below'
  have opcode := prints.opcode_eq (length ▸ inside) inside
  simp only [List.getElem_map, List.getElem_zipIdx, List.getElem_zip, Nat.zero_add]
  rw [Code.assemble_labels whole.attached (List.getElem?_eq_getElem inside), opcode]
  rfl

include sound plain legible whole least in
/-- A printed body reads back as the body under any arrangement that the reader reaches. -/
theorem readBody_printed {a z : Arrangement} (drawn : a.Over s) (complete : a.Complete s)
    {p : PendingBody} (method : p.method = z.method b.method)
    (shape : p.lines.map Line.text = bodyTexts s b) (below : (a.mention b.mentions).Below z) :
    readBody (a.table s) p = .ok (z.body b, (a.mention b.mentions).table s) := by
  obtain ⟨d, reads, sketch⟩ := collects_body sound plain legible.named whole.printable drawn
    ⟨[], [], [], []⟩ p.lines rfl shape
  have labels : d.labels = markers b := congrArg Sketch.labels sketch
  have locals : d.locals = b.locals.map (a.mention b.locals).type := congrArg Sketch.locals sketch
  have prints : Prints s b d.instructions b.code := congrArg Sketch.instructions sketch
  have regions : d.regions.map (fun raw => (raw.bounds, raw.type)) =
      b.regions.zipIdx.map fun (r, i) =>
        (boundWords b.size i r, r.caught?.map fun t => (s.typeName t).toList) :=
    congrArg Sketch.regions sketch
  have size : d.instructions.length = b.size := prints.length_eq
  have caught : b.regions.zipIdx.filterMap (fun row => row.1.caught?) =
      b.regions.filterMap Region.caught? := by
    conv_rhs => rw [← List.zipIdx_map_fst 0 b.regions, List.filterMap_map]
    rfl
  have regionRows : b.regions.zipIdx.map (fun row => z.region row.1) = b.regions.map z.region := by
    conv_rhs => rw [← List.zipIdx_map_fst 0 b.regions, List.map_map]
    rfl
  have mentions : a.mention b.mentions = ((a.mention b.locals).mention
      (b.code.filterMap fun ins => ins.operand.type?)).mention
        (b.regions.filterMap Region.caught?) := by
    rw [Arrangement.mention_mention, Arrangement.mention_mention, ← List.append_assoc]
    rfl
  rw [mentions] at below ⊢
  have overLocals := drawn.mention whole.locals
  have overCode := overLocals.mention
    fun t (member : t ∈ b.code.filterMap fun ins => ins.operand.type?) =>
      whole.mentioned t (List.mem_append_left _ (List.mem_append_right _ member))
  have belowCode := (((a.mention b.locals).mention _).below_mention _).trans below
  have operands := readOperands_printed sound plain legible whole least overLocals
    (complete.mention _) (fun ins member => member) prints belowCode
  have resolved := resolveRegions_printed whole.printable sound overCode
    (fun row (member : row ∈ b.regions.zipIdx) => List.mem_zipIdx_iff_getElem?.mp member) regions
    (by rw [caught]; exact below)
  rw [caught, regionRows] at resolved
  have localsStay : b.locals.map (a.mention b.locals).type = b.locals.map z.type :=
    List.map_congr_left fun t member =>
      ((((a.mention b.locals).below_mention _).trans belowCode).type
        (List.mem_append_right _ member)).symm
  unfold readBody
  rw [reads, Except.ok_bind]
  simp only
  rw [labels, size, markers_inside, references_printed whole prints, Except.ok_bind]
  rw [Code.length_namedReferences, if_neg (Nat.not_le_of_lt whole.labels_lt),
    map_zipIdx_eq_numbered, operands, Except.ok_bind]
  simp only
  rw [resolved, Except.ok_bind, assemble_printed whole z prints, locals, localsStay, method]
  rfl

end Body

end Image

end HookSplice
