import HookSplice.Proofs.Numerals
import HookSplice.Proofs.PrintedSymbols
import HookSplice.Proofs.SoundBodies

/-!
# Reading a printed body

The lines of a printed body are sorted out into label names, instructions, regions and locals, then
the operands are read.  What comes out is the body under an arrangement: handles and labels are
renamed, everything else stays.
-/

namespace HookSplice

open Text (Solid Trimmed)

namespace Image

/-! ### Sorting out lines -/

/-- What a draft holds, apart from the lines it comes from. -/
structure Sketch where
  labels : List (List Char × Nat)
  instructions : List (Opcode × List Char)
  regions : List (List (List Char) × Option (List Char))
  locals : List TypeId

/-- The sketch of a draft. -/
def Draft.sketch (d : Draft) : Sketch where
  labels := d.labels
  instructions := d.instructions.map fun raw => (raw.opcode, raw.operand)
  regions := d.regions.map fun raw => (raw.bounds, raw.type)
  locals := d.locals

/-- The lines with these texts take the reader from one draft to another. -/
def Collects (texts : List (List Char)) (symbols : SymbolTable) (k : Sketch)
    (symbols' : SymbolTable) (k' : Sketch) : Prop :=
  ∀ (d : Draft) (lines : List Line), d.sketch = k → lines.map Line.text = texts →
    ∃ d', lines.foldlM readBodyLine (symbols, d) = .ok (symbols', d') ∧ d'.sketch = k'

section Collects

variable {symbols symbols' symbols'' : SymbolTable} {k k' k'' : Sketch}
  {texts texts' : List (List Char)}

theorem Collects.nil : Collects [] symbols k symbols k := by
  intro d lines sketch shape
  obtain rfl := List.map_eq_nil_iff.mp shape
  exact ⟨d, rfl, sketch⟩

theorem Collects.append (first : Collects texts symbols k symbols' k')
    (second : Collects texts' symbols' k' symbols'' k'') :
    Collects (texts ++ texts') symbols k symbols'' k'' := by
  intro d lines sketch shape
  obtain ⟨front, back, rfl, frontShape, backShape⟩ := List.map_eq_append_iff.mp shape
  obtain ⟨middle, reads, sketch'⟩ := first d front sketch frontShape
  obtain ⟨last, reads', sketch''⟩ := second middle back sketch' backShape
  refine ⟨last, ?_, sketch''⟩
  rw [List.foldlM_append, reads]
  exact reads'

/-- One line, read by itself. -/
theorem Collects.one {text : List Char}
    (reads : ∀ (d : Draft) (line : Line), d.sketch = k → line.text = text →
      ∃ d', readBodyLine (symbols, d) line = .ok (symbols', d') ∧ d'.sketch = k') :
    Collects [text] symbols k symbols' k' := by
  intro d lines sketch shape
  obtain ⟨line, rest, rfl, here, restShape⟩ := List.map_eq_cons_iff.mp shape
  obtain rfl := List.map_eq_nil_iff.mp restShape
  obtain ⟨d', read, sketch'⟩ := reads d line sketch here
  refine ⟨d', ?_, sketch'⟩
  rw [List.foldlM_cons, read]
  rfl

end Collects

/-! ### Single lines -/

theorem readLabels_none {line : Line} {fuel : Nat} {text : List Char} {d : Draft}
    (unlabelled : labelName? (Text.splitFirst text).1 = none) :
    readLabels line fuel text d = .ok (text, d) := by
  cases fuel with
  | zero => rfl
  | succ n =>
      rw [readLabels]
      simp only [unlabelled]

/-- A line that does not start with a label prefix is read as a statement. -/
theorem readBodyLine_unlabelled {symbols : SymbolTable} {d : Draft} {line : Line}
    (unlabelled : labelName? (Text.splitFirst line.text).1 = none) :
    readBodyLine (symbols, d) line = readStatement line symbols line.text d := by
  unfold readBodyLine
  simp only
  rw [readLabels_none unlabelled, Except.ok_bind]

/-- A line that holds a label prefix and nothing else. -/
theorem collects_marker {symbols : SymbolTable} {k : Sketch} {name : List Char} (solid : Solid name)
    (nonempty : name ≠ []) (colon : ':' ∉ name) (notEnd : name ≠ endName)
    (new : name ∉ k.labels.map Prod.fst) :
    Collects [name ++ [':']] symbols k symbols
      { k with labels := k.labels ++ [(name, k.instructions.length)] } := by
  refine Collects.one fun d line sketch text => ?_
  subst sketch
  have split : Text.splitFirst line.text = (name ++ [':'], []) := by
    rw [text]
    exact Text.splitFirst_solid (solid.append (by decide))
  have fuel : line.text.length = name.length + 1 := by
    rw [text, List.length_append]
    rfl
  have undefined : d.labels.lookup name = none := by
    rw [List.lookup_eq_none_iff]
    rintro ⟨other, i⟩ member
    exact bne_iff_ne.mpr fun same => new (List.mem_map.mpr ⟨_, member, same.symm⟩)
  have bad : (name.isEmpty || name.contains ':' || decide (name = endName)) = false := by
    simp [nonempty, colon, notEnd]
  refine ⟨{ d with labels := d.labels ++ [(name, d.instructions.length)] }, ?_, ?_⟩
  · unfold readBodyLine
    simp only
    rw [fuel, readLabels, split]
    simp only [labelName?, Text.dropLast?_append]
    rw [if_neg (by simpa using bad), undefined]
    simp only [Option.isSome_none, Bool.false_eq_true, if_false]
    rw [readLabels_none rfl]
    rfl
  · simp [Draft.sketch]

theorem labelName?_plain {word : List Char} (plain : Text.Plain word) : labelName? word = none := by
  unfold labelName? Text.dropLast?
  split
  · rfl
  · next c rest reversed =>
      have member : c ∈ word := List.mem_reverse.mp (reversed ▸ List.mem_cons_self ..)
      rw [if_neg (by simpa using Text.isPlain_ne (plain c member) (by decide))]

/-- A mnemonic is a word by itself, and names its opcode. -/
theorem plain_mnemonic (op : Opcode) : Text.Plain op.mnemonic.toList := by
  cases op <;> decide

theorem mnemonic_ne_nil (op : Opcode) : op.mnemonic.toList ≠ [] := by
  cases op <;> decide

theorem mnemonic_head (op : Opcode) : op.mnemonic.toList.head? ≠ some '.' := by
  cases op <;> decide

theorem ofMnemonic?_mnemonic (op : Opcode) : Opcode.ofMnemonic? op.mnemonic = some op := by
  cases op <;> decide

/-- A line that holds an instruction. -/
theorem collects_instruction {symbols : SymbolTable} {k : Sketch} {text rest : List Char}
    {op : Opcode} (split : Text.splitFirst text = (op.mnemonic.toList, rest))
    (nonempty : text ≠ []) :
    Collects [text] symbols k symbols
      { k with instructions := k.instructions ++ [(op, rest)] } := by
  refine Collects.one fun d line sketch shape => ?_
  subst sketch shape
  have notLocals : op.mnemonic.toList ≠ ".locals".toList := fun same =>
    mnemonic_head op (congrArg List.head? same)
  have notTry : op.mnemonic.toList ≠ ".try".toList := fun same =>
    mnemonic_head op (congrArg List.head? same)
  refine ⟨{ d with instructions := d.instructions ++ [⟨op, rest, line⟩] }, ?_, ?_⟩
  · rw [readBodyLine_unlabelled (split ▸ labelName?_plain (plain_mnemonic op))]
    unfold readStatement
    rw [if_neg (by simpa using nonempty), split]
    simp only
    rw [if_neg notLocals, if_neg notTry, String.ofList_toList, ofMnemonic?_mnemonic]
  · simp [Draft.sketch]

theorem trimmed_intercalate {texts : List (List Char)}
    (words : ∀ text ∈ texts, Solid text ∧ text ≠ []) :
    Trimmed ([' '].intercalate texts) ∧ (texts ≠ [] → [' '].intercalate texts ≠ []) := by
  induction texts with
  | nil => exact ⟨Solid.trimmed fun c member => absurd member List.not_mem_nil,
      fun h => absurd rfl h⟩
  | cons text rest ih =>
      obtain ⟨solid, nonempty⟩ := words text (List.mem_cons_self ..)
      obtain ⟨trimmed, nonempty'⟩ := ih fun next member => words next (.tail _ member)
      cases rest with
      | nil =>
          rw [List.intercalate_singleton]
          exact ⟨solid.trimmed, fun _ => nonempty⟩
      | cons next more =>
          rw [List.intercalate_cons_cons]
          exact ⟨Trimmed.append solid nonempty [' '] trimmed (nonempty' (List.cons_ne_nil _ _)),
            fun _ => by simp [nonempty]⟩

theorem labelName?_splitFirst {word rest : List Char} (solid : Solid word)
    (unlabelled : labelName? word = none) (trimmed : Trimmed rest) :
    labelName? (Text.splitFirst (word ++ ' ' :: rest)).1 = none := by
  rw [Text.splitFirst_append solid trimmed]
  exact unlabelled

/-- The line that declares the locals. -/
theorem collects_locals {a : Arrangement} {s : SymbolTable} (drawn : a.Over s) (sound : s.Sound)
    (plain : s.Plain) (named : s.TypesNamed) {ts : List TypeId} (known : ∀ t ∈ ts, s.hasType t)
    (k : Sketch) :
    Collects [".locals".toList ++ ' ' :: [' '].intercalate (ts.map fun t => (s.typeName t).toList)]
      (a.table s) k ((a.mention ts).table s)
      { k with locals := k.locals ++ ts.map (a.mention ts).type } := by
  refine Collects.one fun d line sketch shape => ?_
  subst sketch
  have word : ∀ text ∈ ts.map fun t => (s.typeName t).toList, Text.Plain text ∧ text ≠ [] := by
    intro text member
    obtain ⟨t, here, rfl⟩ := List.mem_map.mp member
    exact ⟨plain.type (known t here), named.type (known t here)⟩
  have trimmed := (trimmed_intercalate fun text member =>
    ⟨(word text member).1.solid, (word text member).2⟩).1
  have names : (Text.fieldsBetween (fun c => c == ',' || Text.isBlank c)
      ([' '].intercalate (ts.map fun t => (s.typeName t).toList))).map String.ofList =
      ts.map s.typeName := by
    rw [Text.fieldsBetween_intercalate (by decide) (fun text member c inside => ?_)
      (fun text member => (word text member).2), List.map_map]
    · exact List.map_congr_left fun t _ => String.ofList_toList
    · have isPlain := (word text member).1
      rw [isPlain.solid c inside, Bool.or_false]
      exact beq_false_of_ne (Text.isPlain_ne (isPlain c inside) (by decide))
  refine ⟨{ d with locals := d.locals ++ ts.map (a.mention ts).type }, ?_, rfl⟩
  rw [readBodyLine_unlabelled (shape ▸ labelName?_splitFirst (by decide) (by decide) trimmed),
    shape]
  unfold readStatement
  rw [if_neg (by simp), Text.splitFirst_append (by decide) trimmed]
  refine (if_pos rfl).trans ?_
  simp only
  rw [names, Arrangement.internTypes_table drawn sound known]

/-- The words behind the bounds of a region. -/
def kindWords (s : SymbolTable) (r : Region) : List (List Char) :=
  match r.caught? with
  | some t => ["catch".toList, (s.typeName t).toList]
  | none => ["finally".toList]

/-- The words for the bounds of a region. -/
def boundWords (size index : Nat) (r : Region) : List (List Char) :=
  (boundNames index r).map fun (position, name) =>
    if size ≤ position then endName else name.toList

/-- The words of a region are words by themselves. -/
theorem regionWord {s : SymbolTable} (plain : s.Plain) (named : s.TypesNamed) {size index : Nat}
    {r : Region} (caught : ∀ t ∈ r.caught?, s.hasType t) {word : List Char}
    (member : word ∈ boundWords size index r ++ kindWords s r) :
    Text.Bare word ∧ Solid word ∧ word ≠ [] := by
  rcases List.mem_append.mp member with member | member
  · obtain ⟨entry, inside, rfl⟩ := List.mem_map.mp member
    simp only
    split
    · exact ⟨by decide, by decide, by decide⟩
    · have isPlain := plain_boundNames inside
      exact ⟨isPlain.bare, isPlain.solid, boundNames_ne_nil inside⟩
  · unfold kindWords at member
    cases type : r.caught? with
    | none =>
        rw [type] at member
        rw [List.mem_singleton.mp member]
        exact ⟨by decide, by decide, by decide⟩
    | some t =>
        rw [type] at member
        rcases List.mem_cons.mp member with rfl | member
        · exact ⟨by decide, by decide, by decide⟩
        · have isPlain := plain.type (caught t type)
          rw [List.mem_singleton.mp member]
          exact ⟨isPlain.bare, isPlain.solid, named.type (caught t type)⟩

/-- A line that declares a region. -/
theorem collects_region {symbols s : SymbolTable} (plain : s.Plain) (named : s.TypesNamed)
    (size index : Nat) {r : Region} (caught : ∀ t ∈ r.caught?, s.hasType t) (k : Sketch) :
    Collects [".try".toList ++ ' ' :: [' '].intercalate (boundWords size index r ++ kindWords s r)]
      symbols k symbols { k with regions := k.regions ++
        [(boundWords size index r, r.caught?.map fun t => (s.typeName t).toList)] } := by
  refine Collects.one fun d line sketch shape => ?_
  subst sketch
  have words := fun word (member : word ∈ boundWords size index r ++ kindWords s r) =>
    regionWord plain named caught member
  have trimmed := (trimmed_intercalate fun word member => (words word member).2).1
  have split : Text.words ([' '].intercalate (boundWords size index r ++ kindWords s r)) =
      boundWords size index r ++ kindWords s r :=
    Text.fieldsBetween_intercalate (by decide) (fun word member => (words word member).2.1)
      (fun word member => (words word member).2.2)
  have read : readRegion line ([' '].intercalate (boundWords size index r ++ kindWords s r)) =
      .ok ⟨boundWords size index r, r.caught?.map fun t => (s.typeName t).toList, line⟩ := by
    unfold readRegion
    rw [split]
    unfold kindWords boundWords
    rw [boundNames_eq]
    cases r.caught? with
    | none => exact if_pos rfl
    | some t => exact if_pos rfl
  refine ⟨{ d with regions := d.regions ++
    [⟨boundWords size index r, r.caught?.map fun t => (s.typeName t).toList, line⟩] }, ?_, ?_⟩
  · have notLocals : ".try".toList ≠ ".locals".toList := by decide
    rw [readBodyLine_unlabelled (shape ▸ labelName?_splitFirst (by decide) (by decide) trimmed),
      shape]
    unfold readStatement
    rw [if_neg (by simp), Text.splitFirst_append (by decide) trimmed]
    refine (if_neg notLocals).trans ((if_pos rfl).trans ?_)
    rw [read]
  · simp [Draft.sketch]

/-! ### The lines of a body -/

/-- The line that declares the locals, if there are any. -/
def localsTexts (s : SymbolTable) (b : Body) : List (List Char) :=
  if b.locals = [] then []
  else [".locals".toList ++ ' ' :: [' '].intercalate (b.locals.map fun t => (s.typeName t).toList)]

/-- The operand of an instruction, as it is printed. -/
def operandChars (s : SymbolTable) (b : Body) (ins : Instruction) : List Char :=
  (operandText s (labelName (rankedLabels b.code)) ins.operand).toList

/-- The markers in front of the instruction at a position, and the instruction. -/
def rowTexts (s : SymbolTable) (b : Body) (row : Instruction × Nat) : List (List Char) :=
  (markersAt b (rankedLabels b.code) row.2 row.1).map (fun name => name.toList ++ [':']) ++
    [(instructionText s (labelName (rankedLabels b.code)) row.1).toList]

/-- The lines of the code. -/
def codeTexts (s : SymbolTable) (b : Body) : List (List Char) :=
  b.code.zipIdx.flatMap (rowTexts s b)

/-- The lines that declare the regions. -/
def regionTexts (s : SymbolTable) (b : Body) : List (List Char) :=
  b.regions.zipIdx.map fun (r, i) =>
    ".try".toList ++ ' ' :: [' '].intercalate (boundWords b.size i r ++ kindWords s r)

/-- The lines of a body between its header and its end, as the reader sees them. -/
def bodyTexts (s : SymbolTable) (b : Body) : List (List Char) :=
  localsTexts s b ++ codeTexts s b ++ regionTexts s b

/-- What the reader sorts the lines of a body into, the locals having been given new handles. -/
def bodySketch (s : SymbolTable) (b : Body) (locals : List TypeId) : Sketch where
  labels := markers b
  instructions := b.code.map fun ins => (ins.opcode, operandChars s b ins)
  regions := b.regions.zipIdx.map fun (r, i) =>
    (boundWords b.size i r, r.caught?.map fun t => (s.typeName t).toList)
  locals := locals

theorem toList_instructionText (s : SymbolTable) (name : Label → String) (ins : Instruction) :
    (instructionText s name ins).toList =
      if ins.operand = .none then ins.opcode.mnemonic.toList
      else ins.opcode.mnemonic.toList ++ ' ' :: (operandText s name ins.operand).toList := by
  unfold instructionText
  cases ins.operand with
  | none => rfl
  | int | text | arg | slot | label | field | method | type => simp [operandText]

/-- The markers in front of one instruction. -/
theorem collects_markers {symbols : SymbolTable} {names : List String} {k : Sketch}
    (words : ∀ name ∈ names, Text.Plain name.toList ∧ name.toList ≠ [] ∧ name ≠ "@end")
    (distinct : (k.labels.map Prod.fst ++ names.map String.toList).Nodup) :
    Collects (names.map fun name => name.toList ++ [':']) symbols k symbols
      { k with labels := k.labels ++ names.map fun name =>
        (name.toList, k.instructions.length) } := by
  induction names generalizing k with
  | nil =>
      rw [List.map_nil, List.map_nil, List.append_nil]
      exact .nil
  | cons name rest ih =>
      obtain ⟨isPlain, nonempty, other⟩ := words name (List.mem_cons_self ..)
      have notEnd : name.toList ≠ endName := fun same => other (String.toList_inj.mp same)
      have new : name.toList ∉ k.labels.map Prod.fst := fun old =>
        (List.nodup_append'.mp distinct).2.2 old (List.mem_cons_self ..)
      have first : Collects _ symbols _ symbols _ := collects_marker isPlain.solid nonempty
        (isPlain.not_mem (by decide)) notEnd new
      have later := ih
        (k := { k with labels := k.labels ++ [(name.toList, k.instructions.length)] })
        (fun other member => words other (.tail _ member)) (by
          rw [List.map_append, List.append_assoc]
          exact distinct)
      have joined := first.append later
      rw [List.append_assoc] at joined
      exact joined

section Body

variable {s : SymbolTable} (sound : s.Sound) (plain : s.Plain) (named : s.TypesNamed) {b : Body}
  (whole : b.Printable s)
include sound plain named whole

/-- The text of an operand has no blanks around it, and is empty only if there is no operand. -/
theorem trimmed_operandChars {ins : Instruction} (member : ins ∈ b.code) :
    Trimmed (operandChars s b ins) ∧ (ins.operand ≠ .none → operandChars s b ins ≠ []) := by
  unfold operandChars
  have known := whole.known ins member
  have digits (n : Nat) : Text.Solid (toString n).toList ∧ (toString n).toList ≠ [] := by
    rw [Nat.toString_eq_repr, Nat.toList_repr]
    exact ⟨Text.Plain.solid fun c inside => isPlain_of_mem_toDigits inside, Nat.toDigits_ne_nil⟩
  cases shape : ins.operand with
  | none => exact ⟨Solid.trimmed fun c inside => absurd inside List.not_mem_nil,
      fun h => absurd rfl h⟩
  | int n =>
      have solid : Text.Solid (toString n.toInt).toList ∧ (toString n.toInt).toList ≠ [] := by
        rw [Int.toString_eq_repr, Int.repr_eq_if, ← Nat.toString_eq_repr, ← Nat.toString_eq_repr]
        split
        · exact digits _
        · rw [String.toList_append]
          exact ⟨Solid.append (by decide) (digits _).1, by simp⟩
      exact ⟨solid.1.trimmed, fun _ => solid.2⟩
  | text t =>
      simp only [operandText, String.toList_ofList]
      exact ⟨trimmed_encode _, fun _ => List.cons_ne_nil _ _⟩
  | arg i => exact ⟨(digits i.toNat).1.trimmed, fun _ => (digits i.toNat).2⟩
  | slot i => exact ⟨(digits i.toNat).1.trimmed, fun _ => (digits i.toNat).2⟩
  | label l =>
      have attached : l ∈ Code.labels b.code :=
        whole.targets ins member l (by rw [Instruction.target?, shape]; rfl)
      simp only [operandText, labelName_eq whole.attached attached]
      exact ⟨(plain_rankName _).solid.trimmed,
        fun _ => by rw [toList_rankName]; exact List.cons_ne_nil _ _⟩
  | field f =>
      rw [shape] at known
      have owner := sound.owner_known known
      simp only [operandText, SymbolTable.toList_fieldName known]
      refine ⟨Solid.trimmed ?_, fun _ => by simp⟩
      exact (plain.type owner).solid.append
        (Solid.append (show Solid [':', ':'] by decide) (plain.field known).solid)
  | method m =>
      rw [shape] at known
      have identity := trimmed_identity plain named (sound.signature_known known) ", "
      simp only [operandText, SymbolTable.toList_methodName known]
      exact ⟨identity.1, fun _ => identity.2⟩
  | type t =>
      rw [shape] at known
      exact ⟨(plain.type known).solid.trimmed, fun _ => named.type known⟩

/-- An instruction comes apart into its mnemonic and its operand. -/
theorem splitFirst_instructionText {ins : Instruction} (member : ins ∈ b.code) :
    Text.splitFirst (instructionText s (labelName (rankedLabels b.code)) ins).toList =
      (ins.opcode.mnemonic.toList, operandChars s b ins) ∧
      (instructionText s (labelName (rankedLabels b.code)) ins).toList ≠ [] := by
  have mnemonic := (plain_mnemonic ins.opcode).solid
  rw [toList_instructionText]
  split
  · next none_ =>
      rw [Text.splitFirst_solid mnemonic, operandChars, none_]
      exact ⟨rfl, mnemonic_ne_nil _⟩
  · have trimmed := (trimmed_operandChars sound plain named whole member).1
    exact ⟨Text.splitFirst_append mnemonic trimmed, by simp⟩

/-- The code from some position on. -/
theorem collects_code {symbols : SymbolTable} {rest : List Instruction} {k : Sketch}
    (here : ∀ row ∈ rest.zipIdx k.instructions.length, b.code[row.2]? = some row.1)
    (distinct : ((k.labels ++ (rest.zipIdx k.instructions.length).flatMap fun row =>
      (markersAt b (rankedLabels b.code) row.2 row.1).map fun name => (name.toList, row.2)).map
        Prod.fst).Nodup) :
    Collects ((rest.zipIdx k.instructions.length).flatMap (rowTexts s b)) symbols k symbols
      { k with
        labels := k.labels ++ (rest.zipIdx k.instructions.length).flatMap fun row =>
          (markersAt b (rankedLabels b.code) row.2 row.1).map fun name => (name.toList, row.2)
        instructions := k.instructions ++ rest.map fun ins =>
          (ins.opcode, operandChars s b ins) } := by
  induction rest generalizing k with
  | nil =>
      simp only [List.zipIdx_nil, List.flatMap_nil, List.map_nil, List.append_nil]
      exact .nil
  | cons ins rest ih =>
      rw [List.zipIdx_cons] at here distinct ⊢
      rw [List.flatMap_cons] at distinct
      have at_ := here _ (List.mem_cons_self ..)
      obtain ⟨split, nonempty⟩ :=
        splitFirst_instructionText sound plain named whole (List.mem_of_getElem? at_)
      have first : Collects _ symbols k symbols _ := collects_markers
        (fun name member => plain_marker whole.attached at_ member) (by
          rw [← List.append_assoc, List.map_append] at distinct
          have front := (List.nodup_append'.mp distinct).1
          rwa [List.map_append, List.map_map] at front)
      have second := first.append (collects_instruction split nonempty)
      rw [← List.append_assoc] at distinct
      have length : (k.instructions ++ [(ins.opcode, operandChars s b ins)]).length =
          k.instructions.length + 1 := List.length_append
      have later := ih
        (k := { k with
          labels := k.labels ++ (markersAt b (rankedLabels b.code) k.instructions.length ins).map
            fun name => (name.toList, k.instructions.length)
          instructions := k.instructions ++ [(ins.opcode, operandChars s b ins)] })
        (by rw [length]; exact fun row member => here row (.tail _ member))
        (by rw [length]; exact distinct)
      have joined := second.append later
      rw [length] at joined
      simp only [List.append_assoc, List.singleton_append] at joined
      rw [List.flatMap_cons, List.flatMap_cons, List.map_cons]
      unfold rowTexts
      simp only [List.append_assoc, List.singleton_append]
      exact joined

omit sound whole in
/-- The regions. -/
theorem collects_regions {symbols : SymbolTable} {size : Nat} {rows : List (Region × Nat)}
    (caught : ∀ row ∈ rows, ∀ t ∈ row.1.caught?, s.hasType t) (k : Sketch) :
    Collects (rows.map fun (r, i) =>
        ".try".toList ++ ' ' :: [' '].intercalate (boundWords size i r ++ kindWords s r)) symbols k
      symbols { k with regions := k.regions ++ rows.map fun (r, i) =>
        (boundWords size i r, r.caught?.map fun t => (s.typeName t).toList) } := by
  induction rows generalizing k with
  | nil =>
      simp only [List.map_nil, List.append_nil]
      exact .nil
  | cons row rest ih =>
      obtain ⟨r, i⟩ := row
      have first : Collects _ symbols _ symbols _ := collects_region plain named size i
        (caught (r, i) (List.mem_cons_self ..)) k
      have joined := first.append (ih (fun other member => caught other (.tail _ member)) _)
      simp only [List.append_assoc] at joined
      exact joined

/-- All lines of a body. -/
theorem collects_body {a : Arrangement} (drawn : a.Over s) :
    Collects (bodyTexts s b) (a.table s) ⟨[], [], [], []⟩ ((a.mention b.locals).table s)
      (bodySketch s b (b.locals.map (a.mention b.locals).type)) := by
  have locals : Collects (localsTexts s b) (a.table s) ⟨[], [], [], []⟩
      ((a.mention b.locals).table s) ⟨[], [], [], b.locals.map (a.mention b.locals).type⟩ := by
    unfold localsTexts
    split
    · next none_ =>
        rw [none_, Arrangement.mention, List.append_nil]
        exact .nil
    · exact collects_locals drawn sound plain named whole.locals _
  have code : Collects (codeTexts s b) ((a.mention b.locals).table s)
      ⟨[], [], [], b.locals.map (a.mention b.locals).type⟩ ((a.mention b.locals).table s) _ :=
    collects_code sound plain named whole
      (fun row member => List.mem_zipIdx_iff_getElem?.mp member) (nodup_markers whole.attached)
  have regions : ∀ k, Collects (regionTexts s b) ((a.mention b.locals).table s) k
      ((a.mention b.locals).table s) _ :=
    collects_regions plain named (fun row member => whole.caught row.1
      (List.mem_of_getElem? (List.mem_zipIdx_iff_getElem?.mp member)))
  exact (locals.append code).append (regions _)

/-- No line of a body closes it. -/
theorem bodyTexts_ne_end {text : List Char} (member : text ∈ bodyTexts s b) :
    text ≠ ".end".toList := by
  have long {word rest : List Char} (length : 4 ≤ word.length) :
      word ++ ' ' :: rest ≠ ".end".toList := by
    intro same
    have lengths := congrArg List.length same
    have four : ".end".toList.length = 4 := by decide
    rw [List.length_append, List.length_cons, four] at lengths
    omega
  rcases List.mem_append.mp member with member | member
  · rcases List.mem_append.mp member with member | member
    · unfold localsTexts at member
      split at member
      · cases member
      · rw [List.mem_singleton.mp member]
        exact long (by decide)
    · obtain ⟨⟨ins, i⟩, row, inside⟩ := List.mem_flatMap.mp member
      rcases List.mem_append.mp inside with marker | line
      · obtain ⟨name, -, rfl⟩ := List.mem_map.mp marker
        intro same
        have last := congrArg List.getLast? same
        rw [List.getLast?_concat] at last
        exact absurd last.symm (by decide)
      · rw [List.mem_singleton.mp line]
        intro same
        have inCode := List.mem_of_getElem? (List.mem_zipIdx_iff_getElem?.mp row)
        have split := (splitFirst_instructionText sound plain named whole inCode).1
        simp only at same
        rw [same] at split
        have closing : Text.splitFirst ".end".toList = (".end".toList, []) := by decide
        rw [closing] at split
        have mnemonic : ".end".toList = ins.opcode.mnemonic.toList := congrArg Prod.fst split
        have head := mnemonic_head ins.opcode
        rw [← mnemonic] at head
        exact head (by decide)
  · obtain ⟨row, -, rfl⟩ := List.mem_map.mp member
    exact long (by decide)

end Body

end Image

end HookSplice
