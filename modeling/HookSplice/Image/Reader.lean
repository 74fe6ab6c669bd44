import HookSplice.Host
import HookSplice.Image.Fault
import HookSplice.Image.Line
import HookSplice.Text.Numeral
import HookSplice.Text.Quoted

/-!
# Reading a host image

An image is read in two passes.  The first one declares the classes and methods that the lines
name and collects the lines of each body; the second one reads the bodies in the order of the
image, when every symbol is known.
-/

namespace HookSplice.Image

/-- The error of a line. -/
def Line.error (line : Line) (fault : Fault) : ParseError :=
  ⟨line.number, fault, String.ofList line.raw⟩

/-! ### Directives -/

/-- A word `static` in front of a text, and the text behind it. -/
def stripStatic (text : List Char) : Bool × List Char :=
  let (first, rest) := Text.splitFirst text
  if first = "static".toList then (true, rest) else (false, text)

/-- The parts of a method identity: owner, name and parameters. -/
def splitIdentity (identity : List Char) :
    Except Fault (List Char × List Char × List (List Char)) :=
  match Text.splitAtFirst '(' identity with
  | none => .error .missingParameters
  | some (path, rest) =>
      match Text.dropLast? ')' rest with
      | none => .error .openParameters
      | some params =>
          match Text.splitLastColons path with
          | none => .error .missingOwner
          | some (owner, name) =>
              if owner.isEmpty || name.isEmpty then .error .missingOwner
              else
                let trimmed := (Text.pieces (· == ',') params).map Text.trim
                .ok (owner, name, trimmed.filter fun p => !p.isEmpty)

/-- Reads `[static] <ret|void> Owner::Name(P1, P2)` and declares the method. -/
def readSignature (symbols : SymbolTable) (text : List Char) :
    Except Fault (MethodId × SymbolTable) := do
  let (isStatic, rest) := stripStatic text
  let (ret, identity) := Text.splitFirst rest
  if ret.isEmpty || identity.isEmpty then throw .malformedSignature
  else
    let (owner, name, params) ← splitIdentity identity
    let (owner, symbols) := symbols.internType (String.ofList owner)
    let (params, symbols) := symbols.internTypes (params.map String.ofList)
    let (ret, symbols) : Option TypeId × SymbolTable :=
      if ret = "void".toList then (none, symbols)
      else
        let (id, symbols) := symbols.internType (String.ofList ret)
        (some id, symbols)
    (symbols.declareMethod ⟨owner, String.ofList name, params, ret, isStatic⟩).mapError .symbol

/-- Reads `[static] <type> <name>` and declares the field of a class. -/
def readField (symbols : SymbolTable) (owner : TypeId) (text : List Char) :
    Except Fault SymbolTable := do
  let (isStatic, rest) := stripStatic text
  let (type, name) := Text.splitFirst rest
  if type.isEmpty || name.isEmpty || name.any Text.isBlank then throw .malformedField
  else
    let (type, symbols) := symbols.internType (String.ofList type)
    let declared := symbols.declareField ⟨owner, String.ofList name, type, isStatic⟩
    return (← declared.mapError .symbol).2

/-- A method whose body has not been read yet, with its header and the lines between the header
    and `.end`. -/
structure PendingBody where
  method : MethodId
  header : Line
  lines : List Line

/-- What the lines read so far leave open. -/
inductive Open where
  /-- A directive is expected. -/
  | directive
  /-- Members of a class up to its `.end`. -/
  | members (header : Line) (owner : TypeId)
  /-- Lines of a body up to its `.end`. -/
  | body (pending : PendingBody)

/-- The first pass: the symbols declared so far, the bodies collected, and what is open. -/
structure Outline where
  symbols : SymbolTable
  pending : List PendingBody
  state : Open

/-- Reads a line at which a directive is expected. -/
def readDirective (o : Outline) (line : Line) : Except ParseError Outline :=
  let (directive, rest) := Text.splitFirst line.text
  if directive = ".class".toList then
    if rest.isEmpty then .error (line.error .missingClassName)
    else
      let (owner, symbols) := o.symbols.internType (String.ofList rest)
      .ok { o with symbols := symbols, state := .members line owner }
  else if directive = ".extern".toList then
    match readSignature o.symbols rest with
    | .error fault => .error (line.error fault)
    | .ok (_, symbols) => .ok { o with symbols := symbols }
  else if directive = ".method".toList then
    match readSignature o.symbols rest with
    | .error fault => .error (line.error fault)
    | .ok (method, symbols) =>
        if o.pending.any fun p => p.method == method then .error (line.error .secondBody)
        else .ok { o with symbols := symbols, state := .body ⟨method, line, []⟩ }
  else .error (line.error .notADirective)

/-- Whether a line closes a class or a method. -/
def Line.isEnd (line : Line) : Bool :=
  line.text == ".end".toList

/-- Reads one line in the first pass. -/
def readLine (o : Outline) (line : Line) : Except ParseError Outline :=
  match o.state with
  | .directive => readDirective o line
  | .members header owner =>
      if line.isEnd then .ok { o with state := .directive }
      else
        let (directive, rest) := Text.splitFirst line.text
        if directive = ".field".toList then
          match readField o.symbols owner rest with
          | .error fault => .error (line.error fault)
          | .ok symbols => .ok { o with symbols := symbols, state := .members header owner }
        else .error (line.error .notAMember)
  | .body p =>
      if line.isEnd then .ok { o with pending := o.pending ++ [p], state := .directive }
      else .ok { o with state := .body { p with lines := p.lines ++ [line] } }

/-- The first pass over all lines; nothing may be left open. -/
def readOutline (lines : List Line) : Except ParseError (SymbolTable × List PendingBody) := do
  let o ← lines.foldlM readLine ⟨.empty, [], .directive⟩
  match o.state with
  | .directive => return (o.symbols, o.pending)
  | .members header _ => throw (header.error .openClass)
  | .body p => throw (p.header.error .openMethod)

/-! ### Bodies -/

/-- The name that stands for the position behind the last instruction. -/
def endName : List Char := "@end".toList

/-- An instruction whose operand has not been read yet. -/
structure RawInstruction where
  opcode : Opcode
  operand : List Char
  line : Line

/-- An exception region whose bounds are still names; `type` is absent for a finally handler. -/
structure RawRegion where
  bounds : List (List Char)
  type : Option (List Char)
  line : Line

/-- The lines of a body, sorted out: its label names with their positions, its instructions, its
    regions and its locals. -/
structure Draft where
  labels : List (List Char × Nat)
  instructions : List RawInstruction
  regions : List RawRegion
  locals : List TypeId

/-- The name of a label prefix. -/
def labelName? (word : List Char) : Option (List Char) :=
  Text.dropLast? ':' word

/-- Takes the label prefixes off a text and gives what is left.  `fuel` bounds their number. -/
def readLabels (line : Line) :
    Nat → List Char → Draft → Except ParseError (List Char × Draft)
  | 0, text, d => .ok (text, d)
  | fuel + 1, text, d =>
      let (first, rest) := Text.splitFirst text
      match labelName? first with
      | none => .ok (text, d)
      | some name =>
          if name.isEmpty || name.contains ':' || name = endName then
            .error (line.error .badLabelName)
          else if (d.labels.lookup name).isSome then
            .error (line.error (.secondLabel (String.ofList name)))
          else
            readLabels line fuel rest
              { d with labels := d.labels ++ [(name, d.instructions.length)] }

/-- Reads what follows `.try`. -/
def readRegion (line : Line) (text : List Char) : Except ParseError RawRegion :=
  match Text.words text with
  | [a, b, c, d, kind] =>
      if kind = "finally".toList then .ok ⟨[a, b, c, d], none, line⟩
      else .error (line.error .malformedRegion)
  | [a, b, c, d, kind, type] =>
      if kind = "catch".toList then .ok ⟨[a, b, c, d], some type, line⟩
      else .error (line.error .malformedRegion)
  | _ => .error (line.error .malformedRegion)

/-- Sorts out a line of a body from its first word that is no label. -/
def readStatement (line : Line) (symbols : SymbolTable) (text : List Char) (d : Draft) :
    Except ParseError (SymbolTable × Draft) :=
  if text.isEmpty then .ok (symbols, d)
  else
    let (head, rest) := Text.splitFirst text
    if head = ".locals".toList then
      let names := Text.fieldsBetween (fun c => c == ',' || Text.isBlank c) rest
      let (types, symbols) := symbols.internTypes (names.map String.ofList)
      .ok (symbols, { d with locals := d.locals ++ types })
    else if head = ".try".toList then
      match readRegion line rest with
      | .error e => .error e
      | .ok region => .ok (symbols, { d with regions := d.regions ++ [region] })
    else
      match Opcode.ofMnemonic? (String.ofList head) with
      | none => .error (line.error (.unknownOpcode (String.ofList head)))
      | some opcode =>
          .ok (symbols, { d with instructions := d.instructions ++ [⟨opcode, rest, line⟩] })

/-- Sorts out one line of a body. -/
def readBodyLine (state : SymbolTable × Draft) (line : Line) :
    Except ParseError (SymbolTable × Draft) := do
  let (symbols, d) := state
  let (rest, d) ← readLabels line line.text.length line.text d
  readStatement line symbols rest d

/-- Puts a name and its position into a list that is ordered by position, then by name. -/
def insertReference (position : Nat) (name : List Char) :
    List (Nat × List Char) → List (Nat × List Char)
  | [] => [(position, name)]
  | (p, n) :: rest =>
      if position < p ∨ position = p ∧ String.ofList name < String.ofList n then
        (position, name) :: (p, n) :: rest
      else (p, n) :: insertReference position name rest

/-- The label names that branches use, each once, by position and then by name. -/
def references (labels : List (List Char × Nat)) :
    List RawInstruction → List (Nat × List Char) → Except ParseError (List (Nat × List Char))
  | [], found => .ok found
  | raw :: rest, found =>
      if raw.opcode.isBranch then
        match labels.lookup raw.operand with
        | none => .error (raw.line.error (.undefinedLabel (String.ofList raw.operand)))
        | some position =>
            if found.any fun (_, name) => name == raw.operand then references labels rest found
            else references labels rest (insertReference position raw.operand found)
      else references labels rest found

/-- A signed integer: a minus sign in front of a decimal number, or of a hexadecimal one behind
    `0x`, which may have a sign of its own. -/
def readInteger? (text : List Char) : Option Int64 :=
  match text with
  | '-' :: rest => (magnitude? rest).map fun n => -n
  | _ => magnitude? text
where
  magnitude? : List Char → Option Int64
    | '0' :: 'x' :: rest => Text.int64? 16 rest
    | digits => Text.int64? 10 digits

/-- Reads an operand that is present, of the shape that the opcode requires.  `labels` gives the
    label of every name that branches use. -/
def readOperandText (labels : List (List Char × Label)) (symbols : SymbolTable)
    (raw : RawInstruction) : Except Fault (Operand × SymbolTable) :=
  let text := String.ofList raw.operand
  let checked (operand? : Option Operand) (fault : Fault) : Except Fault (Operand × SymbolTable) :=
    match operand? with
    | some operand => .ok (operand, symbols)
    | none => .error fault
  match raw.opcode.operandKind with
  | .none => .ok (.none, symbols)
  | .int => checked ((readInteger? raw.operand).map .int) (.badInteger text)
  | .text =>
      checked ((Text.Quoted.decode raw.operand).map fun s => .text (String.ofList s)) .badString
  | .arg => checked ((Text.uint16? raw.operand).map .arg) (.badArgument text)
  | .slot => checked ((Text.uint16? raw.operand).map .slot) (.badLocal text)
  | .label => checked ((labels.lookup raw.operand).map .label) (.undefinedLabel text)
  | .field => checked ((symbols.fieldId? text).map .field) (.unknownField text)
  | .method => checked ((symbols.methodId? text).map .method) (.unknownMethod text)
  | .type =>
      let (id, symbols) := symbols.internType text
      .ok (.type id, symbols)

/-- Reads the operand of an instruction. -/
def readOperand (labels : List (List Char × Label)) (symbols : SymbolTable)
    (raw : RawInstruction) : Except ParseError (Operand × SymbolTable) :=
  if raw.opcode.operandKind = .none ∧ !raw.operand.isEmpty then
    .error (raw.line.error (.unexpectedOperand raw.opcode))
  else if raw.opcode.operandKind ≠ .none ∧ raw.operand.isEmpty then
    .error (raw.line.error (.missingOperand raw.opcode))
  else (readOperandText labels symbols raw).mapError raw.line.error

/-- Reads the operands of instructions from left to right. -/
def readOperands (labels : List (List Char × Label)) :
    SymbolTable → List RawInstruction → Except ParseError (List Operand × SymbolTable)
  | symbols, [] => .ok ([], symbols)
  | symbols, raw :: rest => do
      let (operand, symbols) ← readOperand labels symbols raw
      let (operands, symbols) ← readOperands labels symbols rest
      return (operand :: operands, symbols)

/-- The position that a bound of a region names in a body of the given size. -/
def readBound (labels : List (List Char × Nat)) (size : Nat) (line : Line) (name : List Char) :
    Except ParseError Nat :=
  if name = endName then .ok size
  else
    match labels.lookup name with
    | some position => .ok position
    | none => .error (line.error (.undefinedLabel (String.ofList name)))

/-- Reads the bounds of a region, then the type it catches. -/
def resolveRegion (labels : List (List Char × Nat)) (size : Nat) (symbols : SymbolTable)
    (raw : RawRegion) : Except ParseError (Region × SymbolTable) := do
  let bounds ← raw.bounds.mapM (readBound labels size raw.line)
  let (kind, symbols) : HandlerKind × SymbolTable :=
    match raw.type with
    | none => (.finalizing, symbols)
    | some name =>
        let (id, symbols) := symbols.internType (String.ofList name)
        (.catching id, symbols)
  let bound (i : Nat) : Nat := bounds.getD i 0
  return (⟨kind, bound 0, bound 1, bound 2, bound 3⟩, symbols)

/-- Reads regions from left to right. -/
def resolveRegions (labels : List (List Char × Nat)) (size : Nat) :
    SymbolTable → List RawRegion → Except ParseError (List Region × SymbolTable)
  | symbols, [] => .ok ([], symbols)
  | symbols, raw :: rest => do
      let (region, symbols) ← resolveRegion labels size symbols raw
      let (regions, symbols) ← resolveRegions labels size symbols rest
      return (region :: regions, symbols)

/-- The instruction at a position: an opcode with its operand and the labels that stand there. -/
def assemble (references : List (Nat × List Char)) (raw : RawInstruction) (operand : Operand)
    (position : Nat) : Instruction :=
  let here := references.zipIdx.filter fun ((p, _), _) => p == position
  ⟨raw.opcode, operand, here.map fun (_, number) => .ofNat number⟩

/-- Reads the body of a method.  Only names that branches use become labels; they are numbered by
    position and then by name, and their count has to be a label number as well. -/
def readBody (symbols : SymbolTable) (p : PendingBody) :
    Except ParseError (Body × SymbolTable) := do
  let (symbols, d) ← p.lines.foldlM readBodyLine (symbols, ⟨[], [], [], []⟩)
  let size := d.instructions.length
  match d.labels.find? fun (_, position) => size ≤ position with
  | some (name, _) => throw (p.header.error (.danglingLabel (String.ofList name)))
  | none =>
      let refs ← references d.labels d.instructions []
      if UInt32.size ≤ refs.length then throw (p.header.error .tooManyLabels)
      else
      let labels := refs.zipIdx.map fun ((_, name), number) => (name, Label.ofNat number)
      let (operands, symbols) ← readOperands labels symbols d.instructions
      let code := (d.instructions.zip operands).zipIdx.map fun ((raw, operand), i) =>
        assemble refs raw operand i
      let (regions, symbols) ← resolveRegions d.labels size symbols d.regions
      return (⟨p.method, code, d.locals, regions, UInt32.ofNat refs.length⟩, symbols)

/-- Reads the bodies that are still pending and puts them into a host. -/
def readBodies : Host → List PendingBody → Except ParseError Host
  | host, [] => .ok host
  | host, p :: rest => do
      let (body, symbols) ← readBody host.symbols p
      match { host with symbols := symbols }.replaceBody body with
      | .ok (_, host) => readBodies host rest
      | .error e => throw (p.header.error (.symbol e))

/-- Reads a host image. -/
def read (image : String) : Except ParseError Host := do
  let lines := linesOf image
  if lines.isEmpty then throw ⟨0, .emptyImage, ""⟩
  else
    let (symbols, pending) ← readOutline lines
    readBodies (.ofSymbols symbols) pending

end HookSplice.Image
