import HookSplice.Host
import HookSplice.Text.Quoted

/-!
# Printing a host image

The canonical text of bodies and hosts.  Labels are named by their rank: `L0`, `L1` and so on by
position, labels at one position by their numbers.  So bodies that differ only in the numbers of
their labels print alike.
-/

namespace HookSplice.Image

/-- The text of an operand, a label being named by `labelName`. -/
def operandText (symbols : SymbolTable) (labelName : Label → String) : Operand → String
  | .none => ""
  | .int n => toString n.toInt
  | .text s => String.ofList (Text.Quoted.encode s.toList)
  | .arg i => toString i.toNat
  | .slot i => toString i.toNat
  | .label l => labelName l
  | .field id => symbols.fieldName id
  | .method id => symbols.methodName id
  | .type id => symbols.typeName id

/-- The text of an instruction, without its labels. -/
def instructionText (symbols : SymbolTable) (labelName : Label → String) (ins : Instruction) :
    String :=
  match ins.operand with
  | .none => ins.opcode.mnemonic
  | operand => ins.opcode.mnemonic ++ " " ++ operandText symbols labelName operand

/-- The text of an instruction with the numbers of its labels, for messages. -/
def renderInstruction (symbols : SymbolTable) (ins : Instruction) : String :=
  instructionText symbols Label.display ins

/-- Puts a label before those with larger numbers. -/
def insertLabel (l : Label) : List Label → List Label
  | [] => [l]
  | m :: rest => if l.number < m.number then l :: m :: rest else m :: insertLabel l rest

/-- Labels by ascending number. -/
def sortLabels (labels : List Label) : List Label :=
  labels.foldl (fun sorted l => insertLabel l sorted) []

/-- The attached labels by position and then by number; the place in this list is the rank. -/
def rankedLabels (code : List Instruction) : List Label :=
  code.flatMap fun ins => sortLabels ins.labels

/-- The name of the label with a rank. -/
def rankName (rank : Nat) : String :=
  "L" ++ toString rank

/-- The rank of a label, the last one if it is attached more than once. -/
def rank? (ranked : List Label) (l : Label) : Option Nat :=
  ((ranked.zipIdx.filter fun (m, _) => m == l).map Prod.snd).getLast?

/-- The name of a label: by its rank, or by its number with a question mark when it is attached
    nowhere. -/
def labelName (ranked : List Label) (l : Label) : String :=
  match rank? ranked l with
  | some rank => rankName rank
  | none => l.display ++ "?"

/-- The names of the four bounds of a region, with the positions they mark. -/
def boundNames (index : Nat) (r : Region) : List (Nat × String) :=
  let name (part : String) : String := "r" ++ toString index ++ "." ++ part
  [(r.tryStart, name "try"), (r.tryEnd, name "end"), (r.handlerStart, name "handler"),
   (r.handlerEnd, name "done")]

/-- The line that declares a region of a body of the given size.  Bounds at or past the end are
    written `@end`. -/
def regionLine (symbols : SymbolTable) (size index : Nat) (r : Region) : String :=
  let names := (boundNames index r).map fun (position, name) =>
    if size ≤ position then "@end" else name
  let kind :=
    match r.kind with
    | .catching type => "catch " ++ symbols.typeName type
    | .finalizing => "finally"
  "  .try " ++ String.intercalate " " names ++ " " ++ kind

/-- The names that stand in front of the instruction at a position: its labels by their numbers,
    then the region bounds there. -/
def markersAt (body : Body) (ranked : List Label) (position : Nat) (ins : Instruction) :
    List String :=
  let bounds := body.regions.zipIdx.flatMap fun (r, index) => boundNames index r
  (sortLabels ins.labels).map (labelName ranked) ++
    (bounds.filter fun (p, _) => p == position).map Prod.snd

/-- The lines of the canonical text of a body. -/
def bodyLines (symbols : SymbolTable) (body : Body) : List String :=
  let ranked := rankedLabels body.code
  let header := ".method " ++ symbols.signature body.method
  let locals :=
    if body.locals.isEmpty then []
    else ["  .locals " ++ String.intercalate " " (body.locals.map symbols.typeName)]
  let code := body.code.zipIdx.flatMap fun (ins, i) =>
    (markersAt body ranked i ins).map (· ++ ":") ++
      ["  " ++ instructionText symbols (labelName ranked) ins]
  let regions := body.regions.zipIdx.map fun (r, i) => regionLine symbols body.size i r
  header :: (locals ++ code ++ regions ++ [".end"])

/-- Lines, each with a line feed behind it. -/
def unlines (lines : List String) : String :=
  String.join (lines.map (· ++ "\n"))

/-- The canonical text of a body, with its header. -/
def printBody (symbols : SymbolTable) (body : Body) : String :=
  unlines (bodyLines symbols body)

/-- The lines that declare a class, if it has fields. -/
def classLines (symbols : SymbolTable) (id : TypeId) : List String :=
  match symbols.fieldsOf id with
  | [] => []
  | fields =>
      let members := fields.filterMap fun f => (symbols.field? f).map fun d =>
        "  .field " ++ (if d.isStatic then "static " else "") ++ symbols.typeName d.type ++ " " ++
          d.name
      (".class " ++ symbols.typeName id) :: (members ++ [".end", ""])

/-- The lines that declare the methods without a body. -/
def bodilessLines (host : Host) : List String :=
  let missing := host.symbols.methodIds.filter fun m => (host.body? m).isNone
  match missing with
  | [] => []
  | _ => (missing.map fun m => ".extern " ++ host.symbols.signature m) ++ [""]

/-- The canonical text of a host image. -/
def print (host : Host) : String :=
  unlines (host.symbols.typeIds.flatMap (classLines host.symbols) ++ bodilessLines host ++
    host.bodies.toList.flatMap fun body => bodyLines host.symbols body ++ [""])

end HookSplice.Image
