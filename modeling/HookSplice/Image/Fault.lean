import HookSplice.Opcode
import HookSplice.Symbols

/-!
# Faults of a host image

What can be wrong with a line of a host image, and how it is worded.
-/

namespace HookSplice.Image

/-- What is wrong with a line. -/
inductive Fault where
  | emptyImage
  | notADirective
  | missingClassName
  | openClass
  | notAMember
  | malformedField
  | malformedSignature
  | missingParameters
  | openParameters
  | missingOwner
  | symbol (cause : SymbolError)
  | secondBody
  | openMethod
  | badLabelName
  | secondLabel (name : String)
  | malformedRegion
  | unknownOpcode (name : String)
  | danglingLabel (name : String)
  | undefinedLabel (name : String)
  /-- More labels than there are numbers for them. -/
  | tooManyLabels
  | unexpectedOperand (opcode : Opcode)
  | missingOperand (opcode : Opcode)
  | badInteger (text : String)
  | badString
  | badArgument (text : String)
  | badLocal (text : String)
  | unknownField (path : String)
  | unknownMethod (identity : String)
  deriving DecidableEq

/-- The wording of a name that is no opcode. -/
def unknownOpcodeMessage (name : String) : String :=
  "unknown opcode '" ++ name ++ "'"

/-- A text between grave accents. -/
def accented (text : String) : String :=
  "\x60" ++ text ++ "\x60"

/-- The wording of a fault. -/
def Fault.message : Fault → String
  | emptyImage => "empty host image"
  | notADirective => "expected .class, .extern or .method"
  | missingClassName => "missing class name"
  | openClass => "unterminated .class"
  | notAMember => "expected .field or .end"
  | malformedField => "expected " ++ accented ".field [static] <type> <name>"
  | malformedSignature => "expected " ++ accented "[static] <ret> Owner::Name(params)"
  | missingParameters => "missing parameter list"
  | openParameters => "unterminated parameter list"
  | missingOwner => "expected Owner::Name"
  | symbol cause => cause.message
  | secondBody => "method body defined twice"
  | openMethod => "unterminated .method"
  | badLabelName => "invalid label name"
  | secondLabel name => "label " ++ accented name ++ " defined twice"
  | malformedRegion =>
      "expected " ++ accented ".try <start> <end> <handler> <handler_end> catch <Type>|finally"
  | unknownOpcode name => unknownOpcodeMessage name
  | danglingLabel name => "label " ++ accented name ++ " does not precede an instruction"
  | undefinedLabel name => "undefined label " ++ accented name
  | tooManyLabels => "no label number left"
  | unexpectedOperand opcode => opcode.mnemonic ++ " takes no operand"
  | missingOperand opcode => opcode.mnemonic ++ " requires an operand"
  | badInteger text => "invalid integer " ++ accented text
  | badString => "invalid string literal"
  | badArgument text => "invalid argument index " ++ accented text
  | badLocal text => "invalid local index " ++ accented text
  | unknownField path => "unknown field " ++ accented path
  | unknownMethod identity => "unknown method " ++ accented identity

/-- A fault with the line it was found in; an image without lines has its fault in line 0. -/
structure ParseError where
  line : Nat
  fault : Fault
  raw : String
  deriving DecidableEq

/-- The wording of a parse error. -/
def ParseError.message (e : ParseError) : String :=
  "assembly parse error at line " ++ toString e.line ++ ": " ++ e.fault.message ++ " ⇒ " ++
    accented e.raw

end HookSplice.Image
