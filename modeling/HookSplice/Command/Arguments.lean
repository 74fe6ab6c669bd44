import HookSplice.Command.Basic
import HookSplice.StackMap
import HookSplice.Text.Numeral

/-!
# Arguments

Reads a command from the arguments of the command line.  An option is given by its name behind two
hyphens or by its letter behind one; letters may be run together.  The value of an option is the
rest of its argument, behind an equals sign or, for a letter, at once, or else the next argument,
which may then not look like an option.  No option is given twice.  Behind two hyphens alone,
everything is positional.
-/

namespace HookSplice.Command

/-- An option: its name, its letter if it has one, and whether it takes a value. -/
structure OptionSpec where
  name : String
  letter : Option Char
  takesValue : Bool
  deriving DecidableEq

/-- The option that every command knows. -/
def verbose : OptionSpec := ⟨"verbose", some 'v', false⟩

/-- Options by name with their values, a flag having the empty one, and positional arguments. -/
structure Given where
  options : List (String × String)
  positional : List String
  deriving DecidableEq

/-- The options that one argument gives, and the name of the one that still needs its value. -/
structure Reading where
  options : List (String × String)
  awaiting : Option String
  deriving DecidableEq

/-- Reads what stands behind two hyphens. -/
def readName (specs : List OptionSpec) (text : List Char) : Option Reading :=
  let name := String.ofList (text.takeWhile (· != '='))
  match specs.find? fun o => o.name == name, text.dropWhile (· != '=') with
  | some o, [] => some (if o.takesValue then ⟨[], some name⟩ else ⟨[(name, "")], none⟩)
  | some o, _ :: value =>
      if o.takesValue then some ⟨[(name, String.ofList value)], none⟩ else none
  | none, _ => none

/-- The value of a letter that stands right behind it, with or without an equals sign. -/
def attachedValue : List Char → Option String
  | [] => none
  | '=' :: value => some (String.ofList value)
  | value => some (String.ofList value)

/-- Reads what stands behind one hyphen. -/
def readLetters (specs : List OptionSpec) : List Char → Option Reading
  | [] => some ⟨[], none⟩
  | letter :: rest =>
      match specs.find? fun o => o.letter == some letter with
      | none => none
      | some o =>
          if o.takesValue then
            match attachedValue rest with
            | some value => some ⟨[(o.name, value)], none⟩
            | none => some ⟨[], some o.name⟩
          else
            (readLetters specs rest).map fun r => { r with options := (o.name, "") :: r.options }

/-- Reads an argument as options; gives nothing if it is none. -/
def readOptions (specs : List OptionSpec) (arg : String) : Option (Option Reading) :=
  match arg.toList with
  | '-' :: '-' :: text => some (readName specs text)
  | '-' :: letter :: rest => some (readLetters specs (letter :: rest))
  | _ => none

/-- Whether an argument can be the value of the option before it. -/
def isValue (arg : String) : Bool :=
  arg == "-" || arg.toList.head? != some '-'

/-- Reads arguments; refuses unknown options and options without their value. -/
def scan (specs : List OptionSpec) : List String → Option Given
  | [] => some ⟨[], []⟩
  | arg :: rest =>
      if arg = "--" then some ⟨[], rest⟩
      else
        match readOptions specs arg with
        | none => (scan specs rest).map fun g => { g with positional := arg :: g.positional }
        | some none => none
        | some (some ⟨options, none⟩) =>
            (scan specs rest).map fun g => { g with options := options ++ g.options }
        | some (some ⟨options, some name⟩) =>
            match rest with
            | [] => none
            | value :: rest =>
                if isValue value then
                  (scan specs rest).map fun g =>
                    { g with options := options ++ (name, value) :: g.options }
                else none

/-- Reads arguments, no option of which may be given twice. -/
def scanOnce (specs : List OptionSpec) (args : List String) : Option Given :=
  (scan specs args).filter fun g => decide (g.options.map Prod.fst).Nodup

/-- A path; the empty text is none. -/
def path? (text : String) : Option String :=
  if text.isEmpty then none else some text

/-- The path that an option has to give. -/
def Given.path? (g : Given) (name : String) : Option String :=
  (g.options.lookup name).bind Command.path?

/-- The path that an option may give. -/
def Given.optionalPath? (g : Given) (name : String) : Option (Option String) :=
  match g.options.lookup name with
  | none => some none
  | some text => (Command.path? text).map some

/-- The path that is the only positional argument. -/
def Given.input? (g : Given) : Option String :=
  match g.positional with
  | [text] => Command.path? text
  | _ => none

/-- Whether a flag is given. -/
def Given.hasFlag (g : Given) (name : String) : Bool :=
  (g.options.lookup name).isSome

/-- The number of 32 bits that a text denotes. -/
def uint32? (text : String) : Option UInt32 :=
  match Text.int64? 10 text.toList with
  | some n =>
      if 0 ≤ n.toInt ∧ n.toInt < UInt32.size then some (UInt32.ofNat n.toInt.toNat) else none
  | none => none

/-- The depth limit that an option gives, or the default one. -/
def Given.limit? (g : Given) : Option UInt32 :=
  match g.options.lookup "max-stack" with
  | none => some (UInt32.ofNat StackMap.defaultLimit)
  | some text => uint32? text

/-- The option that names a manifest. -/
def manifestOption : OptionSpec := ⟨"manifest", some 'm', true⟩

/-- Reads a command from its name and the arguments behind it. -/
def ofName? (name : String) (args : List String) : Option Command :=
  match name with
  | "show" => do
      let g ← scanOnce [verbose, ⟨"method", some 'm', true⟩] args
      return .print (← g.input?) (g.options.lookup "method")
  | "check" => do
      let g ← scanOnce [verbose, ⟨"max-stack", none, true⟩] args
      return .check (← g.input?) (← g.limit?)
  | "fingerprint" => do
      let g ← scanOnce [verbose, ⟨"json", none, false⟩] args
      return .fingerprint (← g.input?) (g.hasFlag "json")
  | "locate" => do
      let g ← scanOnce [verbose, manifestOption] args
      return .locate (← g.input?) (← g.path? "manifest")
  | "patch" => do
      let g ← scanOnce
        [verbose, manifestOption, ⟨"output", some 'o', true⟩, ⟨"emit", none, true⟩] args
      return .patch (← g.input?) (← g.path? "manifest") (← g.optionalPath? "output")
        (← g.optionalPath? "emit")
  | _ => none

/-- Reads a command.  Only options that every command knows may stand before its name. -/
def ofArguments? (args : List String) : Option Command :=
  let before := args.takeWhile fun arg => !isValue arg
  match args.dropWhile fun arg => !isValue arg with
  | [] => none
  | name :: rest =>
      if before.contains "--" || (scanOnce [verbose] before).isNone then none
      else ofName? name rest

/-- How the program is to be called. -/
def usage : String :=
  "usage: hooksplice [-v] show INPUT [--method IDENTITY]\n" ++
  "       hooksplice [-v] check INPUT [--max-stack DEPTH]\n" ++
  "       hooksplice [-v] fingerprint INPUT [--json]\n" ++
  "       hooksplice [-v] locate INPUT --manifest PATH\n" ++
  "       hooksplice [-v] patch INPUT --manifest PATH [--output PATH] [--emit PATH]\n"

end HookSplice.Command
