import HookSplice.Command.Run

/-!
# Directories in memory

A flat directory of text files that commands can work on, below directories of which only the way
up is known.  A path is followed name by name; where it leads nowhere, or to something that cannot
be read or written as a file, the reason is the one that a system gives.
-/

namespace HookSplice

/-- Why a path cannot be used as a file. -/
inductive PathFault where
  | missing
  | notADirectory
  | isDirectory
  | nameTooLong
  /-- A path with a null character in it. -/
  | nullCharacter
  deriving DecidableEq

/-- The wording of a path fault. -/
def PathFault.message : PathFault → String
  | missing => "No such file or directory (os error 2)"
  | notADirectory => "Not a directory (os error 20)"
  | isDirectory => "Is a directory (os error 21)"
  | nameTooLong => "File name too long (os error 36)"
  | nullCharacter => "file name contained an unexpected NUL byte"

/-- Files by name, in the order of their creation. -/
abbrev Directory := List (String × String)

namespace Directory

/-- Where a path leads.  Whether a file stands there is not looked at yet. -/
inductive Place where
  /-- To this directory or one above it. -/
  | directory
  /-- To a name in this directory. -/
  | within (name : String)
  /-- To a name in a directory above. -/
  | above (name : String)
  deriving DecidableEq

/-- How many bytes a name can have. -/
def nameLimit : Nat := 255

/-- How many bytes a path can have. -/
def pathLimit : Nat := 4095

/-- Whether a name is too long for any file. -/
def isTooLong (name : String) : Bool :=
  nameLimit < name.utf8ByteSize

/-- Follows the parts of a path from this directory, or from one above it. -/
def walk (d : Directory) : (isAbove : Bool) → List String → Except PathFault Place
  | _, [] => .ok .directory
  | isAbove, part :: rest =>
      if part == "." then walk d isAbove rest
      else if part == ".." then walk d true rest
      else if rest.isEmpty then .ok (if isAbove then .above part else .within part)
      else if isTooLong part then .error .nameTooLong
      else if !isAbove && (d.lookup part).isSome then .error .notADirectory
      else .error .missing

/-- Follows a path. -/
def place (d : Directory) (path : String) : Except PathFault Place :=
  if path.toList.contains '\x00' then .error .nullCharacter
  else if path.isEmpty then .error .missing
  else if pathLimit < path.utf8ByteSize then .error .nameTooLong
  else d.walk (path.startsWith "/") ((path.splitOn "/").filter fun part => part != "")

/-- The text of the file at a path.  Above this directory no file is known. -/
def read (d : Directory) (path : String) : Except PathFault String := do
  match ← d.place path with
  | .directory => throw .isDirectory
  | .above name => throw (if isTooLong name then .nameTooLong else .missing)
  | .within name =>
      if isTooLong name then throw .nameTooLong
      else
        match d.lookup name with
        | none => throw .missing
        | some text => if path.endsWith "/" then throw .notADirectory else return text

/-- Puts a text into the file with a name. -/
def store (name text : String) : Directory → Directory
  | [] => [(name, text)]
  | (other, old) :: rest =>
      if other = name then (name, text) :: rest else (other, old) :: store name text rest

/-- Writes the file at a path.  A path with a slash at its end asks for a directory, whether there
    is one or not.  What is written above this directory leaves no trace in it. -/
def write (d : Directory) (path text : String) : Except PathFault Directory := do
  match ← d.place path with
  | .directory => throw .isDirectory
  | .above name =>
      if path.endsWith "/" then throw .isDirectory
      else if isTooLong name then throw .nameTooLong
      else return d
  | .within name =>
      if path.endsWith "/" then throw .isDirectory
      else if isTooLong name then throw .nameTooLong
      else return store name text d

/-- Access to the files of the current directory. -/
def access : FileAccess (StateM Directory) where
  read path := do return ((← get).read path).mapError PathFault.message
  write path text := do
    match (← get).write path text with
    | .ok d => set d; return .ok ()
    | .error fault => return .error fault.message

end Directory

end HookSplice
