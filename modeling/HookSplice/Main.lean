import HookSplice.Command.Arguments
import HookSplice.Command.Directory

/-!
# The command line

Runs a command on the files of the system.  Ends with 0 if the command succeeds, with 1 if it
fails, and with 2 if the arguments are refused.
-/

namespace HookSplice

/-- The number that the system gives a failed access to a file. -/
def systemCode? : IO.Error → Option UInt32
  | .noFileOrDirectory _ code _ => some code
  | .permissionDenied _ code _ => some code
  | .inappropriateType _ code _ => some code
  | .invalidArgument _ code _ => some code
  | _ => none

/-- The reason that a failed access to a file is reported with. -/
def reasonOf (e : IO.Error) : String :=
  match systemCode? e with
  | some 2 => PathFault.missing.message
  | some 13 => "Permission denied (os error 13)"
  | some 20 => PathFault.notADirectory.message
  | some 21 => PathFault.isDirectory.message
  | some 36 => PathFault.nameTooLong.message
  | _ => toString e

/-- An action on a file with the reason of its failure. -/
def guarded {α : Type} (action : IO α) : IO (Except String α) := do
  try return .ok (← action)
  catch e => return .error (reasonOf e)

/-- The files of the system. -/
def systemFiles : FileAccess IO where
  read path := guarded (IO.FS.readFile path)
  write path text := guarded (IO.FS.writeFile path text)

/-- Prints what a command has to say and gives the exit code. -/
def report (output : CommandOutput) : IO UInt32 := do
  IO.print output.text
  match output.failure with
  | none => return 0
  | some e => IO.eprintln e.message; return 1

end HookSplice

open HookSplice in
/-- Runs the command that the arguments ask for. -/
def main (args : List String) : IO UInt32 := do
  match Command.ofArguments? args with
  | some command => report (← command.run systemFiles)
  | none => IO.eprint Command.usage; return 2
