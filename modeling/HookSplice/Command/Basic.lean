import HookSplice.EventGate
import HookSplice.Image.Fault

/-!
# Commands

What can be asked for on the command line, and why a command fails.
-/

namespace HookSplice

/-- A command with the paths of the files that it works on. -/
inductive Command where
  /-- Prints an image in its canonical form, or one method of it. -/
  | print (input : String) (method : Option String)
  /-- Verifies every body of an image. -/
  | check (input : String) (limit : UInt32)
  /-- Prints the fingerprint of every body. -/
  | fingerprint (input : String) (asJson : Bool)
  /-- Resolves the anchors of a manifest against an image. -/
  | locate (input manifest : String)
  /-- Installs a manifest into an image. -/
  | patch (input manifest : String) (output report : Option String)
  deriving DecidableEq

/-- Why a command fails. -/
inductive CommandError where
  | file (path reason : String)
  | image (e : Image.ParseError)
  /-- A text that is no manifest. -/
  | malformedManifest
  | patch (e : PatchError)
  | unknownMethod (identity : String)
  | verification (failed : Nat)
  | unresolved (anchors : Nat)
  | install (errors : List InstallError)

/-- The wording of a command error. -/
def CommandError.message : CommandError → String
  | file path reason => "file error on " ++ path ++ ": " ++ reason
  | image e => e.message
  | malformedManifest => "malformed manifest"
  | patch e => e.message
  | unknownMethod identity => "unknown method \x60" ++ identity ++ "\x60"
  | verification failed => toString failed ++ " method body(ies) failed verification"
  | unresolved anchors => toString anchors ++ " anchor(s) failed to resolve"
  | install errors => installMessage errors

/-- The tag by which reports tell command errors apart. -/
def CommandError.tag : CommandError → String
  | file .. => "File"
  | image .. => "ParseError"
  | malformedManifest => "Json"
  | patch e => e.tag
  | unknownMethod .. => "UnknownMethod"
  | verification .. => "Verification"
  | unresolved .. => "Unresolved"
  | install .. => "Install"

/-- What a command prints, and the error that it ends with, if it ends with one. -/
structure CommandOutput where
  text : String
  failure : Option CommandError

end HookSplice
