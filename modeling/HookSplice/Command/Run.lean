import HookSplice.Command.Basic
import HookSplice.Image.Reader
import HookSplice.Manifest.Format

/-!
# Running commands

What each command prints for the host it has read.  Files are reached through two operations that
the caller provides, so that a command can be run on any store of files.
-/

namespace HookSplice

/-- Access to files by path; a failure gives its reason. -/
structure FileAccess (m : Type → Type) where
  read : String → m (Except String String)
  write : String → String → m (Except String Unit)

/-- Steps of a command that may fail. -/
abbrev CommandM (m : Type → Type) := ExceptT CommandError m

namespace Command

/-- The output of a command that fails before it prints. -/
def failed (e : CommandError) : CommandOutput :=
  ⟨"", some e⟩

/-- Lines with an error behind them if a count is not zero. -/
def counted (lines : List String) (count : Nat) (error : Nat → CommandError) : CommandOutput :=
  ⟨String.join (lines.map (· ++ "\n")), if count = 0 then none else some (error count)⟩

/-- Prints an image, or one method of it. -/
def printImage (host : Host) : Option String → CommandOutput
  | none => ⟨Image.print host, none⟩
  | some identity =>
      match host.bodyNamed? identity with
      | some body => ⟨Image.printBody host.symbols body, none⟩
      | none => failed (.unknownMethod identity)

/-- The line for a verified body, and whether it verifies. -/
def checkBody (host : Host) (limit : Nat) (body : Body) : String × Bool :=
  let name := host.methodName body.method
  match StackMap.analyze host.symbols body limit with
  | .error v => ("FAIL  " ++ name ++ "  " ++ v.message, false)
  | .ok map =>
      let line := "ok    " ++ name ++ "  max depth " ++ toString map.maxDepth
      (if map.unreachable = 0 then line
        else line ++ ", " ++ toString map.unreachable ++ " unreachable", true)

/-- Verifies every body of a host. -/
def checkImage (host : Host) (limit : Nat) : CommandOutput :=
  let results := host.bodies.toList.map (checkBody host limit)
  counted (results.map Prod.fst) (results.countP fun r => !r.2) .verification

/-- The fingerprint of every body, in the order of the methods' identities. -/
def fingerprints (host : Host) : List (String × Fingerprint) :=
  Order.sortByText Prod.fst
    (host.bodies.toList.map fun b => (host.methodName b.method, Fingerprint.ofBody host.symbols b))

/-- Prints the fingerprint of every body. -/
def printFingerprints (host : Host) (asJson : Bool) : CommandOutput :=
  let entries := fingerprints host
  if asJson then
    ⟨(Json.obj (entries.map fun (name, f) => (name, Json.str f.display))).pretty ++ "\n", none⟩
  else counted (entries.map fun (name, f) => f.display ++ "  " ++ name) 0 .verification

/-- The line for the anchor of a descriptor, if there is a body to look at, and whether the anchor
    resolves. -/
def locateOne (host : Host) (d : Descriptor) : Option String × Bool :=
  let start := d.hook ++ "  " ++ host.methodName d.target ++ "  "
  match host.body? d.target with
  | none => (none, false)
  | some body =>
      match d.anchor.resolve body.code with
      | .error e => (some (start ++ e.message), false)
      | .ok found =>
          let ins := (body.code[found.point]?.map (Image.renderInstruction host.symbols)).getD ""
          (some (start ++ "matches [" ++ String.intercalate ", " (found.found.map toString) ++
            "] -> insert at " ++ toString found.point ++ " before \x60" ++ ins ++ "\x60"), true)

/-- Resolves the anchors of descriptors. -/
def locateAll (host : Host) (descriptors : List Descriptor) : CommandOutput :=
  let results := descriptors.map (locateOne host)
  counted (results.filterMap Prod.fst) (results.countP fun r => !r.2) .unresolved

variable {m : Type → Type} [Monad m]

/-- Reads a file. -/
def readFile (files : FileAccess m) (path : String) : CommandM m String := do
  match ← ExceptT.lift (files.read path) with
  | .ok text => return text
  | .error reason => throw (.file path reason)

/-- Writes a file. -/
def writeFile (files : FileAccess m) (path text : String) : CommandM m Unit := do
  match ← ExceptT.lift (files.write path text) with
  | .ok () => return ()
  | .error reason => throw (.file path reason)

/-- Reads a host image. -/
def readHost (files : FileAccess m) (path : String) : CommandM m Host := do
  match Image.read (← readFile files path) with
  | .ok host => return host
  | .error e => throw (.image e)

/-- Reads a manifest. -/
def readManifest (files : FileAccess m) (path : String) : CommandM m Manifest := do
  match Manifest.parse? (← readFile files path) with
  | some manifest => return manifest
  | none => throw .malformedManifest

/-- Resolves a manifest, which may add symbols to the host. -/
def resolve (host : Host) (manifest : Manifest) : CommandM m (List Descriptor × Host) :=
  match manifest.resolve.runOn host.symbols with
  | (.ok descriptors, symbols) => return (descriptors, { host with symbols := symbols })
  | (.error e, _) => throw (.patch e)

/-- Installs descriptors. -/
def install (host : Host) (descriptors : List Descriptor) (config : InstallConfig) :
    CommandM m (InstallReport × Host) :=
  match host.install descriptors config with
  | (.ok report, host) => return (report, host)
  | (.error errors, _) => throw (.install errors)

/-- Installs a manifest into an image and writes the report and the new image; an image without a
    path is printed. -/
def patchImage (files : FileAccess m) (input manifest : String) (output report : Option String) :
    CommandM m CommandOutput := do
  let host ← readHost files input
  let manifest ← readManifest files manifest
  let (descriptors, host) ← resolve host manifest
  let (installed, host) ← install host descriptors manifest.config
  match report with
  | some path => writeFile files path installed.toJson.pretty
  | none => pure ()
  match output with
  | some path => writeFile files path (Image.print host); return ⟨"", none⟩
  | none => return ⟨Image.print host, none⟩

/-- The steps of a command. -/
def steps (files : FileAccess m) : Command → CommandM m CommandOutput
  | print input method => return printImage (← readHost files input) method
  | check input limit => return checkImage (← readHost files input) limit.toNat
  | fingerprint input asJson => return printFingerprints (← readHost files input) asJson
  | locate input manifest => do
      let host ← readHost files input
      let (descriptors, host) ← resolve host (← readManifest files manifest)
      return locateAll host descriptors
  | patch input manifest output report => patchImage files input manifest output report

/-- Runs a command. -/
def run (files : FileAccess m) (c : Command) : m CommandOutput := do
  match ← (c.steps files).run with
  | .ok output => return output
  | .error e => return failed e

end Command

end HookSplice
