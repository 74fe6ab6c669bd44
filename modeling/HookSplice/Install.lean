import HookSplice.Fingerprint
import HookSplice.Splice

/-!
# Installation

Descriptors are applied in the order of their registration to a staged copy of the bodies they
target, so that a later one finds the body that an earlier one has patched.  Every descriptor is
tried even after a failure, and the staged bodies replace those of the host only if none failed.
-/

namespace HookSplice

/-- One hook: where to splice and what, and the fingerprint of the body it was written for. -/
structure Descriptor where
  hook : String
  target : MethodId
  anchor : Anchor
  template : Template
  fingerprint : Option Fingerprint

/-- How descriptors are installed. -/
structure InstallConfig where
  /-- Verify every new body as a whole. -/
  verifyBodies : Bool
  /-- Refuse descriptors that pin no fingerprint. -/
  requireFingerprints : Bool
  maxStack : UInt32
  deriving DecidableEq

namespace InstallConfig

/-- Bodies are verified under the default limit, and fingerprints are not required. -/
def default : InstallConfig := ⟨true, false, UInt32.ofNat StackMap.defaultLimit⟩

/-- The options of each splice.  Installations are those of a checked build. -/
def spliceOptions (c : InstallConfig) : SpliceOptions :=
  ⟨c.verifyBodies, c.maxStack.toNat, .stops⟩

end InstallConfig

/-- Why a descriptor cannot be installed. -/
inductive InstallFault where
  | noBody
  | alreadyApplied
  | hostChanged (expected found : Fingerprint)
  | missingFingerprint
  | anchor (e : AnchorError)
  | splice (e : SpliceError)
  /-- The host refuses the new body. -/
  | host (e : SymbolError)
  deriving DecidableEq

/-- The wording of an install fault. -/
def InstallFault.message : InstallFault → String
  | noBody => "target method has no body in the host"
  | alreadyApplied => "hook is already installed"
  | hostChanged expected found =>
      "host changed: expected body fingerprint " ++ expected.display ++ ", found " ++ found.display
  | missingFingerprint => "descriptor pins no body fingerprint"
  | anchor e => e.message
  | splice e => e.message
  | host e => "host rejected the body: " ++ e.message

/-- The tag by which reports tell install faults apart; that of a cause follows a point. -/
def InstallFault.tag : InstallFault → String
  | noBody => "NoBody"
  | alreadyApplied => "AlreadyApplied"
  | hostChanged .. => "HostChanged"
  | missingFingerprint => "MissingFingerprint"
  | anchor e => "Anchor." ++ e.tag
  | splice e => "Splice." ++ e.tag
  | host .. => "Host"

/-- A descriptor that failed. -/
structure InstallError where
  hook : String
  method : String
  fault : InstallFault
  deriving DecidableEq

/-- The wording of a failed descriptor. -/
def InstallError.message (e : InstallError) : String :=
  "hook \x60" ++ e.hook ++ "\x60 on " ++ e.method ++ ": " ++ e.fault.message

/-- The wording of all failures of one installation. -/
def installMessage (errors : List InstallError) : String :=
  toString errors.length ++ " hook(s) failed to install" ++
    String.join (errors.map fun e => "\n  - " ++ e.message)

/-- One hook as it was applied.  `point` is the splice point in the body before, `found` are the
    positions that the anchor matched. -/
structure AppliedPatch where
  hook : String
  method : String
  point : Nat
  found : List Nat
  inserted : Nat
  rehomedLabels : Nat
  denyPosition : Nat
  fingerprintBefore : Fingerprint
  fingerprintAfter : Fingerprint
  deriving DecidableEq

/-- Every hook that an installation applied, in order. -/
structure InstallReport where
  applied : List AppliedPatch
  deriving DecidableEq

namespace Install

/-- How far an installation has come: the patched bodies, what was applied, and what failed. -/
structure Staging where
  staged : Bodies
  applied : List AppliedPatch
  errors : List InstallError

/-- Checks the fingerprint that a descriptor pins, against the body in the host. -/
def checkFingerprint (symbols : SymbolTable) (config : InstallConfig) (hostBody : Body)
    (expected : Option Fingerprint) : Except InstallFault Unit :=
  match expected with
  | some expected =>
      let found := Fingerprint.ofBody symbols hostBody
      if found = expected then .ok () else .error (.hostChanged expected found)
  | none => if config.requireFingerprints then .error .missingFingerprint else .ok ()

/-- The record of a splice. -/
def recordOf (host : Host) (d : Descriptor) (current : Body) (anchor : AnchorMatch)
    (s : Spliced) : AppliedPatch :=
  { hook := d.hook
    method := host.methodName d.target
    point := anchor.point
    found := anchor.found
    inserted := s.body.size - current.size
    rehomedLabels := s.rehomed.length
    denyPosition := s.denyPosition
    fingerprintBefore := Fingerprint.ofBody host.symbols current
    fingerprintAfter := Fingerprint.ofBody host.symbols s.body }

/-- Applies a descriptor to the staged body of its target, or to the host's if none is staged. -/
def applyOne (host : Host) (config : InstallConfig) (staged : Bodies) (d : Descriptor) :
    Except InstallFault (Body × AppliedPatch) := do
  if host.isApplied d.hook then throw .alreadyApplied
  else
    match host.body? d.target with
    | none => throw .noBody
    | some hostBody =>
        checkFingerprint host.symbols config hostBody d.fingerprint
        let current := (staged.find? d.target).getD hostBody
        let anchor ← (d.anchor.resolve current.code).mapError .anchor
        let options := config.spliceOptions
        let s ← (splice host.symbols options current anchor.point d.template).mapError .splice
        return (s.body, recordOf host d current anchor s)

/-- Whether a hook was met before in this installation. -/
def Staging.hasHook (p : Staging) (hook : String) : Bool :=
  (p.applied.any fun a => a.hook == hook) || p.errors.any fun e => e.hook == hook

/-- Tries one descriptor and notes the outcome. -/
def stage (host : Host) (config : InstallConfig) (p : Staging) (d : Descriptor) : Staging :=
  let outcome :=
    if p.hasHook d.hook then .error .alreadyApplied else applyOne host config p.staged d
  match outcome with
  | .ok (body, applied) =>
      { p with staged := p.staged.insert body, applied := p.applied ++ [applied] }
  | .error fault => { p with errors := p.errors ++ [⟨d.hook, host.methodName d.target, fault⟩] }

/-- Replaces bodies of the host one after the other, up to the first that it refuses. -/
def commit : Host → List Body → Host × Option InstallError
  | host, [] => (host, none)
  | host, body :: rest =>
      match host.replaceBody body with
      | .ok (_, host) => commit host rest
      | .error e => (host, some ⟨"<commit>", host.methodName body.method, .host e⟩)

end Install

/-- Applies every descriptor to a host, all of them or none.  Gives the host afterwards. -/
def Host.install (host : Host) (descriptors : List Descriptor) (config : InstallConfig) :
    Except (List InstallError) InstallReport × Host :=
  let p := descriptors.foldl (Install.stage host config) ⟨∅, [], []⟩
  if p.errors.isEmpty then
    match Install.commit host p.staged.toList with
    | (host, some e) => (.error [e], host)
    | (host, none) =>
        (.ok ⟨p.applied⟩, p.applied.foldl (fun h a => h.recordApplied a.hook) host)
  else (.error p.errors, host)

end HookSplice
