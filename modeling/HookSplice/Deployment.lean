import HookSplice.Manifest.Basic
import HookSplice.Registry

/-!
# Deployments

A deployment collects hooks and installs them into a host once.  While it is registering it takes
descriptors; activation freezes the registry and leads to serving, or to failure with an unpatched
host.  What an operation has declared in the host before it failed stays declared.
-/

namespace HookSplice

/-- How far a deployment has come. -/
inductive Stage where
  | registering
  | serving
  | failed
  deriving DecidableEq

/-- How messages show a stage. -/
def Stage.display : Stage → String
  | registering => "registering"
  | serving => "serving"
  | failed => "failed"

/-- Why an operation of a deployment fails. -/
inductive DeploymentError where
  /-- The operation belongs to another stage. -/
  | stage (found expected : Stage)
  | activation (errors : List InstallError)
  | patch (e : PatchError)

/-- The wording of a deployment error. -/
def DeploymentError.message : DeploymentError → String
  | stage found expected => "framework is " ++ found.display ++ ", expected " ++ expected.display
  | activation errors => "activation failed: " ++ installMessage errors
  | patch e => e.message

/-- The hooks, the settings and the stage of a deployment; the report says what was installed, once
    it serves. -/
structure Deployment where
  registry : Registry
  config : InstallConfig
  stage : Stage
  report : Option InstallReport

namespace Deployment

/-- A deployment without hooks. -/
def ofConfig (config : InstallConfig) : Deployment :=
  ⟨.empty, config, .registering, none⟩

/-- Whether a deployment is at a stage. -/
def checkStage (d : Deployment) (expected : Stage) : Except DeploymentError Unit :=
  if d.stage = expected then .ok () else .error (.stage d.stage expected)

/-- Registers a descriptor. -/
def register (d : Deployment) (descriptor : Descriptor) : Except DeploymentError Deployment := do
  d.checkStage .registering
  let registry ← (d.registry.register descriptor).mapError .patch
  return { d with registry := registry }

/-- Registers descriptors up to the first that is refused. -/
def registerAll (d : Deployment) : List Descriptor → Except DeploymentError Unit × Deployment
  | [] => (.ok (), d)
  | descriptor :: rest =>
      match d.register descriptor with
      | .ok d => d.registerAll rest
      | .error e => (.error e, d)

/-- Finds the target and builds the template of an event hook; declares the event contract. -/
def describe (target : String) (anchor : Anchor) (gate : EventGate) :
    Declaring PatchError Descriptor := do
  match (← get).methodId? target with
  | none => throw (.symbol (.unknownName target))
  | some method => return ⟨gate.hook, method, anchor, ← gate.build, none⟩

/-- Registers an event hook on the method with an identity. -/
def registerEvent (d : Deployment) (host : Host) (target : String) (anchor : Anchor)
    (gate : EventGate) : Except DeploymentError Deployment × Host :=
  match d.checkStage .registering with
  | .error e => (.error e, host)
  | .ok () =>
      let (descriptor, symbols) := (describe target anchor gate).runOn host.symbols
      let host := { host with symbols := symbols }
      match descriptor with
      | .error e => (.error (.patch e), host)
      | .ok descriptor => (d.register descriptor, host)

/-- Registers the hooks of a manifest one after the other, and takes over its settings if all of
    them are accepted.  Gives their number. -/
def loadManifest (d : Deployment) (host : Host) (m : Manifest) :
    Except DeploymentError Nat × Deployment × Host :=
  match d.checkStage .registering with
  | .error e => (.error e, d, host)
  | .ok () =>
      let (descriptors, symbols) := m.resolve.runOn host.symbols
      let host := { host with symbols := symbols }
      match descriptors with
      | .error e => (.error (.patch e), d, host)
      | .ok descriptors =>
          match d.registerAll descriptors with
          | (.error e, d) => (.error e, d, host)
          | (.ok (), d) => (.ok descriptors.length, { d with config := m.config }, host)

/-- Installs every registered hook, all of them or none. -/
def activate (d : Deployment) (host : Host) :
    Except DeploymentError InstallReport × Deployment × Host :=
  match d.checkStage .registering with
  | .error e => (.error e, d, host)
  | .ok () =>
      let registry := d.registry.freeze
      match host.install registry.descriptors d.config with
      | (.ok report, host) =>
          (.ok report, { d with registry := registry, stage := .serving, report := some report },
            host)
      | (.error errors, host) =>
          (.error (.activation errors), { d with registry := registry, stage := .failed }, host)

end Deployment

end HookSplice
