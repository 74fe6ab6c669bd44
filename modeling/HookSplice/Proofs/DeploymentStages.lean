import HookSplice.Deployment
import HookSplice.Proofs.Batches

/-!
# The stages of a deployment

Whatever is asked of a deployment and whatever fails on the way, its registry is closed exactly
from the first activation on, there is a report exactly while it serves, and the hooks of its
registry are those that were accepted, in the order in which they were.  After an activation every
call is refused and changes nothing.
-/

namespace HookSplice

namespace Deployment

/-- What can be asked of a deployment. -/
inductive Call where
  | register (descriptor : Descriptor)
  | registerEvent (target : String) (anchor : Anchor) (gate : EventGate)
  | loadManifest (m : Manifest)
  | activate

/-- How a call fails, if it does, and the deployment and the host behind it. -/
structure Answer where
  error : Option DeploymentError
  deployment : Deployment
  host : Host

/-- Makes a call on a host. -/
def Call.perform (d : Deployment) (host : Host) : Call → Answer
  | register descriptor =>
      match d.register descriptor with
      | .ok d' => ⟨none, d', host⟩
      | .error e => ⟨some e, d, host⟩
  | registerEvent target anchor gate =>
      match d.registerEvent host target anchor gate with
      | (.ok d', host) => ⟨none, d', host⟩
      | (.error e, host) => ⟨some e, d, host⟩
  | loadManifest m =>
      match d.loadManifest host m with
      | (.ok _, d', host) => ⟨none, d', host⟩
      | (.error e, d', host) => ⟨some e, d', host⟩
  | activate =>
      match d.activate host with
      | (.ok _, d', host) => ⟨none, d', host⟩
      | (.error e, d', host) => ⟨some e, d', host⟩

/-- The deployment after a sequence of calls.  Each call is given a host: the one that the call
    before has left, or one that was changed since. -/
def performs : Deployment → List (Call × Host) → Deployment
  | d, [] => d
  | d, (call, host) :: rest => (call.perform d host).deployment.performs rest

/-- The hooks that a call would register over the symbols of a host, missing where their targets or
    templates cannot be found. -/
def Call.offers? (symbols : SymbolTable) : Call → Option (List String)
  | register descriptor => some [descriptor.hook]
  | registerEvent target anchor gate =>
      ((describe target anchor gate).runOn symbols).1.toOption.map fun d => [d.hook]
  | loadManifest m => (m.resolve.runOn symbols).1.toOption.map fun ds => ds.map Descriptor.hook
  | activate => some []

/-- The names of a list up to the first that is known before. -/
def accepted : List String → List String → List String
  | _, [] => []
  | known, name :: rest => if name ∈ known then [] else name :: accepted (known ++ [name]) rest

/-- The hooks that a call registers. -/
def accepts (d : Deployment) (symbols : SymbolTable) (call : Call) : List String :=
  if d.stage = .registering then accepted d.registry.hooks ((call.offers? symbols).getD []) else []

/-- The hooks that a sequence of calls registers, in order. -/
def registered : Deployment → List (Call × Host) → List String
  | _, [] => []
  | d, (call, host) :: rest =>
      d.accepts host.symbols call ++ (call.perform d host).deployment.registered rest

/-- The registry is closed once the deployment has been activated, there is a report as long as it
    serves, and no hook is registered twice. -/
structure Orderly (d : Deployment) : Prop where
  frozen : d.registry.frozen ↔ d.stage ≠ .registering
  reported : d.report.isSome ↔ d.stage = .serving
  distinct : d.registry.hooks.Nodup

/-- The second deployment is the first one with more hooks registered. -/
structure Extends (d d' : Deployment) (names : List String) : Prop where
  stage : d'.stage = d.stage
  report : d'.report = d.report
  frozen : d'.registry.frozen = d.registry.frozen
  hooks : d'.registry.hooks = d.registry.hooks ++ names

variable {d d' d'' : Deployment}

theorem Extends.refl (d : Deployment) : d.Extends d [] :=
  ⟨rfl, rfl, rfl, (List.append_nil _).symm⟩

theorem Extends.trans {names names' : List String} (first : d.Extends d' names)
    (second : d'.Extends d'' names') : d.Extends d'' (names ++ names') where
  stage := second.stage.trans first.stage
  report := second.report.trans first.report
  frozen := second.frozen.trans first.frozen
  hooks := by rw [second.hooks, first.hooks, List.append_assoc]

theorem nodup_accepted {known names : List String} (distinct : known.Nodup) :
    (known ++ accepted known names).Nodup := by
  induction names generalizing known with
  | nil => simpa [accepted] using distinct
  | cons name rest ih =>
      unfold accepted
      split
      · simpa using distinct
      · next new =>
          rw [← List.singleton_append, ← List.append_assoc]
          refine ih (List.nodup_append.mpr ⟨distinct, List.nodup_singleton name, ?_⟩)
          rintro other member _ this rfl
          exact new (List.mem_singleton.mp this ▸ member)

theorem Extends.orderly {names : List String} (orderly : d.Orderly)
    (extends' : d.Extends d' (accepted d.registry.hooks names)) : d'.Orderly where
  frozen := by rw [extends'.frozen, extends'.stage, orderly.frozen]
  reported := by rw [extends'.report, extends'.stage, orderly.reported]
  distinct := extends'.hooks ▸ nodup_accepted orderly.distinct

end Deployment

theorem Registry.isSome_get?_iff {r : Registry} {hook : String} :
    (r.get? hook).isSome ↔ hook ∈ r.hooks := by
  simp [get?, hooks, List.find?_isSome]

namespace Deployment

variable {d : Deployment}

/-- The deployment with more descriptors in its registry. -/
def adding (d : Deployment) (ds : List Descriptor) : Deployment :=
  { d with registry := { d.registry with descriptors := d.registry.descriptors ++ ds } }

@[simp] theorem hooks_adding (d : Deployment) (ds : List Descriptor) :
    (d.adding ds).registry.hooks = d.registry.hooks ++ ds.map Descriptor.hook := by
  simp [adding, Registry.hooks]

/-- The deployment takes descriptors. -/
structure Open (d : Deployment) : Prop where
  registering : d.stage = .registering
  thawed : d.registry.frozen = false

theorem register_fresh (ready : d.Open) {descriptor : Descriptor}
    (fresh : descriptor.hook ∉ d.registry.hooks) :
    d.register descriptor = .ok (d.adding [descriptor]) := by
  have unknown : ¬ (d.registry.get? descriptor.hook).isSome := by
    rwa [Registry.isSome_get?_iff]
  unfold register checkStage Registry.register
  rw [if_pos ready.registering, if_neg (by simp [ready.thawed]), if_neg unknown]
  rfl

theorem register_known (ready : d.Open) {descriptor : Descriptor}
    (known : descriptor.hook ∈ d.registry.hooks) :
    d.register descriptor = .error (.patch (.duplicateHook descriptor.hook)) := by
  unfold register checkStage Registry.register
  rw [if_pos ready.registering, if_neg (by simp [ready.thawed]),
    if_pos (Registry.isSome_get?_iff.mpr known)]
  rfl

/-- A descriptor is accepted as long as its hook is not registered yet. -/
theorem register_eq (orderly : d.Orderly) (registering : d.stage = .registering)
    (descriptor : Descriptor) :
    if descriptor.hook ∈ d.registry.hooks then
      d.register descriptor = .error (.patch (.duplicateHook descriptor.hook))
    else ∃ d', d.register descriptor = .ok d' ∧ d'.config = d.config ∧
      d.Extends d' [descriptor.hook] := by
  have ready : d.Open := ⟨registering, by simpa [registering] using orderly.frozen⟩
  split
  · next known => exact register_known ready known
  · next new => exact ⟨_, register_fresh ready new, rfl, rfl, rfl, rfl, by simp⟩

/-- Of a list of descriptors those are registered whose hooks are accepted, and the list as a whole
    succeeds if all are. -/
theorem registerAll_eq (orderly : d.Orderly) (registering : d.stage = .registering)
    (ds : List Descriptor) :
    d.Extends (d.registerAll ds).2 (accepted d.registry.hooks (ds.map Descriptor.hook)) ∧
      ((d.registerAll ds).1 = .ok () ↔
        accepted d.registry.hooks (ds.map Descriptor.hook) = ds.map Descriptor.hook) := by
  induction ds generalizing d with
  | nil => exact ⟨.refl d, by simp [registerAll, accepted]⟩
  | cons descriptor rest ih =>
      have outcome := register_eq orderly registering descriptor
      simp only [List.map_cons, accepted]
      unfold registerAll
      split at outcome
      · next known => simp [outcome, known, Extends.refl]
      · next new =>
          obtain ⟨d', registered, -, first⟩ := outcome
          have fresh : accepted d.registry.hooks [descriptor.hook] = [descriptor.hook] := by
            simp [accepted, new]
          have orderly' : d'.Orderly := Extends.orderly orderly (fresh.symm ▸ first)
          obtain ⟨others, all⟩ := ih orderly' (first.stage.trans registering)
          rw [first.hooks] at others all
          rw [if_neg new, registered]
          exact ⟨first.trans others, by simpa using all⟩

/-! ### Calls -/

/-- A deployment that has been activated refuses every call. -/
theorem perform_refused (passed : d.stage ≠ .registering) (call : Call) (host : Host) :
    call.perform d host = ⟨some (.stage d.stage .registering), d, host⟩ := by
  have refused : d.checkStage .registering = .error (.stage d.stage .registering) := if_neg passed
  cases call with
  | register descriptor => simp [Call.perform, register, refused, bind, Except.bind]
  | registerEvent target anchor gate => simp [Call.perform, registerEvent, refused]
  | loadManifest m => simp [Call.perform, loadManifest, refused]
  | activate => simp [Call.perform, activate, refused]

/-- What a call does that registers hooks: those are registered that are accepted, and the call
    succeeds if all of them can be found and are accepted. -/
structure Registers (d : Deployment) (symbols : SymbolTable) (call : Call) (answer : Answer) :
    Prop where
  grows : d.Extends answer.deployment (d.accepts symbols call)
  succeeds : answer.error = none ↔ call.offers? symbols = some (d.accepts symbols call)

theorem Registers.of_found {symbols : SymbolTable} {call : Call} {answer : Answer}
    (ds : List Descriptor) (orderly : d.Orderly) (registering : d.stage = .registering)
    (found : call.offers? symbols = some (ds.map Descriptor.hook))
    (behind : (d.registerAll ds).2.Extends answer.deployment [])
    (succeeds : answer.error = none ↔ (d.registerAll ds).1 = .ok ()) :
    d.Registers symbols call answer := by
  obtain ⟨grows, all⟩ := registerAll_eq orderly registering ds
  have accepts : d.accepts symbols call =
      accepted d.registry.hooks (ds.map Descriptor.hook) := by
    rw [Deployment.accepts, if_pos registering, found]
    rfl
  constructor
  · rw [accepts, ← List.append_nil (accepted _ _)]
    exact grows.trans behind
  · rw [succeeds, all, found, accepts, Option.some.injEq, eq_comm]

theorem Registers.of_missing {symbols : SymbolTable} {call : Call} {answer : Answer}
    (missing : call.offers? symbols = none) (unchanged : answer.deployment = d)
    (failed : answer.error ≠ none) : d.Registers symbols call answer := by
  have accepts : d.accepts symbols call = [] := by
    simp [Deployment.accepts, missing, accepted]
  constructor
  · rw [accepts, unchanged]
    exact .refl d
  · simp [missing, failed]

/-- Registering one descriptor, whatever the call has found it by. -/
theorem Registers.of_one {symbols : SymbolTable} {call : Call} {answer : Answer}
    (descriptor : Descriptor) (orderly : d.Orderly) (registering : d.stage = .registering)
    (found : call.offers? symbols = some [descriptor.hook])
    (made : match d.register descriptor with
      | .ok d' => answer.error = none ∧ answer.deployment = d'
      | .error _ => answer.error ≠ none ∧ answer.deployment = d) :
    d.Registers symbols call answer := by
  cases registered : d.register descriptor with
  | ok d' =>
      rw [registered] at made
      have all : d.registerAll [descriptor] = (.ok (), d') := by simp [registerAll, registered]
      refine .of_found [descriptor] orderly registering found ?_ ?_
      · rw [all, made.2]
        exact .refl d'
      · simp [all, made.1]
  | error e =>
      rw [registered] at made
      have all : d.registerAll [descriptor] = (.error e, d) := by simp [registerAll, registered]
      refine .of_found [descriptor] orderly registering found ?_ ?_
      · rw [all, made.2]
        exact .refl d
      · simp [all, made.1]

/-- A call to a deployment that is registering, other than the activation. -/
theorem perform_registers (orderly : d.Orderly) (registering : d.stage = .registering)
    {call : Call} (other : call ≠ .activate) (host : Host) :
    d.Registers host.symbols call (call.perform d host) := by
  have here : d.checkStage .registering = .ok () := if_pos registering
  cases call with
  | register descriptor =>
      refine .of_one descriptor orderly registering rfl ?_
      unfold Call.perform
      cases registered : d.register descriptor <;> simp [registered]
  | registerEvent target anchor gate =>
      unfold Call.perform registerEvent
      rw [here]
      cases described : ((describe target anchor gate).runOn host.symbols).1 with
      | error e =>
          refine .of_missing ?_ ?_ ?_ <;> simp [Call.offers?, described, Except.toOption]
      | ok descriptor =>
          refine .of_one descriptor orderly registering ?_ ?_
          · simp [Call.offers?, described, Except.toOption]
          · cases registered : d.register descriptor <;> simp [described, registered]
  | loadManifest m =>
      unfold Call.perform loadManifest
      rw [here]
      cases resolved : (m.resolve.runOn host.symbols).1 with
      | error e =>
          refine .of_missing ?_ ?_ ?_ <;> simp [Call.offers?, resolved, Except.toOption]
      | ok ds =>
          refine .of_found ds orderly registering ?_ ?_ ?_
          · simp [Call.offers?, resolved, Except.toOption]
          · rcases all : d.registerAll ds with ⟨_ | _, d'⟩
            · simpa [resolved, all] using Extends.refl d'
            · have same : d'.Extends { d' with config := m.config } [] :=
                ⟨rfl, rfl, rfl, (List.append_nil _).symm⟩
              simpa [resolved, all] using same
          · rcases all : d.registerAll ds with ⟨_ | _, d'⟩ <;> simp [resolved, all]
  | activate => exact absurd rfl other

/-- An activation serves what the installation has applied, or fails and leaves the host as it
    was. -/
theorem perform_activate (registering : d.stage = .registering) (host : Host) :
    match host.install d.registry.descriptors d.config with
    | (.ok report, after) => Call.activate.perform d host = ⟨none,
        { d with registry := d.registry.freeze, stage := .serving, report := some report }, after⟩
    | (.error errors, _) => Call.activate.perform d host = ⟨some (.activation errors),
        { d with registry := d.registry.freeze, stage := .failed }, host⟩ := by
  have here : d.checkStage .registering = .ok () := if_pos registering
  unfold Call.perform activate
  rw [here]
  rcases installed : host.install d.registry.descriptors d.config with ⟨errors | report, after⟩
  · obtain ⟨-, -, rfl⟩ := Install.install_eq_error_iff.mp installed
    simp [Registry.freeze, installed]
  · simp [Registry.freeze, installed]

/-- Every call keeps a deployment orderly and adds to its registry the hooks that it registers. -/
theorem Orderly.perform (orderly : d.Orderly) (call : Call) (host : Host) :
    (call.perform d host).deployment.Orderly ∧
      (call.perform d host).deployment.registry.hooks =
        d.registry.hooks ++ d.accepts host.symbols call := by
  by_cases registering : d.stage = .registering
  · by_cases other : call = .activate
    · subst other
      have activated := perform_activate registering host
      have nothing : d.accepts host.symbols .activate = [] := by
        simp [accepts, Call.offers?, accepted]
      rw [nothing, List.append_nil]
      split at activated
      · rw [activated]
        exact ⟨⟨by simp [Registry.freeze], by simp, orderly.distinct⟩, rfl⟩
      · rw [activated]
        have unreported : ¬ d.report.isSome := by simp [orderly.reported, registering]
        exact ⟨⟨by simp [Registry.freeze], by simpa using unreported, orderly.distinct⟩, rfl⟩
    · have grows := (perform_registers orderly registering other host).grows
      have fresh : d.accepts host.symbols call =
          accepted d.registry.hooks ((call.offers? host.symbols).getD []) := if_pos registering
      exact ⟨Extends.orderly orderly (fresh ▸ grows), grows.hooks⟩
  · rw [perform_refused registering, accepts, if_neg registering, List.append_nil]
    exact ⟨orderly, rfl⟩

/-- A sequence of calls does so as well. -/
theorem Orderly.performs (orderly : d.Orderly) (calls : List (Call × Host)) :
    (d.performs calls).Orderly ∧
      (d.performs calls).registry.hooks = d.registry.hooks ++ d.registered calls := by
  induction calls generalizing d with
  | nil => exact ⟨orderly, (List.append_nil _).symm⟩
  | cons first rest ih =>
      obtain ⟨call, host⟩ := first
      obtain ⟨orderly', hooks⟩ := orderly.perform call host
      obtain ⟨orderly'', hooks'⟩ := ih orderly'
      refine ⟨orderly'', ?_⟩
      rw [Deployment.registered, ← List.append_assoc, ← hooks]
      exact hooks'

end Deployment

end HookSplice
