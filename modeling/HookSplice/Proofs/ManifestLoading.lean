import HookSplice.Proofs.Declarations
import HookSplice.Proofs.DeploymentStages

/-!
# Loading manifests

A manifest is resolved as a whole before its first hook is registered, so a deployment is the same
after a manifest that is refused for its stage or for a name in it.  The hooks are then registered
one after the other.  The first one whose name is taken ends the load, and the hooks in front of it
stay registered although the settings of the manifest are not taken over.
-/

namespace HookSplice

/-! ### The hooks of a manifest -/

/-- Every result of a list of steps has what one step gives its result. -/
theorem Declaring.map_of_runOn_mapM {ε α β γ : Type} {step : α → Declaring ε β} {f : β → γ}
    {g : α → γ} (gives : ∀ {s s' a b}, (step a).runOn s = (.ok b, s') → f b = g a)
    {as : List α} {bs : List β} {s s' : SymbolTable}
    (success : (as.mapM step).runOn s = (.ok bs, s')) : bs.map f = as.map g := by
  refine runOn_mapM_induction (fun _ as bs _ => bs.map f = as.map g) (fun _ => rfl)
    (fun first later => ?_) success
  rw [List.map_cons, List.map_cons, gives first, later]

theorem HookSpec.resolve_hook {h : HookSpec} {d : Descriptor} {s s' : SymbolTable}
    (success : h.resolve.runOn s = (.ok d, s')) : d.hook = h.name := by
  obtain ⟨table, middle, here, success⟩ := Declaring.runOn_bind_eq_ok success
  split at success
  · cases success
  · obtain ⟨template, last, built, success⟩ := Declaring.runOn_bind_eq_ok success
    cases success
    rfl

/-- A manifest resolves to one descriptor per hook, in its order. -/
theorem Manifest.resolve_hooks {m : Manifest} {ds : List Descriptor} {s : SymbolTable}
    (success : (m.resolve.runOn s).1 = .ok ds) :
    ds.map Descriptor.hook = m.hooks.map HookSpec.name :=
  Declaring.map_of_runOn_mapM HookSpec.resolve_hook (Prod.ext success rfl)

namespace Deployment

variable {d : Deployment} {host : Host} {m : Manifest}

/-! ### Registering several descriptors -/

theorem adding_nil (d : Deployment) : d.adding [] = d := by
  simp [adding]

theorem adding_adding (d : Deployment) (ds ds' : List Descriptor) :
    (d.adding ds).adding ds' = d.adding (ds ++ ds') := by
  simp [adding]

theorem adding_eq_self {ds : List Descriptor} (same : d.adding ds = d) : ds = [] := by
  have kept := congrArg (fun d => d.registry.descriptors) same
  simpa [adding] using kept

theorem Open.adding (ready : d.Open) (ds : List Descriptor) : (d.adding ds).Open :=
  ⟨ready.registering, ready.thawed⟩

/-- None of the descriptors has a hook that is registered, or that one in front of it has. -/
def Fresh (d : Deployment) (ds : List Descriptor) : Prop :=
  (ds.map Descriptor.hook).Nodup ∧ ∀ hook ∈ ds.map Descriptor.hook, hook ∉ d.registry.hooks

theorem fresh_nil (d : Deployment) : d.Fresh [] := by
  simp [Fresh]

theorem fresh_cons {descriptor : Descriptor} {rest : List Descriptor} :
    d.Fresh (descriptor :: rest) ↔
      descriptor.hook ∉ d.registry.hooks ∧ (d.adding [descriptor]).Fresh rest := by
  simp only [Fresh, List.map_cons, List.nodup_cons, List.forall_mem_cons, hooks_adding,
    List.map_nil, List.mem_append, List.mem_singleton, not_or]
  constructor
  · rintro ⟨⟨first, distinct⟩, new, others⟩
    refine ⟨new, distinct, fun hook member => ⟨others hook member, ?_⟩⟩
    rintro rfl
    exact first member
  · rintro ⟨new, distinct, others⟩
    exact ⟨⟨fun member => (others _ member).2 rfl, distinct⟩, new,
      fun hook member => (others hook member).1⟩

/-- Fresh descriptors are registered before the others. -/
theorem registerAll_fresh (ready : d.Open) {front : List Descriptor} (fresh : d.Fresh front)
    (rest : List Descriptor) :
    d.registerAll (front ++ rest) = (d.adding front).registerAll rest := by
  induction front generalizing d with
  | nil => rw [List.nil_append, adding_nil]
  | cons descriptor front ih =>
      obtain ⟨new, fresh⟩ := fresh_cons.mp fresh
      rw [List.cons_append, registerAll, register_fresh ready new]
      simp only
      rw [ih (ready.adding _) fresh, adding_adding, List.singleton_append]

/-- Descriptors are fresh as a whole, or up to one whose hook is taken. -/
theorem fresh_or_split (d : Deployment) (ds : List Descriptor) :
    d.Fresh ds ∨ ∃ front refused rest, ds = front ++ refused :: rest ∧ d.Fresh front ∧
      refused.hook ∈ d.registry.hooks ++ front.map Descriptor.hook := by
  induction ds generalizing d with
  | nil => exact Or.inl (fresh_nil d)
  | cons descriptor ds ih =>
      by_cases known : descriptor.hook ∈ d.registry.hooks
      · exact Or.inr ⟨[], descriptor, ds, rfl, fresh_nil d, by simpa using known⟩
      · rcases ih (d.adding [descriptor]) with fresh | ⟨front, refused, rest, rfl, fresh, taken⟩
        · exact Or.inl (fresh_cons.mpr ⟨known, fresh⟩)
        · refine Or.inr ⟨descriptor :: front, refused, rest, rfl, fresh_cons.mpr ⟨known, fresh⟩, ?_⟩
          simpa using taken

/-- A deployment that is closed registers nothing. -/
theorem registerAll_closed (closed : ¬ d.Open) (descriptor : Descriptor)
    (rest : List Descriptor) : ∃ e, d.registerAll (descriptor :: rest) = (.error e, d) := by
  have refused : ∃ e, d.register descriptor = .error e := by
    unfold register checkStage Registry.register
    by_cases registering : d.stage = .registering
    · by_cases frozen : d.registry.frozen
      · rw [if_pos registering, if_pos frozen]
        exact ⟨_, rfl⟩
      · exact absurd ⟨registering, by simpa using frozen⟩ closed
    · rw [if_neg registering]
      exact ⟨_, rfl⟩
  obtain ⟨e, refused⟩ := refused
  exact ⟨e, by rw [registerAll, refused]⟩

/-! ### Loading -/

/-- The descriptors that a manifest resolves to on a host. -/
def Resolves (host : Host) (m : Manifest) (ds : List Descriptor) : Prop :=
  (m.resolve.runOn host.symbols).1 = .ok ds

theorem loadManifest_resolved (registering : d.stage = .registering) {ds : List Descriptor}
    (resolved : Resolves host m ds) :
    d.loadManifest host m =
      (match d.registerAll ds with
        | (.error e, d) => (.error e, d,
            { host with symbols := (m.resolve.runOn host.symbols).2 })
        | (.ok (), d) => (.ok ds.length, { d with config := m.config },
            { host with symbols := (m.resolve.runOn host.symbols).2 })) := by
  have here : d.checkStage .registering = .ok () := if_pos registering
  unfold Resolves at resolved
  unfold loadManifest
  rw [here]
  rcases ran : d.registerAll ds with ⟨_ | _, _⟩ <;> simp only [resolved, ran]

theorem loadManifest_fresh (ready : d.Open) {ds : List Descriptor} (resolved : Resolves host m ds)
    (fresh : d.Fresh ds) :
    d.loadManifest host m = (.ok ds.length, { d.adding ds with config := m.config },
      { host with symbols := (m.resolve.runOn host.symbols).2 }) := by
  have all := registerAll_fresh ready fresh []
  rw [List.append_nil, registerAll] at all
  rw [loadManifest_resolved ready.registering resolved, all]

/-- The load of a manifest comes to a hook whose name is taken, behind others that are fresh. -/
structure HaltsAt (d : Deployment) (host : Host) (m : Manifest) (front : List Descriptor)
    (refused : Descriptor) : Prop where
  ready : d.Open
  resolved : ∃ rest, Resolves host m (front ++ refused :: rest)
  fresh : d.Fresh front
  taken : refused.hook ∈ d.registry.hooks ++ front.map Descriptor.hook

/-- What is in front of the hook is registered then, and nothing else happens to the deployment. -/
theorem HaltsAt.loadManifest {front : List Descriptor} {refused : Descriptor}
    (halts : d.HaltsAt host m front refused) :
    d.loadManifest host m = (.error (.patch (.duplicateHook refused.hook)), d.adding front,
      { host with symbols := (m.resolve.runOn host.symbols).2 }) := by
  obtain ⟨rest, resolved⟩ := halts.resolved
  have known : refused.hook ∈ (d.adding front).registry.hooks := by
    rw [hooks_adding]
    exact halts.taken
  have stops : d.registerAll (front ++ refused :: rest) =
      (.error (.patch (.duplicateHook refused.hook)), d.adding front) := by
    rw [registerAll_fresh halts.ready halts.fresh, registerAll,
      register_known (halts.ready.adding front) known]
  rw [loadManifest_resolved halts.ready.registering resolved, stops]

/-- How a load comes out: all hooks are taken, the deployment is as before, or the load halts. -/
theorem loadManifest_cases (d : Deployment) (host : Host) (m : Manifest) :
    (∃ ds host', Resolves host m ds ∧ d.loadManifest host m =
      (.ok ds.length, { d.adding ds with config := m.config }, host')) ∨
    (∃ e host', d.loadManifest host m = (.error e, d, host')) ∨
    ∃ front refused, d.HaltsAt host m front refused := by
  by_cases registering : d.stage = .registering
  · cases resolved : (m.resolve.runOn host.symbols).1 with
    | error e =>
        have here : d.checkStage .registering = .ok () := if_pos registering
        refine Or.inr (Or.inl ⟨.patch e,
          { host with symbols := (m.resolve.runOn host.symbols).2 }, ?_⟩)
        unfold Deployment.loadManifest
        rw [here]
        simp only [resolved]
    | ok ds =>
        by_cases ready : d.Open
        · rcases fresh_or_split d ds with fresh | ⟨front, refused, rest, rfl, fresh, taken⟩
          · exact Or.inl ⟨ds, _, resolved, loadManifest_fresh ready resolved fresh⟩
          · exact Or.inr (Or.inr ⟨front, refused, ready, ⟨rest, resolved⟩, fresh, taken⟩)
        · have loads := loadManifest_resolved registering resolved
          cases ds with
          | nil =>
              rw [registerAll] at loads
              exact Or.inl ⟨[], _, resolved, by rw [adding_nil]; exact loads⟩
          | cons first rest =>
              obtain ⟨e, closed⟩ := registerAll_closed ready first rest
              rw [closed] at loads
              exact Or.inr (Or.inl ⟨e, _, loads⟩)
  · have refused : d.checkStage .registering = .error (.stage d.stage .registering) :=
      if_neg registering
    refine Or.inr (Or.inl ⟨.stage d.stage .registering, host, ?_⟩)
    unfold Deployment.loadManifest
    rw [refused]

/-- What loading a manifest does to a deployment.  A load that succeeds adds one descriptor per hook
    of the manifest, in its order, and takes over the settings; nothing else changes.  It succeeds
    if the deployment takes descriptors and the hooks are found and fresh.  A load that fails leaves
    the deployment as it was, unless there are hooks in front of the first one whose name is taken,
    by a hook that was registered or by an earlier hook of the manifest: those stay registered,
    whatever their number, and then the deployment has changed although the settings are the old
    ones. -/
theorem loadManifest_registers (d : Deployment) (host : Host) (m : Manifest) :
    (match d.loadManifest host m with
      | (.ok n, d', _) => n = m.hooks.length ∧ ∃ ds, Resolves host m ds ∧
          ds.map Descriptor.hook = m.hooks.map HookSpec.name ∧
          d' = { d.adding ds with config := m.config }
      | (.error e, d', _) => d' = d ∨ ∃ front refused, front ≠ [] ∧
          d.HaltsAt host m front refused ∧ d' = d.adding front ∧
          e = .patch (.duplicateHook refused.hook)) ∧
    (∀ ds, d.Open → Resolves host m ds → d.Fresh ds →
      ∃ host', d.loadManifest host m =
        (.ok ds.length, { d.adding ds with config := m.config }, host')) ∧
    ∀ front refused, d.HaltsAt host m front refused →
      ∃ host', d.loadManifest host m =
          (.error (.patch (.duplicateHook refused.hook)), d.adding front, host') ∧
        (d.adding front = d ↔ front = []) := by
  refine ⟨?_, ?_, ?_⟩
  · rcases loadManifest_cases d host m with ⟨ds, host', resolved, loads⟩ | ⟨e, host', loads⟩ |
      ⟨front, refused, halts⟩
    · have named := Manifest.resolve_hooks resolved
      have count : ds.length = m.hooks.length := by
        simpa using congrArg List.length named
      rw [loads]
      exact ⟨count, ds, resolved, named, rfl⟩
    · rw [loads]
      exact Or.inl rfl
    · rw [halts.loadManifest]
      by_cases first : front = []
      · subst first
        exact Or.inl (adding_nil d)
      · exact Or.inr ⟨front, refused, first, halts, rfl, rfl⟩
  · intro ds ready resolved fresh
    exact ⟨_, loadManifest_fresh ready resolved fresh⟩
  · intro front refused halts
    refine ⟨_, halts.loadManifest, adding_eq_self, ?_⟩
    rintro rfl
    exact adding_nil d

/-! ### A name that a manifest has twice -/

/-- Loading the manifest leaves the deployment as it was if it fails, and otherwise adds the hooks
    of the manifest and takes over its settings. -/
def LoadsAllOrNothing (d : Deployment) (host : Host) (m : Manifest) : Prop :=
  match d.loadManifest host m with
  | (.ok n, d', _) => n = m.hooks.length ∧
      d'.registry.hooks = d.registry.hooks ++ m.hooks.map HookSpec.name ∧ d'.config = m.config
  | (.error _, d', _) => d' = d

/-- A host with one method. -/
def ferryHost : Host where
  symbols := ⟨["Ferry"], [], [⟨⟨⟨0⟩, "cross", [], none, true⟩, "Ferry::cross()"⟩]⟩
  bodies := .single ⟨⟨0⟩, [.plain .ret], [], [], 0⟩
  applied := []

/-- A hook in front of the return of `ferryHost`. -/
def ferryHook : HookSpec where
  name := "ferry"
  target := "Ferry::cross()"
  fingerprint := none
  anchor := ⟨[{ InstructionSpec.empty with opcode := some .ret }], .first, 0⟩
  event := ⟨.action, [.null], [], .returning .void⟩

/-- A manifest with one hook of `ferryHost`. -/
def ferryManifest : Manifest where
  config := { InstallConfig.default with requireFingerprints := true }
  hooks := [ferryHook]

/-- A manifest that lists its hook a second time. -/
def ferriesManifest : Manifest :=
  { ferryManifest with hooks := [ferryHook, ferryHook] }

theorem open_ofConfig (config : InstallConfig) : (ofConfig config).Open :=
  ⟨rfl, rfl⟩

theorem fresh_ofConfig (config : InstallConfig) (descriptor : Descriptor) :
    (ofConfig config).Fresh [descriptor] := by
  simp [Fresh, ofConfig, Registry.empty, Registry.hooks]

theorem isSome_ferryResolved :
    (ferryManifest.resolve.runOn ferryHost.symbols).1.toOption.isSome := by
  decide +kernel

theorem isSome_ferriesResolved :
    (ferriesManifest.resolve.runOn ferryHost.symbols).1.toOption.isSome := by
  decide +kernel

theorem ferry_resolves : ∃ only, Resolves ferryHost ferryManifest [only] := by
  have resolved := Except.eq_ok_value isSome_ferryResolved
  have named := Manifest.resolve_hooks resolved
  generalize Except.value _ isSome_ferryResolved = ds at resolved named
  obtain ⟨only, rest, rfl, -, named⟩ := List.map_eq_cons_iff.mp named
  obtain rfl := List.map_eq_nil_iff.mp named
  exact ⟨only, resolved⟩

theorem ferries_haltsAt : ∃ first second,
    (ofConfig .default).HaltsAt ferryHost ferriesManifest [first] second := by
  have resolved := Except.eq_ok_value isSome_ferriesResolved
  have named := Manifest.resolve_hooks resolved
  generalize Except.value _ isSome_ferriesResolved = ds at resolved named
  obtain ⟨first, others, rfl, hook, named⟩ := List.map_eq_cons_iff.mp named
  obtain ⟨second, rest, rfl, hook', -⟩ := List.map_eq_cons_iff.mp named
  refine ⟨first, second, open_ofConfig _, ⟨rest, resolved⟩, fresh_ofConfig _ first, ?_⟩
  rw [hook']
  simp [hook]

theorem ferry_registers :
    (∃ only host', Resolves ferryHost ferryManifest [only] ∧
      (ofConfig .default).loadManifest ferryHost ferryManifest =
        (.ok 1, { (ofConfig .default).adding [only] with config := ferryManifest.config },
          host')) ∧
    ∃ first second host', (ofConfig .default).HaltsAt ferryHost ferriesManifest [first] second ∧
      (ofConfig .default).loadManifest ferryHost ferriesManifest =
        (.error (.patch (.duplicateHook second.hook)), (ofConfig .default).adding [first],
          host') := by
  constructor
  · obtain ⟨only, resolves⟩ := ferry_resolves
    obtain ⟨host', loads⟩ :=
      (loadManifest_registers (ofConfig .default) ferryHost ferryManifest).2.1 [only]
        (open_ofConfig _) resolves (fresh_ofConfig _ only)
    exact ⟨only, host', resolves, loads⟩
  · obtain ⟨first, second, halts⟩ := ferries_haltsAt
    obtain ⟨host', loads, -⟩ :=
      (loadManifest_registers (ofConfig .default) ferryHost ferriesManifest).2.2 _ _ halts
    exact ⟨first, second, host', halts, loads⟩

/-- The second of two hooks of one name is refused, but the first one stays registered. -/
theorem ferries_not_loadsAllOrNothing :
    ¬ LoadsAllOrNothing (ofConfig .default) ferryHost ferriesManifest := by
  obtain ⟨first, second, halts⟩ := ferries_haltsAt
  unfold LoadsAllOrNothing
  rw [halts.loadManifest]
  intro same
  exact absurd (adding_eq_self same) (List.cons_ne_nil _ _)

end Deployment

end HookSplice
