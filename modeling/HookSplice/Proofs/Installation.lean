import HookSplice.Install
import HookSplice.Proofs.ReadBodies
import HookSplice.Proofs.Splicing

/-!
# Installation is all or nothing

An installation either lists every descriptor that fails and leaves the host as it was, or replaces
the body of each target by the splices of its descriptors, one after the other.  What a descriptor
meets is described without the staging area: by the bodies that the descriptors before it have
made, as a function of the method, and by the hooks that were met before.
-/

namespace HookSplice

namespace Install

/-- Splices a descriptor into a body, at the position that its anchor selects there. -/
def patch (symbols : SymbolTable) (config : InstallConfig) (body : Body) (d : Descriptor) :
    Except InstallFault Body := do
  let anchor ← (d.anchor.resolve body.code).mapError .anchor
  let s ← (splice symbols config.spliceOptions body anchor.point d.template).mapError .splice
  return s.body

/-- What becomes of one descriptor, where the hooks `seen` were met before and the methods have the
    bodies `current` by now. -/
def attempt (host : Host) (config : InstallConfig) (current : MethodId → Option Body)
    (seen : List String) (d : Descriptor) : Except InstallFault Body :=
  if d.hook ∈ seen ∨ d.hook ∈ host.applied then .error .alreadyApplied
  else
    match host.body? d.target, current d.target with
    | some original, some body => do
        checkFingerprint host.symbols config original d.fingerprint
        patch host.symbols config body d
    | _, _ => .error .noBody

/-- The bodies after one method has got a new one. -/
def update (current : MethodId → Option Body) (method : MethodId) (body : Body) :
    MethodId → Option Body :=
  fun m => if m = method then some body else current m

/-- The descriptors of a list that fail, each with its fault, in the order of the list. -/
def failures (host : Host) (config : InstallConfig) :
    (MethodId → Option Body) → List String → List Descriptor → List InstallError
  | _, _, [] => []
  | current, seen, d :: rest =>
      match attempt host config current seen d with
      | .ok body =>
          failures host config (update current d.target body) (d.hook :: seen) rest
      | .error fault =>
          ⟨d.hook, host.methodName d.target, fault⟩ ::
            failures host config current (d.hook :: seen) rest

variable {host : Host} {config : InstallConfig}

/-- The staging area stands for the bodies and the hooks met so far. -/
structure Stands (host : Host) (p : Staging) (current : MethodId → Option Body)
    (seen : List String) : Prop where
  bodies : ∀ method, (p.staged.find? method).or (host.body? method) = current method
  hooks : ∀ hook, p.hasHook hook ↔ hook ∈ seen
  targets : ∀ b ∈ p.staged, (host.body? b.method).isSome
  declared : ∀ b ∈ p.staged, (host.symbols.method? b.method).isSome

theorem patch_method {symbols : SymbolTable} {body b : Body} {d : Descriptor}
    (success : patch symbols config body d = .ok b) : b.method = body.method := by
  obtain ⟨anchor, -, success⟩ := Except.bind_eq_ok success
  obtain ⟨s, spliced, success⟩ := Except.bind_eq_ok success
  cases success
  exact Splice.splice_method (Except.mapError_eq_ok.mp spliced)

theorem patch_declared {symbols : SymbolTable} {body b : Body} {d : Descriptor}
    (success : patch symbols config body d = .ok b) : (symbols.method? b.method).isSome := by
  obtain ⟨anchor, -, success⟩ := Except.bind_eq_ok success
  obtain ⟨s, spliced, success⟩ := Except.bind_eq_ok success
  cases success
  have spliced := Except.mapError_eq_ok.mp spliced
  obtain ⟨done, -⟩ := Splice.splice_eq_ok spliced
  rw [Splice.splice_method spliced, done.declared]
  rfl

/-- What is made of a descriptor from the staging area is what an attempt gives. -/
theorem attempt_eq_map_applyOne (config : InstallConfig) {p : Staging}
    {current : MethodId → Option Body} {seen : List String}
    (stands : Stands host p current seen) {d : Descriptor} (new : d.hook ∉ seen) :
    attempt host config current seen d = (applyOne host config p.staged d).map Prod.fst := by
  have bodies := stands.bodies d.target
  unfold attempt applyOne Host.isApplied patch
  simp only [new, false_or, List.contains_iff_mem]
  by_cases applied : d.hook ∈ host.applied
  · rw [if_pos applied, if_pos applied]
    rfl
  rw [if_neg applied, if_neg applied]
  cases stored : host.body? d.target with
  | none => rfl
  | some original =>
      have now : current d.target = some ((p.staged.find? d.target).getD original) := by
        rw [← bodies, stored]
        cases p.staged.find? d.target <;> rfl
      simp only [now]
      cases checkFingerprint host.symbols config original d.fingerprint with
      | error fault => rfl
      | ok _ =>
          simp only [bind, Except.bind]
          cases (d.anchor.resolve ((p.staged.find? d.target).getD original).code).mapError
              InstallFault.anchor with
          | error fault => rfl
          | ok anchor =>
              simp only
              cases (splice host.symbols config.spliceOptions
                  ((p.staged.find? d.target).getD original) anchor.point
                  d.template).mapError InstallFault.splice <;> rfl

/-- What happens when a descriptor applies: the host has a body for its target with a fingerprint
    that it takes, its anchor resolves in the staged body or in this one, and its template is
    spliced in there. -/
theorem applyOne_steps {staged : Bodies} {d : Descriptor} {body : Body} {a : AppliedPatch}
    (success : applyOne host config staged d = .ok (body, a)) :
    ∃ stored current anchor s, host.body? d.target = some stored ∧
      checkFingerprint host.symbols config stored d.fingerprint = .ok () ∧
      current = (staged.find? d.target).getD stored ∧
      d.anchor.resolve current.code = .ok anchor ∧
      splice host.symbols config.spliceOptions current anchor.point d.template = .ok s ∧
      body = s.body ∧ a = recordOf host d current anchor s := by
  unfold applyOne at success
  split at success
  · cases success
  split at success
  · cases success
  next stored found =>
  obtain ⟨_, checked, success⟩ := Except.bind_eq_ok success
  obtain ⟨anchor, resolved, success⟩ := Except.bind_eq_ok success
  obtain ⟨s, spliced, success⟩ := Except.bind_eq_ok success
  cases success
  exact ⟨stored, _, anchor, s, found, checked, rfl, Except.mapError_eq_ok.mp resolved,
    Except.mapError_eq_ok.mp spliced, rfl, rfl⟩

/-- A descriptor that applies is on record under its names, with the body that it has made of the
    staged one of its target, or of the host's. -/
theorem applyOne_eq_ok {staged : Bodies} {d : Descriptor} {body : Body} {a : AppliedPatch}
    (success : applyOne host config staged d = .ok (body, a)) :
    ∃ stored, host.body? d.target = some stored ∧
      patch host.symbols config ((staged.find? d.target).getD stored) d = .ok body ∧
      a.hook = d.hook ∧ a.method = host.methodName d.target ∧
      a.fingerprintAfter = Fingerprint.ofBody host.symbols body := by
  obtain ⟨stored, _, anchor, s, found, -, rfl, resolved, spliced, rfl, rfl⟩ :=
    applyOne_steps success
  refine ⟨stored, found, ?_, rfl, rfl, rfl⟩
  unfold patch
  rw [Except.mapError_eq_ok.mpr resolved, Except.ok_bind, Except.mapError_eq_ok.mpr spliced]
  rfl

theorem applyOne_method {staged : Bodies} {d : Descriptor} {body : Body} {a : AppliedPatch}
    (success : applyOne host config staged d = .ok (body, a)) : body.method = d.target := by
  obtain ⟨stored, found, patched, -⟩ := applyOne_eq_ok success
  rw [patch_method patched]
  cases now : staged.find? d.target with
  | some current => exact (Bodies.find?_eq_some_iff.mp now).2
  | none => exact (Host.body?_eq_some_iff.mp found).2

/-- What becomes of a descriptor that is tried. -/
def outcome (host : Host) (config : InstallConfig) (p : Staging) (d : Descriptor) :
    Except InstallFault (Body × AppliedPatch) :=
  if p.hasHook d.hook then .error .alreadyApplied else applyOne host config p.staged d

/-- Notes what has become of a descriptor. -/
def Staging.note (host : Host) (p : Staging) (d : Descriptor) :
    Except InstallFault (Body × AppliedPatch) → Staging
  | .ok (body, applied) =>
      { p with staged := p.staged.insert body, applied := p.applied ++ [applied] }
  | .error fault => { p with errors := p.errors ++ [⟨d.hook, host.methodName d.target, fault⟩] }

@[simp]
theorem Staging.note_ok (p : Staging) (d : Descriptor) (body : Body) (a : AppliedPatch) :
    p.note host d (.ok (body, a)) =
      { p with staged := p.staged.insert body, applied := p.applied ++ [a] } :=
  rfl

@[simp]
theorem Staging.note_error (p : Staging) (d : Descriptor) (fault : InstallFault) :
    p.note host d (.error fault) =
      { p with errors := p.errors ++ [⟨d.hook, host.methodName d.target, fault⟩] } :=
  rfl

theorem stage_eq (p : Staging) (d : Descriptor) :
    stage host config p d = p.note host d (outcome host config p d) := by
  show _ = p.note host d (if p.hasHook d.hook then _ else _)
  unfold stage
  dsimp only
  split <;> simp_all

theorem outcome_eq_ok {p : Staging} {d : Descriptor} {made : Body × AppliedPatch}
    (success : outcome host config p d = .ok made) :
    applyOne host config p.staged d = .ok made := by
  unfold outcome at success
  split at success
  · cases success
  · exact success

/-- An attempt that succeeds has patched the body that its target has by now, and that the host
    has a body for. -/
theorem attempt_eq_ok {current : MethodId → Option Body} {seen : List String} {d : Descriptor}
    {body : Body} (success : attempt host config current seen d = .ok body) :
    (host.body? d.target).isSome ∧ ∃ old, current d.target = some old ∧
      patch host.symbols config old d = .ok body := by
  unfold attempt at success
  split at success
  · cases success
  split at success
  · next original old stored now =>
      obtain ⟨_, -, success⟩ := Except.bind_eq_ok success
      exact ⟨by simp [stored], old, now, success⟩
  · cases success

/-- A descriptor that failed is met, and changes no body. -/
theorem Stands.note_error {p : Staging} {current : MethodId → Option Body} {seen : List String}
    (stands : Stands host p current seen) (d : Descriptor) (fault : InstallFault) :
    Stands host (p.note host d (.error fault)) current (d.hook :: seen) where
  bodies := stands.bodies
  hooks := fun hook => by
    have := stands.hooks hook
    simp only [Staging.note_error, Staging.hasHook, List.any_append, List.any_cons, List.any_nil,
      Bool.or_false, Bool.or_eq_true, beq_iff_eq, List.mem_cons] at this ⊢
    grind
  targets := stands.targets
  declared := stands.declared

/-- A descriptor that applied is met, and its body is that of its target from now on. -/
theorem Stands.note_ok {p : Staging} {current : MethodId → Option Body} {seen : List String}
    (stands : Stands host p current seen) {d : Descriptor} {body : Body} {a : AppliedPatch}
    (made : applyOne host config p.staged d = .ok (body, a)) :
    Stands host (p.note host d (.ok (body, a))) (update current d.target body)
      (d.hook :: seen) := by
  obtain ⟨stored, found, patched, hook, -⟩ := applyOne_eq_ok made
  have method := applyOne_method made
  refine {
    bodies := fun m => ?_
    hooks := fun h => ?_
    targets := fun b member => ?_
    declared := fun b member => ?_ }
  · simp only [Staging.note_ok, Bodies.find?_insert, update, method]
    by_cases equal : m = d.target
    · simp [equal]
    · rw [if_neg (Ne.symm equal), if_neg equal]
      exact stands.bodies m
  · have := stands.hooks h
    simp only [Staging.note_ok, Staging.hasHook, List.any_append, List.any_cons, List.any_nil,
      Bool.or_false, Bool.or_eq_true, beq_iff_eq, List.mem_cons, hook] at this ⊢
    grind
  · rcases Bodies.mem_insert member with rfl | member
    · rw [method, found]
      rfl
    · exact stands.targets b member
  · rcases Bodies.mem_insert member with rfl | member
    · exact patch_declared patched
    · exact stands.declared b member

/-- Trying one descriptor keeps the staging area in step with the bodies and hooks met so far. -/
theorem stage_attempt (config : InstallConfig) {p : Staging} {current : MethodId → Option Body}
    {seen : List String} (stands : Stands host p current seen) (d : Descriptor) :
    match attempt host config current seen d with
    | .ok body => Stands host (stage host config p d) (update current d.target body)
          (d.hook :: seen) ∧
        (stage host config p d).errors = p.errors ∧
        (stage host config p d).applied.map AppliedPatch.hook =
          p.applied.map AppliedPatch.hook ++ [d.hook]
    | .error fault => Stands host (stage host config p d) current (d.hook :: seen) ∧
        (stage host config p d).errors =
          p.errors ++ [⟨d.hook, host.methodName d.target, fault⟩] := by
  rw [stage_eq]
  by_cases met : d.hook ∈ seen
  · have again : attempt host config current seen d = .error .alreadyApplied :=
      if_pos (Or.inl met)
    have refused : outcome host config p d = .error .alreadyApplied :=
      if_pos ((stands.hooks d.hook).mpr met)
    rw [again, refused]
    exact ⟨stands.note_error d _, rfl⟩
  · have tried : outcome host config p d = applyOne host config p.staged d :=
      if_neg fun again => met ((stands.hooks d.hook).mp again)
    rw [tried, attempt_eq_map_applyOne config stands met]
    cases made : applyOne host config p.staged d with
    | error fault => exact ⟨stands.note_error d fault, rfl⟩
    | ok result =>
        obtain ⟨body, a⟩ := result
        obtain ⟨-, -, -, hook, -⟩ := applyOne_eq_ok made
        exact ⟨stands.note_ok made, rfl, by simp [hook]⟩

/-- The failures of a list are those that staging collects.  If there is none, every hook is
    applied, and each method ends with the body that its descriptors make of the one it had. -/
theorem foldl_stage (config : InstallConfig) {p : Staging} {current : MethodId → Option Body}
    {seen : List String} (stands : Stands host p current seen) (ds : List Descriptor) :
    (ds.foldl (stage host config) p).errors = p.errors ++ failures host config current seen ds ∧
    (∃ current' seen', Stands host (ds.foldl (stage host config) p) current' seen' ∧
      (failures host config current seen ds = [] →
        (ds.foldl (stage host config) p).applied.map AppliedPatch.hook =
          p.applied.map AppliedPatch.hook ++ ds.map Descriptor.hook ∧
        (∀ d ∈ ds, (host.body? d.target).isSome) ∧
        ∀ method b, current method = some b → ∃ b',
          (ds.filter fun d => d.target = method).foldlM (patch host.symbols config) b = .ok b' ∧
            current' method = some b')) := by
  induction ds generalizing p current seen with
  | nil =>
      refine ⟨by simp [failures], current, seen, stands, fun _ => ⟨by simp, by simp, ?_⟩⟩
      intro method b now
      exact ⟨b, rfl, now⟩
  | cons d rest ih =>
      have staged := stage_attempt config stands d
      rw [List.foldl_cons]
      unfold failures
      cases outcome : attempt host config current seen d with
      | error fault =>
          simp only [outcome] at staged ⊢
          obtain ⟨errors, current', seen', stands', -⟩ := ih staged.1
          refine ⟨by rw [errors, staged.2]; simp, current', seen', stands', fun none => ?_⟩
          cases none
      | ok body =>
          simp only [outcome] at staged ⊢
          obtain ⟨errors, current', seen', stands', succeeded⟩ := ih staged.1
          obtain ⟨stored, old, now, patched⟩ := attempt_eq_ok outcome
          refine ⟨by rw [errors, staged.2.1], current', seen', stands', fun none => ?_⟩
          obtain ⟨applied, targets, bodies⟩ := succeeded none
          refine ⟨by rw [applied, staged.2.2]; simp, ?_, fun method b before => ?_⟩
          · exact List.forall_mem_cons.mpr ⟨stored, targets⟩
          · by_cases equal : d.target = method
            · subst equal
              obtain rfl : old = b := Option.some.inj (now.symm.trans before)
              obtain ⟨b', folded, after⟩ := bodies d.target body (by simp [update])
              refine ⟨b', ?_, after⟩
              rw [List.filter_cons_of_pos (by simp), List.foldlM_cons, patched]
              exact folded
            · obtain ⟨b', folded, after⟩ := bodies method b
                (by simpa [update, Ne.symm equal] using before)
              refine ⟨b', ?_, after⟩
              rw [List.filter_cons_of_neg (by simpa using equal)]
              exact folded

/-! ### Committing -/

/-- A commit of bodies whose methods are declared refuses none of them. -/
theorem commit_eq {h : Host} {staged : List Body}
    (declared : ∀ b ∈ staged, (h.symbols.method? b.method).isSome) :
    commit h staged = ({ h with bodies := h.bodies.insertAll staged }, none) := by
  induction staged generalizing h with
  | nil => rfl
  | cons b rest ih =>
      obtain ⟨first, others⟩ := List.forall_mem_cons.mp declared
      unfold commit
      rw [Host.replaceBody_eq_ok.mpr ⟨first, rfl, rfl⟩]
      exact ih others

theorem foldl_recordApplied (h : Host) (patches : List AppliedPatch) :
    patches.foldl (fun h a => h.recordApplied a.hook) h =
      { h with applied := h.applied ++ patches.map AppliedPatch.hook } := by
  induction patches generalizing h with
  | nil => simp
  | cons a rest ih =>
      rw [List.foldl_cons, ih]
      simp [Host.recordApplied]

/-- Staging starts out with the bodies of the host. -/
theorem stands_start (host : Host) : Stands host ⟨∅, [], []⟩ host.body? [] where
  bodies := fun _ => rfl
  hooks := fun _ => by simp [Staging.hasHook]
  targets := fun _ member => absurd member List.not_mem_nil
  declared := fun _ member => absurd member List.not_mem_nil

/-- The host into which a staging area has been committed. -/
def committed (host : Host) (p : Staging) : Host :=
  { host with
    bodies := host.bodies.insertAll p.staged.toList
    applied := host.applied ++ p.applied.map AppliedPatch.hook }

theorem body?_committed (host : Host) (p : Staging) (method : MethodId) :
    (committed host p).body? method = (p.staged.find? method).or (host.body? method) :=
  Bodies.find?_insertAll host.bodies p.staged method

/-- An installation succeeds when staging notes no failure, and then commits what was staged. -/
theorem install_eq_ok_iff {ds : List Descriptor} {report : InstallReport} {after : Host} :
    host.install ds config = (.ok report, after) ↔
      (ds.foldl (stage host config) ⟨∅, [], []⟩).errors = [] ∧
      report = ⟨(ds.foldl (stage host config) ⟨∅, [], []⟩).applied⟩ ∧
      after = committed host (ds.foldl (stage host config) ⟨∅, [], []⟩) := by
  obtain ⟨-, current, seen, stands, -⟩ := foldl_stage config (stands_start host) ds
  unfold Host.install
  simp only [commit_eq stands.declared, foldl_recordApplied]
  by_cases none : (ds.foldl (stage host config) ⟨∅, [], []⟩).errors = []
  · simp [none, committed, eq_comm]
  · simp [none]

/-- An installation fails when staging notes failures, and then leaves the host as it was. -/
theorem install_eq_error_iff {ds : List Descriptor} {errors : List InstallError} {after : Host} :
    host.install ds config = (.error errors, after) ↔
      (ds.foldl (stage host config) ⟨∅, [], []⟩).errors ≠ [] ∧
      errors = (ds.foldl (stage host config) ⟨∅, [], []⟩).errors ∧ after = host := by
  obtain ⟨-, current, seen, stands, -⟩ := foldl_stage config (stands_start host) ds
  unfold Host.install
  simp only [commit_eq stands.declared]
  by_cases none : (ds.foldl (stage host config) ⟨∅, [], []⟩).errors = []
  · simp [none]
  · rw [if_neg (by simpa using none), Prod.mk.injEq, Except.error.injEq]
    exact ⟨fun same => ⟨none, same.1.symm, same.2.symm⟩, fun same => ⟨same.2.1.symm, same.2.2.symm⟩⟩

end Install

/-! ### Whole runs -/

/-- A host with one method, which returns at once. -/
def doorHost : Host where
  symbols := ⟨["Door"], [], [⟨⟨⟨0⟩, "open", [], none, true⟩, "Door::open()"⟩]⟩
  bodies := .single (.ofParts ⟨0⟩ [.plain .ret] [] [])
  applied := []

/-- A hook on its only instruction: a constant decides whether the method returns early. -/
def doorHook : Descriptor where
  hook := "door.open"
  target := ⟨0⟩
  anchor := ⟨.instruction ⟨some .ret, none⟩, .first, 0⟩
  template := ⟨[.emit (.of .ldc (.int 1)), .branch .brtrue .deny], [], 0, .returning .void⟩
  fingerprint := none

end HookSplice
