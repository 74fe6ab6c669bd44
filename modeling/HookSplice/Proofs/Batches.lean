import Mathlib.Data.List.Nodup
import HookSplice.Proofs.Installation

/-!
# Batches of hooks

A list of hooks may be installed at once or in parts, one installation after the other.  At once,
the later hooks find the earlier ones in the staging area; in parts, they find them in the host.
Beside the staging area that goes on, one that starts over on the committed host holds other bodies
and fewer records, but every descriptor meets the same body and the same hooks in both.  So both
ways succeed alike, and end with the same host.
-/

namespace HookSplice

namespace Install

variable {host : Host} {config : InstallConfig}

/-- Failures are only added to. -/
theorem errors_of_foldl_stage {p : Staging} {ds : List Descriptor}
    (none : (ds.foldl (stage host config) p).errors = []) : p.errors = [] := by
  induction ds generalizing p with
  | nil => exact none
  | cons d rest ih =>
      have later := ih none
      rw [stage_eq] at later
      cases tried : outcome host config p d with
      | ok made =>
          rw [tried] at later
          exact later
      | error fault =>
          rw [tried] at later
          exact absurd later (by simp)

/-! ### Two staging areas -/

/-- A staging area on a host, and another one on the host into which the records `done` have been
    committed: every method has the same body in both, and the first one has these records in front
    of those of the second one. -/
structure Alongside (host host' : Host) (done : List AppliedPatch) (p q : Staging) : Prop where
  symbols : host'.symbols = host.symbols
  stored : ∀ method, (host'.body? method).isSome = (host.body? method).isSome
  hooks : host'.applied = host.applied ++ done.map AppliedPatch.hook
  bodies : ∀ method, (p.staged.find? method).or (host.body? method) =
    (q.staged.find? method).or (host'.body? method)
  applied : p.applied = done ++ q.applied
  errors : p.errors = q.errors

variable {host' : Host} {done : List AppliedPatch} {p q : Staging}

theorem Alongside.methodName (beside : Alongside host host' done p q) (method : MethodId) :
    host'.methodName method = host.methodName method := by
  unfold Host.methodName
  rw [beside.symbols]

theorem Alongside.hasHook (beside : Alongside host host' done p q) (hook : String) :
    p.hasHook hook = ((done.map AppliedPatch.hook).contains hook || q.hasHook hook) := by
  rw [Bool.eq_iff_iff]
  simp only [Staging.hasHook, beside.applied, beside.errors, List.any_append, Bool.or_eq_true,
    List.any_eq_true, beq_iff_eq, List.contains_iff_mem, List.mem_map, or_assoc]

theorem Alongside.isApplied (beside : Alongside host host' done p q) (hook : String) :
    host'.isApplied hook = (host.isApplied hook || (done.map AppliedPatch.hook).contains hook) := by
  rw [Bool.eq_iff_iff]
  simp only [Host.isApplied, beside.hooks, Bool.or_eq_true, List.contains_iff_mem, List.mem_append]

/-- Without fingerprints, a descriptor whose hook is not among the records is applied alike. -/
theorem Alongside.applyOne (beside : Alongside host host' done p q)
    (optional : config.requireFingerprints = false) {d : Descriptor}
    (unpinned : d.fingerprint = none)
    (new : (done.map AppliedPatch.hook).contains d.hook = false) :
    applyOne host' config q.staged d = applyOne host config p.staged d := by
  have stored := beside.stored d.target
  have bodies := beside.bodies d.target
  have unchecked (symbols : SymbolTable) (b : Body) :
      checkFingerprint symbols config b d.fingerprint = .ok () := by
    rw [unpinned]
    simp [checkFingerprint, optional]
  unfold Install.applyOne
  rw [beside.isApplied, new, Bool.or_false]
  split
  · rfl
  cases old : host.body? d.target with
  | none =>
      rw [old, Option.isSome_none, Option.isSome_eq_false_iff, Option.isNone_iff_eq_none] at stored
      rw [stored]
  | some original =>
      rw [old, Option.isSome_some, Option.isSome_iff_exists] at stored
      obtain ⟨original', old'⟩ := stored
      have current : (q.staged.find? d.target).getD original' =
          (p.staged.find? d.target).getD original := by
        rw [old, old'] at bodies
        cases found : p.staged.find? d.target <;>
          cases found' : q.staged.find? d.target <;> simp_all
      simp only [old', current, unchecked, beside.symbols, Except.ok_bind]
      have records (anchor : AnchorMatch) (s : Spliced) (b : Body) :
          recordOf host' d b anchor s = recordOf host d b anchor s := by
        unfold recordOf
        rw [beside.methodName, beside.symbols]
      simp only [records]

/-- Trying one more descriptor keeps the two staging areas side by side. -/
theorem Alongside.stage (beside : Alongside host host' done p q)
    (optional : config.requireFingerprints = false) {d : Descriptor}
    (unpinned : d.fingerprint = none) :
    Alongside host host' done (stage host config p d) (stage host' config q d) := by
  have failed (fault : InstallFault) : Alongside host host' done
      { p with errors := p.errors ++ [⟨d.hook, host.methodName d.target, fault⟩] }
      { q with errors := q.errors ++ [⟨d.hook, host'.methodName d.target, fault⟩] } :=
    { beside with errors := by rw [beside.errors, beside.methodName] }
  rw [stage_eq, stage_eq]
  unfold outcome
  rw [beside.hasHook]
  -- A hook that is recorded in the host counts as met in one area and as applied in the other.
  cases met : q.hasHook d.hook with
  | true =>
      simp only [Bool.or_true, if_true]
      exact failed _
  | false =>
      cases recorded : (done.map AppliedPatch.hook).contains d.hook with
      | true =>
          have again : Install.applyOne host' config q.staged d = .error .alreadyApplied := by
            unfold Install.applyOne
            rw [beside.isApplied, recorded, Bool.or_true]
            rfl
          simp only [Bool.or_false, if_true, again, Bool.false_eq_true, if_false]
          exact failed _
      | false =>
          simp only [Bool.or_false, Bool.false_eq_true, if_false,
            beside.applyOne optional unpinned recorded]
          cases Install.applyOne host config p.staged d with
          | error fault => exact failed fault
          | ok made =>
              obtain ⟨body, a⟩ := made
              refine { beside with bodies := fun method => ?_, applied := ?_ }
              · simp only [Staging.note_ok, Bodies.find?_insert]
                split
                · rfl
                · exact beside.bodies method
              · simp only [Staging.note_ok, beside.applied, List.append_assoc]

theorem Alongside.foldl (beside : Alongside host host' done p q)
    (optional : config.requireFingerprints = false) {ds : List Descriptor}
    (unpinned : ∀ d ∈ ds, d.fingerprint = none) :
    Alongside host host' done (ds.foldl (Install.stage host config) p)
      (ds.foldl (Install.stage host' config) q) := by
  induction ds generalizing p q with
  | nil => exact beside
  | cons d rest ih =>
      obtain ⟨first, others⟩ := List.forall_mem_cons.mp unpinned
      exact ih (beside.stage optional first) others

/-- A staging area stands beside an empty one on the host into which it is committed. -/
theorem alongside_committed {current : MethodId → Option Body} {seen : List String}
    (stands : Stands host p current seen) (succeeds : p.errors = []) :
    Alongside host (committed host p) p.applied p ⟨∅, [], []⟩ := by
  refine ⟨rfl, fun method => ?_, rfl, fun method => (body?_committed host p method).symm, by simp,
    succeeds⟩
  rw [body?_committed, Option.isSome_or]
  cases found : p.staged.find? method with
  | none => rfl
  | some b =>
      obtain ⟨member, rfl⟩ := Bodies.find?_eq_some_iff.mp found
      rw [stands.targets b member]
      rfl

/-- What two staging areas that stand side by side are committed to. -/
theorem Alongside.committed_eq (beside : Alongside host host' done p q) :
    committed host p = committed host' q := by
  unfold committed
  rw [beside.symbols, beside.hooks, beside.applied, List.map_append, List.append_assoc]
  congr 1
  refine Bodies.ext_find? fun method => ?_
  rw [Bodies.find?_insertAll, Bodies.find?_insertAll]
  exact beside.bodies method

end Install

/-- Installing two lists at once succeeds exactly if installing them one after the other does, and
    then ends with the same host and the reports of both.  Fingerprints are neither pinned nor
    required. -/
theorem Host.install_append {host : Host} {config : InstallConfig}
    (optional : config.requireFingerprints = false)
    {xs ys : List Descriptor} (unpinned : ∀ d ∈ xs ++ ys, d.fingerprint = none)
    (report : InstallReport) (after : Host) :
    host.install (xs ++ ys) config = (.ok report, after) ↔
      ∃ first middle second, host.install xs config = (.ok first, middle) ∧
        middle.install ys config = (.ok second, after) ∧
        report.applied = first.applied ++ second.applied := by
  obtain ⟨-, current, seen, stands, -⟩ :=
    Install.foldl_stage config (Install.stands_start host) xs
  simp only [Install.install_eq_ok_iff, List.foldl_append]
  generalize xs.foldl (Install.stage host config) ⟨∅, [], []⟩ = p at stands
  have later (succeeds : p.errors = []) :=
    (Install.alongside_committed stands succeeds).foldl optional
      fun d member => unpinned d (List.mem_append_right xs member)
  have same (succeeds : p.errors = []) := (later succeeds).committed_eq
  constructor
  · rintro ⟨succeeds, rfl, rfl⟩
    have earlier := Install.errors_of_foldl_stage succeeds
    refine ⟨_, _, _, ⟨earlier, rfl, rfl⟩, ⟨?_, rfl, same earlier⟩, (later earlier).applied⟩
    exact (later earlier).errors ▸ succeeds
  · rintro ⟨first, middle, second, ⟨earlier, rfl, rfl⟩, ⟨succeeds, rfl, rfl⟩, reported⟩
    refine ⟨(later earlier).errors.trans succeeds, ?_, (same earlier).symm⟩
    rw [(later earlier).applied, ← reported]

/-- A second hook on the method that `doorHook` is for; its anchor finds the return behind the code
    of the first one. -/
def bellHook : Descriptor :=
  { doorHook with hook := "door.bell" }

theorem doorHost_install_append :
    (∀ d ∈ [doorHook] ++ [bellHook], d.fingerprint = none) ∧
    ∃ report after first middle second,
      doorHost.install ([doorHook] ++ [bellHook]) .default = (.ok report, after) ∧
      after.applied = ["door.open", "door.bell"] ∧
      doorHost.install [doorHook] .default = (.ok first, middle) ∧
      middle.install [bellHook] .default = (.ok second, after) ∧
      report.applied = first.applied ++ second.applied := by
  have unpinned : ∀ d ∈ [doorHook] ++ [bellHook], d.fingerprint = none := by
    simp [bellHook, doorHook]
  have succeeds : (doorHost.install ([doorHook] ++ [bellHook]) .default).1.toOption.isSome := by
    decide +kernel
  have installed := Except.run_eq_ok_value succeeds
  have lenient : InstallConfig.default.requireFingerprints = false := rfl
  obtain ⟨first, middle, second, parts⟩ :=
    (Host.install_append lenient unpinned _ _).mp installed
  exact ⟨unpinned, _, _, first, middle, second, installed, by decide +kernel, parts⟩

end HookSplice
