import HookSplice.Proofs.Batches

/-!
# Hooks on different methods

Descriptors of different methods may change places: each one meets the body that the earlier ones
of its own method have made, whatever was done to other methods before.  So two lists of
descriptors that differ only in this way are installed alike, up to the order of the records.
-/

namespace HookSplice

/-- The second list has the descriptors of the first one in another order, which is the same for the
    descriptors of each method. -/
structure Rearranged (ds ds' : List Descriptor) : Prop where
  perm : ds.Perm ds'
  inOrder : ∀ method, ds.filter (fun d => d.target = method) =
    ds'.filter (fun d => d.target = method)

theorem Rearranged.swap {a b : Descriptor} (foreign : a.target ≠ b.target)
    (rest : List Descriptor) : Rearranged (a :: b :: rest) (b :: a :: rest) where
  perm := .swap b a rest
  inOrder := fun method => by
    by_cases first : a.target = method
    · have second : b.target ≠ method := fun same => foreign (first.trans same.symm)
      simp [first, second]
    · simp [List.filter_cons, first]

/-- What stands in front of the first descriptor of the one list in the other list is for other
    methods. -/
theorem Rearranged.cons {d : Descriptor} {rest ds' : List Descriptor}
    (rearranged : Rearranged (d :: rest) ds') (distinct : ((d :: rest).map Descriptor.hook).Nodup) :
    ∃ front back, ds' = front ++ d :: back ∧ (∀ other ∈ front, other.target ≠ d.target) ∧
      (∀ other ∈ front, other.hook ≠ d.hook) ∧ Rearranged rest (front ++ back) := by
  obtain ⟨front, back, rfl⟩ := List.append_of_mem (rearranged.perm.subset (List.mem_cons_self ..))
  have perm : rest.Perm (front ++ back) :=
    (rearranged.perm.trans List.perm_middle).cons_inv
  have others : ∀ other ∈ front ++ back, other.hook ≠ d.hook := by
    intro other member same
    refine (List.nodup_cons.mp distinct).1 (same ▸ List.mem_map_of_mem ?_)
    exact perm.symm.subset member
  have apart : ∀ other ∈ front, other.hook ≠ d.hook :=
    fun other member => others other (List.mem_append_left _ member)
  have own := rearranged.inOrder d.target
  rw [List.filter_cons_of_pos (by simp), List.filter_append,
    List.filter_cons_of_pos (by simp)] at own
  -- The first descriptor for the method is `d` in both lists.
  have none : front.filter (fun other => other.target = d.target) = [] := by
    cases found : front.filter (fun other => other.target = d.target) with
    | nil => rfl
    | cons first more =>
        rw [found, List.cons_append, List.cons.injEq] at own
        have member : d ∈ front.filter (fun other => other.target = d.target) := by
          rw [found, own.1]
          exact List.mem_cons_self ..
        exact absurd rfl (apart d (List.mem_filter.mp member).1)
  have foreign : ∀ other ∈ front, other.target ≠ d.target := by
    intro other member same
    have : other ∈ front.filter (fun other => other.target = d.target) :=
      List.mem_filter.mpr ⟨member, by simpa using same⟩
    rw [none] at this
    cases this
  refine ⟨front, back, rfl, foreign, apart, perm, fun method => ?_⟩
  by_cases same : d.target = method
  · subst same
    rw [none, List.nil_append, List.cons.injEq] at own
    rw [List.filter_append, none, own.2, List.nil_append]
  · have both := rearranged.inOrder method
    rwa [List.filter_cons_of_neg (by simpa using same), List.filter_append,
      List.filter_cons_of_neg (by simpa using same), ← List.filter_append] at both

namespace Install

variable {host : Host} {config : InstallConfig} {p q : Staging} {a b d : Descriptor}

/-- Two staging areas with the same bodies, and the same records in any order. -/
structure Staging.Alike (p q : Staging) : Prop where
  staged : p.staged = q.staged
  applied : p.applied.Perm q.applied
  errors : p.errors.Perm q.errors

theorem Staging.Alike.refl (p : Staging) : p.Alike p :=
  ⟨rfl, .refl _, .refl _⟩

theorem Staging.Alike.trans {r : Staging} (first : p.Alike q) (second : q.Alike r) : p.Alike r :=
  ⟨first.staged.trans second.staged, first.applied.trans second.applied,
    first.errors.trans second.errors⟩

theorem Staging.Alike.hasHook (alike : p.Alike q) (hook : String) :
    p.hasHook hook = q.hasHook hook := by
  simp only [Staging.hasHook, alike.applied.any_eq, alike.errors.any_eq]

/-- Trying a descriptor keeps staging areas alike. -/
theorem Staging.Alike.stage (alike : p.Alike q) (d : Descriptor) :
    (Install.stage host config p d).Alike (Install.stage host config q d) := by
  have same : outcome host config p d = outcome host config q d := by
    unfold outcome
    rw [alike.hasHook, alike.staged]
  rw [stage_eq, stage_eq, same]
  cases outcome host config q d with
  | ok made =>
      refine ⟨?_, alike.applied.append_right _, alike.errors⟩
      exact congrArg (Bodies.insert · made.1) alike.staged
  | error fault => exact ⟨alike.staged, alike.applied, alike.errors.append_right _⟩

theorem Staging.Alike.foldl (host : Host) (config : InstallConfig) (alike : p.Alike q)
    (ds : List Descriptor) :
    (ds.foldl (Install.stage host config) p).Alike (ds.foldl (Install.stage host config) q) := by
  induction ds generalizing p q with
  | nil => exact alike
  | cons d rest ih => exact ih (alike.stage d)

/-! ### Two descriptors that change places -/

theorem applyOne_congr {staged staged' : Bodies}
    (same : staged.find? d.target = staged'.find? d.target) :
    applyOne host config staged d = applyOne host config staged' d := by
  unfold applyOne
  rw [same]

/-- What becomes of a descriptor does not depend on one that was tried before it for another method
    under another name. -/
theorem outcome_stage (foreign : a.target ≠ b.target) (apart : a.hook ≠ b.hook) :
    outcome host config (stage host config p a) b = outcome host config p b := by
  rw [stage_eq]
  cases tried : outcome host config p a with
  | ok made =>
      obtain ⟨body, r⟩ := made
      have applied := outcome_eq_ok tried
      obtain ⟨stored, -, -, hook, -⟩ := applyOne_eq_ok applied
      have same : (p.staged.insert body).find? b.target = p.staged.find? b.target := by
        rw [Bodies.find?_insert, if_neg (applyOne_method applied ▸ foreign)]
      simp [outcome, Staging.hasHook, hook, apart, applyOne_congr same]
  | error fault => simp [outcome, Staging.hasHook, apart]

theorem append_swap {α : Type} (xs : List α) (x y : α) :
    (xs ++ [x] ++ [y]).Perm (xs ++ [y] ++ [x]) := by
  rw [List.append_assoc, List.append_assoc]
  exact (List.Perm.swap y x []).append_left xs

/-- Descriptors for different methods may change places. -/
theorem stage_swap (host : Host) (config : InstallConfig) (p : Staging)
    (foreign : a.target ≠ b.target) (apart : a.hook ≠ b.hook) :
    (stage host config (stage host config p a) b).Alike
      (stage host config (stage host config p b) a) := by
  have behind : stage host config (stage host config p a) b =
      (stage host config p a).note host b (outcome host config p b) := by
    rw [stage_eq, outcome_stage foreign apart]
  have behind' : stage host config (stage host config p b) a =
      (stage host config p b).note host a (outcome host config p a) := by
    rw [stage_eq, outcome_stage foreign.symm apart.symm]
  rw [behind, behind', stage_eq, stage_eq]
  cases first : outcome host config p a with
  | ok made =>
      obtain ⟨body, r⟩ := made
      cases second : outcome host config p b with
      | ok made' =>
          obtain ⟨body', r'⟩ := made'
          have differ : body'.method ≠ body.method := by
            rw [applyOne_method (outcome_eq_ok first), applyOne_method (outcome_eq_ok second)]
            exact foreign.symm
          exact ⟨p.staged.insert_comm differ, append_swap _ _ _, .refl _⟩
      | error fault => exact .refl _
  | error fault =>
      cases second : outcome host config p b with
      | ok made' => exact .refl _
      | error fault' => exact ⟨rfl, .refl _, append_swap _ _ _⟩

/-! ### Whole lists -/

/-- A descriptor may be tried behind others that are for other methods. -/
theorem foldl_behind (host : Host) (config : InstallConfig) (p : Staging)
    {front : List Descriptor} (foreign : ∀ other ∈ front, other.target ≠ d.target)
    (apart : ∀ other ∈ front, other.hook ≠ d.hook) :
    ((d :: front).foldl (stage host config) p).Alike
      ((front ++ [d]).foldl (stage host config) p) := by
  induction front generalizing p with
  | nil => exact .refl _
  | cons other front ih =>
      have swapped := stage_swap host config p
        (foreign other (List.mem_cons_self ..)).symm (apart other (List.mem_cons_self ..)).symm
      have moved := ih (stage host config p other)
        (fun e member => foreign e (List.mem_cons_of_mem _ member))
        (fun e member => apart e (List.mem_cons_of_mem _ member))
      exact (swapped.foldl host config front).trans moved

theorem foldl_rearranged (host : Host) (config : InstallConfig) (p : Staging)
    {ds ds' : List Descriptor} (distinct : (ds.map Descriptor.hook).Nodup)
    (rearranged : Rearranged ds ds') :
    (ds.foldl (stage host config) p).Alike (ds'.foldl (stage host config) p) := by
  induction ds generalizing p ds' with
  | nil =>
      obtain rfl := rearranged.perm.nil_eq
      exact .refl _
  | cons d rest ih =>
      obtain ⟨front, back, rfl, foreign, apart, rearranged⟩ := rearranged.cons distinct
      have others := ih (stage host config p d) (List.nodup_cons.mp distinct).2 rearranged
      have moved := (foldl_behind host config p foreign apart).foldl host config back
      rw [← List.foldl_append, ← List.foldl_append] at moved
      simpa using others.trans moved

/-- Without failures every descriptor is on record, in order. -/
theorem applied_of_succeeded {ds : List Descriptor}
    (succeeded : (ds.foldl (stage host config) ⟨∅, [], []⟩).errors = []) :
    (ds.foldl (stage host config) ⟨∅, [], []⟩).applied.map AppliedPatch.hook =
      ds.map Descriptor.hook := by
  obtain ⟨errors, current, seen, -, applied⟩ := foldl_stage config (stands_start host) ds
  rw [succeeded] at errors
  simpa using (applied errors.symm).1

end Install

/-- Hooks on different methods are independent.  Two lists of descriptors with different hooks that
    have the descriptors of each method in the same order are installed alike: both succeed, with
    the same bodies and the same record for each hook, or both fail, with the same failure for each
    hook that fails and the host as it was. -/
theorem Host.install_rearranged (host : Host) (config : InstallConfig) {ds ds' : List Descriptor}
    (distinct : (ds.map Descriptor.hook).Nodup) (rearranged : Rearranged ds ds') :
    match host.install ds config, host.install ds' config with
    | (.ok report, after), (.ok report', after') =>
        after.bodies = after'.bodies ∧ after.symbols = after'.symbols ∧
          after.applied.Perm after'.applied ∧ report.applied.Perm report'.applied ∧
          report.applied.map AppliedPatch.hook = ds.map Descriptor.hook ∧
          report'.applied.map AppliedPatch.hook = ds'.map Descriptor.hook
    | (.error errors, after), (.error errors', after') =>
        errors.Perm errors' ∧ after = host ∧ after' = host
    | _, _ => False := by
  have alike : (ds.foldl (Install.stage host config) ⟨∅, [], []⟩).Alike
      (ds'.foldl (Install.stage host config) ⟨∅, [], []⟩) :=
    Install.foldl_rearranged host config _ distinct rearranged
  rcases installed : host.install ds config with ⟨failed | report, after⟩ <;>
    rcases installed' : host.install ds' config with ⟨failed' | report', after'⟩
  · obtain ⟨-, rfl, rfl⟩ := Install.install_eq_error_iff.mp installed
    obtain ⟨-, rfl, rfl⟩ := Install.install_eq_error_iff.mp installed'
    exact ⟨alike.errors, rfl, rfl⟩
  · obtain ⟨failed, -, -⟩ := Install.install_eq_error_iff.mp installed
    obtain ⟨succeeded, -, -⟩ := Install.install_eq_ok_iff.mp installed'
    have none := alike.errors
    rw [succeeded] at none
    exact failed none.eq_nil
  · obtain ⟨succeeded, -, -⟩ := Install.install_eq_ok_iff.mp installed
    obtain ⟨failed, -, -⟩ := Install.install_eq_error_iff.mp installed'
    have none := alike.errors.symm
    rw [succeeded] at none
    exact failed none.eq_nil
  · obtain ⟨succeeded, rfl, rfl⟩ := Install.install_eq_ok_iff.mp installed
    obtain ⟨succeeded', rfl, rfl⟩ := Install.install_eq_ok_iff.mp installed'
    refine ⟨?_, rfl, ?_, alike.applied, ?_, ?_⟩
    · simp only [Install.committed, alike.staged]
    · exact (alike.applied.map _).append_left _
    · exact Install.applied_of_succeeded succeeded
    · exact Install.applied_of_succeeded succeeded'

/-- A host with two methods, which return at once. -/
def porchHost : Host where
  symbols := ⟨["Door"], [], [⟨⟨⟨0⟩, "open", [], none, true⟩, "Door::open()"⟩,
    ⟨⟨⟨0⟩, "shut", [], none, true⟩, "Door::shut()"⟩]⟩
  bodies := ⟨[.ofParts ⟨0⟩ [.plain .ret] [] [], .ofParts ⟨1⟩ [.plain .ret] [] []], by decide⟩
  applied := []

/-- A hook on the second method. -/
def boltHook : Descriptor :=
  { doorHook with hook := "door.bolt", target := ⟨1⟩ }

theorem porchHost_install_rearranged :
    ([doorHook, boltHook, bellHook].map Descriptor.hook).Nodup ∧
    Rearranged [doorHook, boltHook, bellHook] [boltHook, doorHook, bellHook] ∧
    ∃ report after report' after',
      porchHost.install [doorHook, boltHook, bellHook] .default = (.ok report, after) ∧
      porchHost.install [boltHook, doorHook, bellHook] .default = (.ok report', after') ∧
      after.bodies = after'.bodies ∧ report.applied.Perm report'.applied := by
  have distinct : ([doorHook, boltHook, bellHook].map Descriptor.hook).Nodup := by decide
  have rearranged : Rearranged [doorHook, boltHook, bellHook] [boltHook, doorHook, bellHook] :=
    .swap (by decide) [bellHook]
  have succeeds :
      (porchHost.install [doorHook, boltHook, bellHook] .default).1.toOption.isSome := by
    decide +kernel
  have alike := Host.install_rearranged porchHost .default distinct rearranged
  have installed := Except.run_eq_ok_value succeeds
  rw [installed] at alike
  split at alike
  · next report after report' after' here there =>
      cases here
      exact ⟨distinct, rearranged, _, _, report', after', installed, there, alike.1,
        alike.2.2.2.1⟩
  · next here _ => cases here
  · exact alike.elim

end HookSplice
