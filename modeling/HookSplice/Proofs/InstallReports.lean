import HookSplice.Proofs.Installation
import HookSplice.Proofs.ReloadedHost
import HookSplice.Proofs.SoundSplices

/-!
# Reports of installations

An installation of templates over the table of a sound host leaves the host sound.  Its report names
methods with bodies, and the fingerprint that it gives last for a method is that of the new body.
-/

namespace HookSplice

/-- The fingerprint that a report gives last for a method. -/
def InstallReport.lastFingerprint? (r : InstallReport) (method : String) : Option Fingerprint :=
  (r.applied.filter fun a => a.method == method).getLast?.map AppliedPatch.fingerprintAfter

theorem InstallReport.lastFingerprint?_append (patches : List AppliedPatch) (a : AppliedPatch)
    (method : String) : lastFingerprint? ⟨patches ++ [a]⟩ method =
      if a.method = method then some a.fingerprintAfter else lastFingerprint? ⟨patches⟩ method := by
  unfold lastFingerprint?
  rw [List.filter_append]
  by_cases same : a.method = method
  · rw [if_pos same, List.filter_cons_of_pos (by simpa using same), List.filter_nil,
      List.getLast?_concat, Option.map_some]
  · rw [if_neg same, List.filter_cons_of_neg (by simpa using same), List.filter_nil,
      List.append_nil]

/-! ### Installations -/

namespace Install

variable {host : Host} {config : InstallConfig}

/-- A descriptor over the table of a host leaves a sound body sound. -/
theorem patch_sound {symbols : SymbolTable} {body b : Body} {d : Descriptor}
    (sound : body.Sound symbols) (known : d.template.KnownIn symbols)
    (success : patch symbols config body d = .ok b) : b.Sound symbols := by
  obtain ⟨anchor, -, success⟩ := Except.bind_eq_ok success
  obtain ⟨s, spliced, success⟩ := Except.bind_eq_ok success
  cases success
  exact Splice.splice_sound sound known (.inl rfl) (Except.mapError_eq_ok.mp spliced)

/-- The staged bodies are sound bodies of methods of the host, and the report names these methods,
    each with the fingerprint of its body if methods have identities of their own. -/
structure Recorded (host : Host) (p : Staging) : Prop where
  sound : ∀ b ∈ p.staged, b.Sound host.symbols
  targets : ∀ b ∈ p.staged, (host.body? b.method).isSome
  named : ∀ a ∈ p.applied, ∃ m, (host.body? m).isSome ∧ host.methodName m = a.method
  last : host.symbols.Plain → ∀ m, host.symbols.hasMethod m →
    InstallReport.lastFingerprint? ⟨p.applied⟩ (host.methodName m) =
      (p.staged.find? m).map (Fingerprint.ofBody host.symbols)

theorem recorded_start (host : Host) : Recorded host ⟨∅, [], []⟩ where
  sound := fun _ member => absurd member List.not_mem_nil
  targets := fun _ member => absurd member List.not_mem_nil
  named := fun _ member => absurd member List.not_mem_nil
  last := fun _ _ _ => rfl

section Recorded

variable (sound : host.Sound)
include sound

/-- Staging one more descriptor. -/
theorem Recorded.stage {p : Staging} (recorded : Recorded host p) {d : Descriptor}
    (known : d.template.KnownIn host.symbols) : Recorded host (stage host config p d) := by
  rw [stage_eq]
  cases tried : outcome host config p d with
  | ok made =>
      obtain ⟨body, a⟩ := made
      have applied := outcome_eq_ok tried
      have bodyMethod := applyOne_method applied
      obtain ⟨stored, found, patched, -, method, fingerprint⟩ := applyOne_eq_ok applied
      obtain ⟨inHost, target⟩ := Host.body?_eq_some_iff.mp found
      have targetKnown : host.symbols.hasMethod d.target :=
        target ▸ (sound.bodies stored inHost).method
      have current : ((p.staged.find? d.target).getD stored).Sound host.symbols := by
        cases staged : p.staged.find? d.target with
        | none => exact sound.bodies stored inHost
        | some b => exact recorded.sound b (Bodies.find?_eq_some_iff.mp staged).1
      rw [Staging.note_ok]
      refine {
        sound := fun b member => ?_
        targets := fun b member => ?_
        named := fun a' member => ?_
        last := fun names m knownM => ?_ }
      · rcases Bodies.mem_insert member with rfl | old
        · exact patch_sound current known patched
        · exact recorded.sound b old
      · rcases Bodies.mem_insert member with rfl | old
        · rw [bodyMethod, found]
          rfl
        · exact recorded.targets b old
      · rcases List.mem_append.mp member with old | new
        · exact recorded.named a' old
        · rw [List.mem_singleton.mp new]
          exact ⟨d.target, by rw [found]; rfl, method.symm⟩
      · rw [InstallReport.lastFingerprint?_append, Bodies.find?_insert, method, bodyMethod]
        by_cases same : d.target = m
        · rw [if_pos (congrArg _ same), if_pos same, fingerprint, Option.map_some]
        · have differs : host.methodName d.target ≠ host.methodName m := fun equal =>
            same (sound.symbols.methodName_inj names targetKnown knownM equal)
          rw [if_neg differs, if_neg same]
          exact recorded.last names m knownM
  | error fault => exact { recorded with }

theorem Recorded.foldl {p : Staging} (recorded : Recorded host p) {ds : List Descriptor}
    (known : ∀ d ∈ ds, d.template.KnownIn host.symbols) :
    Recorded host (ds.foldl (Install.stage host config) p) := by
  induction ds generalizing p with
  | nil => exact recorded
  | cons d rest ih =>
      obtain ⟨first, others⟩ := List.forall_mem_cons.mp known
      exact ih (recorded.stage sound first) others

end Recorded

end Install

/-! ### Hosts after an installation -/

namespace Host

variable {h h' : Host} {ds : List Descriptor} {config : InstallConfig} {report : InstallReport}

/-- What an installation that succeeds has staged and committed. -/
theorem install_eq_ok (sound : h.Sound) (known : ∀ d ∈ ds, d.template.KnownIn h.symbols)
    (success : h.install ds config = (.ok report, h')) :
    ∃ p : Install.Staging, Install.Recorded h p ∧ report = ⟨p.applied⟩ ∧
      h' = Install.committed h p := by
  obtain ⟨-, reported, after⟩ := Install.install_eq_ok_iff.mp success
  exact ⟨_, (Install.recorded_start h).foldl sound known, reported, after⟩

/-- An installation of templates over the table of a sound host leaves it sound. -/
theorem install_sound (sound : h.Sound) (known : ∀ d ∈ ds, d.template.KnownIn h.symbols)
    (success : h.install ds config = (.ok report, h')) : h'.Sound := by
  obtain ⟨p, recorded, -, rfl⟩ := install_eq_ok sound known success
  exact ⟨sound.symbols, sound.legible, fun b member =>
    (Bodies.mem_insertAll member).elim (recorded.sound b) (sound.bodies b)⟩

/-- The report of an installation names methods with bodies, and gives last the fingerprints of
    these bodies. -/
theorem install_reports (sound : h.Sound) (known : ∀ d ∈ ds, d.template.KnownIn h.symbols)
    (success : h.install ds config = (.ok report, h')) :
    (∀ a ∈ report.applied, ∃ b ∈ h'.bodies, h'.methodName b.method = a.method) ∧
      (h'.symbols.Plain → ∀ b ∈ h'.bodies,
        ∀ f ∈ report.lastFingerprint? (h'.methodName b.method),
          f = Fingerprint.ofBody h'.symbols b) := by
  have sound' := install_sound sound known success
  obtain ⟨p, recorded, rfl, rfl⟩ := install_eq_ok sound known success
  constructor
  · intro a member
    obtain ⟨m, stored, method⟩ := recorded.named a member
    have some_ : ((Install.committed h p).body? m).isSome := by
      rw [Install.body?_committed, Option.isSome_or, stored, Bool.or_true]
    obtain ⟨b, found⟩ := Option.isSome_iff_exists.mp some_
    obtain ⟨inside, rfl⟩ := body?_eq_some_iff.mp found
    exact ⟨b, inside, method⟩
  · intro plain b member f last
    have last : f ∈ InstallReport.lastFingerprint? ⟨p.applied⟩ (h.methodName b.method) := last
    rw [recorded.last plain b.method (sound'.bodies b member).method] at last
    obtain ⟨staged, found, rfl⟩ := Option.map_eq_some_iff.mp last
    have now := body?_eq_some_iff.mpr ⟨member, rfl⟩
    rw [Install.body?_committed, found, Option.some_or] at now
    exact congrArg _ (Option.some.inj now)

end Host

end HookSplice
