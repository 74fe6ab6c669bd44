import HookSplice.Proofs.RunPaths
import HookSplice.Proofs.SpliceVerification

/-!
# Denied paths

What the paths through an inserted run carry to the deny label.  The run ends with a branch there,
with the depth at the end of the run.  No path comes below the operands that the run needs on entry.
Hence a return stub pops what stands on the stack when the event is denied, and the depth in front
of it is not negative.  The branch to the deny label is an exit of the run unless the body hands
that label out for a marker of the template; the depth at the end of the run then stands in for
those of the exits.
-/

namespace HookSplice

/-! ### The lowest depths of a run -/

namespace RunEffect

variable {symbols : SymbolTable} {enclosing : MethodDef} {code : List Instruction} {n : Nat}

/-- An instruction takes its operands from those on entry, and leaves no fewer than none behind. -/
theorem Suffices.neg_le_behind (enough : Suffices symbols enclosing code n) {o : Nat} {r : Int}
    {ins : Instruction} {change : StackEffect} (arrived : Arrives symbols enclosing code o r)
    (here : code[o]? = some ins)
    (effect : StackEffect.ofInstruction symbols enclosing ins = .ok change) :
    -(n : Int) ≤ r + change.delta := by
  have pops := enough o r ins change arrived here effect
  unfold StackEffect.delta
  omega

theorem Suffices.neg_le_of_arrives (enough : Suffices symbols enclosing code n) {o : Nat} {r : Int}
    (arrived : Arrives symbols enclosing code o r) : -(n : Int) ≤ r := by
  cases arrived with
  | entry => exact Int.neg_nonpos_of_nonneg (Int.natCast_nonneg n)
  | onward before here effect => exact enough.neg_le_behind before here effect
  | branch before here effect => exact enough.neg_le_behind before here effect

theorem Suffices.neg_le_of_leaves (enough : Suffices symbols enclosing code n) {e : RunExit}
    (leaves : Leaves symbols enclosing code e) : -(n : Int) ≤ e.delta := by
  obtain ⟨r, ins, change, arrived, here, effect, -, -, -, delta⟩ := leaves
  rw [delta]
  exact enough.neg_le_behind arrived here effect

end RunEffect

namespace Splice

/-! ### Deny branches -/

/-- A deny label lies below the allocator of its site when the body, if it is to have the label
    already, has allocated it. -/
theorem Sited.label_lt {body : Body} {signature : MethodDef} {point : Nat} {deny : DenyTarget}
    {site : DenySite} (sited : Sited body signature point deny site)
    (allocated : ∀ l, deny = .label l → l.number < body.nextLabel.toNat)
    (spares : body.Spares deny.labelCount) : site.label.number < site.body.nextLabel.toNat := by
  have next := sited.toNat_nextLabel spares
  cases sited with
  | label => exact allocated _ rfl
  | anchor => exact next ▸ Nat.lt_succ_self _
  | returning => exact next ▸ Nat.lt_succ_self _

/-- What the paths through a run carry that lead to the deny label of a site, when `depth` values
    stand on the stack in front of the run and all deny branches carry `delta`. -/
structure Denies (overflow : Overflow) (symbols : SymbolTable) (signature : MethodDef)
    (body : Body) (t : Template) (depth : Nat) (site : DenySite) (run : List Instruction)
    (effect : RunEffect) (delta : Int) : Prop where
  /-- A deny branch leaves the run.  A deny label that stands in the body must have come from its
      allocator, as in all bodies that are put together from parts, read or spliced, and there must
      be numbers for the labels of the template: one of its markers could take the name of the deny
      label. -/
  exit : (∀ l, t.deny = .label l → l.number < body.nextLabel.toNat) →
    overflow = .stops ∨ body.Spares t.labelCount → ∃ e ∈ effect.exits, e.label = site.label
  common : delta = effect.delta
  lowest : ∀ e ∈ effect.exits, -(effect.needs : Int) ≤ e.delta
  nonneg : 0 ≤ (depth : Int) + delta
  /-- The stub pops as many values as every path has left on the stack that leads to it. -/
  drained : ∀ v, t.deny = .returning v → ∃ left : Nat,
    stubFor t.deny depth delta site.label =
      withLabels [site.label] (List.replicate left (.plain .pop) ++ v.load ++ [.plain .ret]) ∧
    ∀ e, RunEffect.Leaves symbols signature run e → e.label = site.label →
      (depth : Int) + e.delta = left

section Denied

variable {symbols : SymbolTable} {signature : MethodDef} {t : Template} {site : DenySite}
  {run : List Instruction} {wide : Body} {effect : RunEffect} {delta : Int}

/-- The deny branches of a run carry the depth at its end.  If a label of the run hides the deny
    label then no branch leads to it from outside, and the depth at the end stands in. -/
theorem delta_eq_of_denyDelta (expanded : t.Expanded site.body wide site.label run)
    (computed : RunEffect.ofRun symbols signature run = .ok effect)
    (agreed : denyDelta effect site.label = .ok delta) : delta = effect.delta := by
  by_cases hidden : site.label ∈ Code.labels run
  · have apart : ∀ e ∈ effect.exits, e.label ≠ site.label := by
      intro e member same
      obtain ⟨-, -, -, -, -, -, -, -, outside, -⟩ :=
        ((RunEffect.summary_of_ofRun computed).exits e).mp member
      exact Code.position?_eq_none_iff.mp outside (same ▸ hidden)
    rw [denyDelta_of_exits fun e member same => absurd same (apart e member)] at agreed
    exact (Except.ok.inj agreed).symm
  · obtain ⟨e, member, leads, -, last⟩ :=
      expanded.exists_exit (RunEffect.ofRun_eq_ok computed) hidden
    exact (denyDelta_eq_ok agreed member leads).symm.trans last

/-- When a valid template has been expanded for a deny site, its effect is known, its operands stand
    on the stack and its deny branches agree, then they carry the depth at the end of the run, no
    exit lies lower than what the run needs, and a return stub pops exactly what is left. -/
theorem denied_paths {overflow : Overflow} {body : Body} {point depth : Nat}
    (valid : t.fault? = none)
    (sited : denySite overflow body signature point t.deny = .ok site)
    (expanded : t.materialize overflow site.body site.label = .ok (run, wide))
    (computed : RunEffect.ofRun symbols signature run = .ok effect)
    (enough : effect.needs ≤ depth) (agreed : denyDelta effect site.label = .ok delta) :
    Denies overflow symbols signature body t depth site run effect delta := by
  have reserved := spares_of_room sited expanded
  have expanded := Template.materialize_expanded (Template.fault?_eq_none valid) expanded
  have summary := RunEffect.summary_of_ofRun computed
  have common := delta_eq_of_denyDelta expanded computed agreed
  have suffices_ := summary.needs.1
  have ends := suffices_.neg_le_of_arrives ((summary.delta effect.delta).mpr rfl)
  have nonneg : 0 ≤ (depth : Int) + delta := by omega
  refine {
    exit := fun allocated room => ?_
    common := common
    lowest := fun e member => suffices_.neg_le_of_leaves ((summary.exits e).mp member)
    nonneg := nonneg
    drained := fun v returns => ⟨((depth : Int) + delta).toNat, ?_, fun e leaves leads => ?_⟩ }
  · have spares := reserved room
    have sited := denySite_eq_ok sited
    have below := sited.label_lt allocated (spares.le (Nat.le_add_right ..))
    have apart : site.label ∉ Code.labels run := fun hidden =>
      absurd below (Nat.not_lt.mpr ((sited.spares spares).labels.2 _ (expanded.labels ▸ hidden)).1)
    obtain ⟨e, member, leads, -⟩ :=
      expanded.exists_exit (RunEffect.ofRun_eq_ok computed) apart
    exact ⟨e, member, leads⟩
  · rw [returns]
    rfl
  · have carried := denyDelta_eq_ok agreed ((summary.exits e).mpr leaves) leads
    rw [carried, Int.toNat_of_nonneg nonneg]

end Denied

/-- The signature of the method that gives the sum of two numbers. -/
def addition : MethodDef :=
  ⟨⟨0⟩, "add", [⟨1⟩, ⟨1⟩], some ⟨1⟩, true⟩

/-- A template that takes a number off the stack and goes round a loop, with a branch to the deny
    target in the loop and another one behind it. -/
def waitingGuard : Template :=
  ⟨[.emit (.plain .pop), .mark 0, .emit (.of .ldarg (.arg 1)), .branch .brfalse .deny,
    .emit (.of .ldarg (.arg 0)), .branch .brtrue (.fresh 0), .emit (.of .ldarg (.arg 1)),
    .branch .brfalse .deny], [], -1, .returning (.arg 0)⟩

/-- In front of the addition two numbers are on the stack, of which the denied paths leave one. -/
theorem waitingGuard_denies :
    waitingGuard.fault? = none ∧ ∃ site run wide effect,
      denySite .wraps adder addition 2 waitingGuard.deny = .ok site ∧
      waitingGuard.materialize .wraps site.body site.label = .ok (run, wide) ∧
      RunEffect.ofRun adderSymbols addition run = .ok effect ∧ effect.needs ≤ 2 ∧
      denyDelta effect site.label = .ok (-1) ∧
      effect.exits = [⟨2, site.label, -1⟩, ⟨6, site.label, -1⟩] ∧
      Denies .wraps adderSymbols addition adder waitingGuard 2 site run effect (-1) := by
  have valid : waitingGuard.fault? = none := by decide
  obtain ⟨site, run, wide, effect, sited, expanded, computed, enough, agreed, exits⟩ :
      ∃ site run wide effect, denySite .wraps adder addition 2 waitingGuard.deny = .ok site ∧
        waitingGuard.materialize .wraps site.body site.label = .ok (run, wide) ∧
        RunEffect.ofRun adderSymbols addition run = .ok effect ∧ effect.needs ≤ 2 ∧
        denyDelta effect site.label = .ok (-1) ∧
        effect.exits = [⟨2, site.label, -1⟩, ⟨6, site.label, -1⟩] :=
    ⟨_, _, _, _, rfl, rfl, rfl, by decide, rfl, rfl⟩
  exact ⟨valid, site, run, wide, effect, sited, expanded, computed, enough, agreed, exits,
    denied_paths valid sited expanded computed enough agreed⟩

/-- A body in which a label stands that its allocator has not given out. -/
def strayBody : Body :=
  ⟨⟨0⟩, [.of .ldarg (.arg 0), .plain .nop, ⟨.ret, .none, [⟨0⟩]⟩], [], [], 0⟩

/-- A template that places a marker and goes to that label. -/
def markingGuard : Template :=
  ⟨[.mark 0, .emit (.of .ldarg (.arg 1)), .branch .brfalse .deny], [], 0, .label ⟨0⟩⟩

/-- The marker takes the name of the deny label, and the run has no exit at all. -/
theorem strayBody_hides_deny :
    markingGuard.fault? = none ∧ (∃ s, splice adderSymbols ⟨false, 8, .stops⟩ strayBody 1
      markingGuard = .ok s ∧ s.depth = 1) ∧
    ∃ run wide effect,
      denySite .stops strayBody addition 1 markingGuard.deny = .ok ⟨⟨0⟩, some 2, strayBody⟩ ∧
      markingGuard.materialize .stops strayBody ⟨0⟩ = .ok (run, wide) ∧
      RunEffect.ofRun adderSymbols addition run = .ok effect ∧ effect.needs ≤ 1 ∧
      denyDelta effect ⟨0⟩ = .ok effect.delta ∧ ¬ ∃ e ∈ effect.exits, e.label = ⟨0⟩ :=
  ⟨by decide, ⟨_, rfl, rfl⟩, _, _, _, rfl, rfl, rfl, by decide, rfl, nofun⟩

end Splice

end HookSplice
