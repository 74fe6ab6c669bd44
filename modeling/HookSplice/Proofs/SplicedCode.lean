import HookSplice.Proofs.SpliceVerification
import Mathlib.Data.List.Nodup

/-!
# What a splice changes

A splice only inserts.  Leaving labels aside, the new code is the old one with the run in between
and the stub behind it; labels and region boundaries follow the old instructions, the inserted
ones join the regions around the splice point, and the stub stands outside of all regions.  Every
label in use is attached once, and lies below the allocator, so that a body that was spliced can be
spliced again.  This holds as long as label numbers do not start over; a build that lets them do so
hands out a label that stands in the body already.
-/

namespace HookSplice

/-- A label is in use in a body when an instruction carries it or names it. -/
def Body.Uses (body : Body) (l : Label) : Prop :=
  ∃ ins ∈ body.code, l ∈ ins.labels ∨ ins.target? = some l

/-- The instruction without its labels. -/
def Instruction.bare (ins : Instruction) : Instruction :=
  .of ins.opcode ins.operand

/-- The bodies that come from parts, from an image, or from a splice into such a body, while there
    are numbers for their labels. -/
inductive Body.Built : Body → Prop
  | ofParts (method : MethodId) {code : List Instruction} (locals : List TypeId)
      (regions : List Region) (counted : Code.mentionsLast code = false) :
      Built (ofParts method code locals regions)
  | read {image : String} {host : Host} {body : Body} (success : Image.read image = .ok host)
      (member : body ∈ host.bodies) : Built body
  | spliced {symbols : SymbolTable} {options : SpliceOptions} {body : Body} {point : Nat}
      {t : Template} {s : Spliced} (built : Built body)
      (room : options.overflow = .stops ∨ body.Spares t.labelCount)
      (success : splice symbols options body point t = .ok s) : Built s.body

theorem Body.Built.fresh {body : Body} (built : body.Built) : body.Fresh := by
  induction built with
  | ofParts _ _ _ counted => exact ofParts_fresh _ _ _ counted
  | read success member => exact Image.read_fresh success _ member
  | spliced _ room success ih => exact Splice.splice_fresh ih room success

/-- In a sound body the labels in use are those attached. -/
theorem Body.Structured.mem_labels {symbols : SymbolTable} {argCount : Nat} {body : Body}
    (structured : body.Structured symbols argCount) {l : Label} (used : body.Uses l) :
    l ∈ Code.labels body.code := by
  obtain ⟨ins, member, attached | named⟩ := used
  · exact List.mem_flatMap.mpr ⟨ins, member, attached⟩
  · obtain ⟨i, here⟩ := List.mem_iff_getElem?.mp member
    have range := (StackMap.operandFault?_eq_none_iff.mp (structured.operands here)).2
    unfold Instruction.target? at named
    split at named
    · next operand =>
        cases named
        unfold OperandInRange at range
        rw [operand] at range
        by_contra absent
        have missing : body.position? l = none := Code.position?_eq_none_iff.mpr absent
        simp [missing] at range
    · cases named

/-- A region has no positions behind the end of the body. -/
theorem Region.outside_of_inBounds {r : Region} {size : Nat} (inside : StackMap.inBounds size r)
    {i : Nat}
    (beyond : size ≤ i) : r.protects i = false ∧ r.handles i = false := by
  simp only [StackMap.inBounds, Bool.and_eq_true, decide_eq_true_eq] at inside
  simp only [Region.protects, Region.handles, Bool.and_eq_false_imp, decide_eq_true_eq,
    decide_eq_false_iff_not]
  omega

namespace Splice

/-- What the body `s.body` has in common with the body before the splice, `run` being the inserted
    instructions and `stub` those at the end. -/
structure Inserts (body : Body) (t : Template) (s : Spliced) (run stub : List Instruction) :
    Prop where
  count : run.length = s.count
  code : s.body.code.map Instruction.bare =
    (body.code.take s.point ++ run ++ body.code.drop s.point ++ stub).map Instruction.bare
  position : ∀ l p, body.position? l = some p →
    s.body.position? l = some (if p ≤ s.point then p else p + s.count)
  attached : ∀ l, s.body.Uses l → (Code.labels s.body.code).count l = 1
  new : ∀ l ∈ Code.labels run, ¬ body.Uses l
  deny : t.deny = .label s.denyLabel ∨ ¬ body.Uses s.denyLabel
  denied : s.body.position? s.denyLabel = some s.denyPosition
  regions : List.Forall₂ (fun old new => new.kind = old.kind ∧
      (∀ i < body.size, new.protects (moved s.point s.count i) = old.protects i ∧
        new.handles (moved s.point s.count i) = old.handles i) ∧
      (∀ o < s.count, new.protects (s.point + o) = old.protects s.point ∧
        new.handles (s.point + o) = old.handles s.point) ∧
      ∀ i, body.size + s.count ≤ i → new.protects i = false ∧ new.handles i = false)
    body.regions s.body.regions
  above : ∀ l, s.body.Uses l → l.number < s.body.nextLabel.toNat

theorem map_bare_withLabels (labels : List Label) (run : List Instruction) :
    (withLabels labels run).map Instruction.bare = run.map Instruction.bare := by
  cases run <;> rfl

theorem map_bare_insertRun {code run : List Instruction} {point : Nat}
    (inside : point < code.length) : (insertRun code point run).map Instruction.bare =
      (code.take point ++ run ++ code.drop point).map Instruction.bare := by
  rw [insertRun_eq (List.getElem?_eq_getElem inside), List.drop_eq_getElem_cons inside]
  simp only [List.map_append, List.map_cons, map_bare_withLabels, List.append_assoc]
  rfl

theorem map_bare_attachAt (code : List Instruction) (target : Nat) (labels : List Label) :
    (attachAt code target labels).map Instruction.bare = code.map Instruction.bare := by
  unfold attachAt
  induction code generalizing target with
  | nil => cases target <;> rfl
  | cons ins rest ih =>
      cases target with
      | zero => rfl
      | succ target => rw [List.modify_succ_cons, List.map_cons, ih, List.map_cons]

theorem Sited.map_bare {body : Body} {signature : MethodDef} {point : Nat} {deny : DenyTarget}
    {site : DenySite} (sited : Sited body signature point deny site) :
    site.body.code.map Instruction.bare = body.code.map Instruction.bare := by
  cases sited with
  | label => rfl
  | anchor => exact map_bare_attachAt ..
  | returning => rfl

/-- The deny label is one of the body, or the next one of its allocator. -/
theorem Sited.label_cases {body : Body} {signature : MethodDef} {point : Nat} {deny : DenyTarget}
    {site : DenySite} (sited : Sited body signature point deny site) :
    deny = .label site.label ∨ site.label = ⟨body.nextLabel⟩ := by
  cases sited with
  | label => exact Or.inl rfl
  | anchor => exact Or.inr rfl
  | returning => exact Or.inr rfl

theorem denyDelta_of_checkRun {t : Template} {run : RunEffect} {point depth : Nat} {map : StackMap}
    {site : DenySite} {delta : Int} (success : checkRun t run point depth map site = .ok delta) :
    denyDelta run site.label = .ok delta := by
  unfold checkRun at success
  split at success
  · cases success
  split at success
  · cases success
  obtain ⟨delta', agreed, success⟩ := Except.bind_eq_ok success
  split at success
  · cases success
    exact agreed
  · split at success
    · cases success
      exact agreed
    · cases success

namespace Done

variable {symbols : SymbolTable} {options : SpliceOptions} {body : Body} {point : Nat}
  {t : Template} (d : Done symbols options body point t)

theorem map_bare_code : d.result.code.map Instruction.bare =
    (body.code.take point ++ d.run ++ body.code.drop point ++ d.stub).map Instruction.bare := by
  have same := (denySite_eq_ok d.sited).map_bare
  rw [d.code_eq, List.map_append, map_bare_insertRun d.point_lt]
  simp only [List.map_append, List.map_take, List.map_drop, same]

include d in
/-- A label of the original body lies below the allocator. -/
theorem number_lt (fresh : body.Fresh) {l : Label} (used : body.Uses l) :
    l.number < body.nextLabel.toNat :=
  fresh l (d.verified.structured.mem_labels used)

/-- Every label in use in the new body is attached to one of its instructions. -/
theorem mem_labels (distinct : (Code.labels d.result.code).Nodup) {l : Label}
    (used : d.result.Uses l) : l ∈ Code.labels d.result.code := by
  obtain ⟨ins, member, attached | named⟩ := used
  · exact List.mem_flatMap.mpr ⟨ins, member, attached⟩
  · by_contra absent
    have missing : d.result.position? l = none := Code.position?_eq_none_iff.mpr absent
    obtain ⟨p, here⟩ := List.mem_iff_getElem?.mp member
    cases d.origin here with
    | @moved i _ old there alike =>
        rw [alike.target?] at named
        have known : l ∈ Code.labels body.code :=
          d.verified.structured.mem_labels ⟨old, List.mem_of_getElem? there, Or.inr named⟩
        cases found : body.position? l with
        | none => exact Code.position?_eq_none_iff.mp found known
        | some q => simp [d.position?_moved distinct found] at missing
    | inside there alike =>
        rw [alike.target?] at named
        rcases d.resolves distinct (d.run_target there named).2.2 with ⟨-, found⟩ | ⟨o, -, -, found⟩
        · simp [found] at missing
        · simp [found] at missing
    | stub there =>
        obtain ⟨v, fits, code⟩ := d.stub_cases there
        rw [code] at there
        rw [(returnStub_sound symbols body fits there).2.1] at named
        cases named

end Done

/-- A splice into a body only inserts the template, as the body expands it, and the return stub that
    its deny target asks for. -/
theorem splice_inserts {symbols : SymbolTable} {options : SpliceOptions} {body : Body} {point : Nat}
    {t : Template} {s : Spliced} (built : body.Built)
    (room : options.overflow = .stops ∨ body.Spares t.labelCount)
    (success : splice symbols options body point t = .ok s) :
    s.point = point ∧ ∃ signature site run wide effect delta,
      symbols.method? body.method = some signature ∧
      denySite options.overflow body signature point t.deny = .ok site ∧
      t.materialize options.overflow site.body s.denyLabel = .ok (run, wide) ∧
      RunEffect.ofRun symbols signature run = .ok effect ∧
      denyDelta effect s.denyLabel = .ok delta ∧
      Inserts body t s run (stubFor t.deny s.depth delta s.denyLabel) := by
  have fresh := built.fresh
  have above := (Body.Built.spliced built room success).fresh
  obtain ⟨d, -, -, rfl⟩ := splice_eq_ok success
  have spares := d.spares room
  have distinct := d.distinct_of_fresh fresh spares
  have sited := denySite_eq_ok d.sited
  refine ⟨rfl, d.signature, d.site, d.run, d.wide, d.effect, d.delta, d.declared, d.sited,
    d.expanded, d.computed, denyDelta_of_checkRun d.checked, ?_⟩
  exact {
    count := rfl
    code := d.map_bare_code
    position := by
      intro l p found
      rw [d.position?_moved distinct found, Region.shiftBound]
      simp only [← Nat.not_le, ite_not]
    attached := fun l used => List.count_eq_one_of_mem distinct (d.mem_labels distinct used)
    new := by
      intro l member used
      have below := d.number_lt fresh used
      have := (d.mem_labels_run spares member).1
      have := d.toNat_site spares
      omega
    deny := by
      refine sited.label_cases.imp_right fun next used => ?_
      have below := d.number_lt fresh used
      rw [next] at below
      exact Nat.lt_irrefl _ below
    denied := d.position?_deny distinct
    regions := by
      simp only [d.regions_eq, List.forall₂_map_right_iff]
      refine List.forall₂_same.mpr fun r member => ⟨rfl, ?_, ?_, ?_⟩
      · exact fun i _ => ⟨protects_moved r i, handles_moved r i⟩
      · exact fun o within => ⟨protects_inside r within, handles_inside r within⟩
      · have inside := d.verified.structured.regions r member
        exact fun i => Region.outside_of_inBounds (inBounds_shiftAfter r inside (Nat.le_refl _))
    above := fun l used => above l (d.mem_labels distinct used) }

/-- The guard spliced into a body that has one already: its early return gets a label of its own,
    and the first deny label moves on with its stub. -/
theorem twiceGuardedAdder_inserts :
    ∃ first second, splice adderSymbols ⟨true, 8, .wraps⟩ adder 1 zeroGuard = .ok first ∧
      first.body.Built ∧ first.body.Spares zeroGuard.labelCount ∧
      splice adderSymbols ⟨true, 8, .wraps⟩ first.body 2 zeroGuard = .ok second ∧
      ¬ first.body.Uses second.denyLabel ∧
      second.body.position? first.denyLabel = some (first.denyPosition + 2) ∧
      ∀ l, second.body.Uses l → (Code.labels second.body.code).count l = 1 := by
  obtain ⟨first, success, denied, position, spares⟩ :
      ∃ first, splice adderSymbols ⟨true, 8, .wraps⟩ adder 1 zeroGuard = .ok first ∧
        first.denyPosition = 6 ∧ first.body.position? first.denyLabel = some 6 ∧
        first.body.Spares zeroGuard.labelCount :=
    ⟨_, rfl, rfl, rfl, by decide⟩
  have built : first.body.Built := .spliced (.ofParts _ _ _ rfl) (.inr (by decide)) success
  obtain ⟨second, again, count⟩ :
      ∃ second, splice adderSymbols ⟨true, 8, .wraps⟩ first.body 2 zeroGuard = .ok second ∧
        second.count = 2 := by
    cases success
    exact ⟨_, rfl, rfl⟩
  obtain ⟨point, _, _, _, _, _, _, _, _, _, _, _, inserts⟩ :=
    splice_inserts built (.inr spares) again
  refine ⟨first, second, success, built, spares, again, ?_, ?_, inserts.attached⟩
  · exact inserts.deny.resolve_left nofun
  · rw [inserts.position _ _ position, point, count, denied]
    rfl

/-- Where the labels start over, the mark of the guard gets a label that the body had before the
    splice, and the allocator stands below the label of the return. -/
theorem labelledAdder_inserts_twin :
    labelledAdder.Built ∧ labelledAdder.Uses ⟨0⟩ ∧
    splice adderSymbols ⟨true, 8, .stops⟩ labelledAdder 1 markedGuard = .error .labelsExhausted ∧
    ∃ s, splice adderSymbols ⟨false, 8, .wraps⟩ labelledAdder 1 markedGuard = .ok s ∧
      ⟨0⟩ ∈ Code.labels s.inserted ∧ (Code.labels s.body.code).count ⟨0⟩ = 2 ∧
      s.denyLabel ∈ Code.labels s.body.code ∧ s.body.nextLabel.toNat < s.denyLabel.number :=
  ⟨.ofParts _ _ _ rfl, ⟨_, List.mem_cons_self, .inl (.head _)⟩, rfl, _, rfl, by decide, by decide,
    by decide, by decide⟩

end Splice

end HookSplice
