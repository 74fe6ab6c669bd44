import HookSplice.Proofs.AnchorMatches
import HookSplice.Proofs.Batches
import HookSplice.Proofs.ClosedTemplates
import Mathlib.Algebra.GroupWithZero.Nat
import Mathlib.Data.List.Chain

/-!
# Installation reports tell the truth

A record speaks of two bodies that nobody keeps: the one that a hook was spliced into, and the one
that came out.  Taken in order, the records for a method lead from the body that it had before the
installation to the one that is committed, each from the body to which the record before it has
led.  The chain of fingerprints and the sum of the inserted instructions follow from this.
-/

namespace HookSplice

/-! ### The deny label of a splice -/

namespace Splice

variable {symbols : SymbolTable} {options : SpliceOptions} {body : Body} {point : Nat}
  {t : Template}

namespace Sited

variable {signature : MethodDef} {deny : DenyTarget} {site : DenySite}

/-- Finding the deny target changes no instruction at the splice point. -/
theorem getElem?_point (sited : Sited body signature point deny site) :
    site.body.code[point]? = body.code[point]? := by
  cases sited with
  | label => rfl
  | @anchor a target _ follows =>
      simp only [attachAt, List.getElem?_modify, if_neg (Nat.ne_of_gt follows), id_map']
  | returning => rfl

/-- A template that names its deny label gets this one. -/
theorem label_eq {l : Label} (sited : Sited body signature point (.label l) site) :
    site.label = l := by
  cases sited
  rfl

end Sited

namespace Done

variable (d : Done symbols options body point t)

theorem length_run : d.run.length = t.count :=
  Template.length_materialize d.expanded

/-- The deny position lies behind the inserted instructions. -/
theorem le_denyPosition : point + d.run.length ≤ d.denyPosition := by
  unfold denyPosition
  cases target : d.site.target with
  | none => exact Nat.add_le_add_right (Nat.le_of_lt d.inside) _
  | some target' =>
      have follows := ((denySite_eq_ok d.sited).target_attached target).1
      exact Nat.add_le_add_right (Nat.le_of_lt follows) _

/-- The last inserted instruction is a conditional branch to the deny label. -/
theorem branches_to_deny : ∃ ins, d.result.code[point + (t.count - 1)]? = some ins ∧
    ins.opcode.isConditionalBranch ∧ ins.target? = some d.site.label := by
  obtain ⟨front, last, split, conditional, operand⟩ := d.expansion.final
  have offset : t.count - 1 = front.length := by
    rw [← d.length_run, split, List.length_append, List.length_singleton, Nat.add_sub_cancel]
  have here : d.run[front.length]? = some last := by
    rw [split, List.getElem?_concat_length]
  obtain ⟨ins, there, alike⟩ := d.getElem?_inside here
  refine ⟨ins, offset ▸ there, alike.1 ▸ conditional, ?_⟩
  rw [alike.target?, Instruction.target?, operand]

end Done

/-- What a splice does about its deny label: it is the one that the template names, if it names one,
    the last of the inserted instructions branches to it, and it stands behind them. -/
theorem splice_denies {s : Spliced} (success : splice symbols options body point t = .ok s) :
    (∀ l, t.deny = .label l → s.denyLabel = l) ∧
    (∃ ins, s.body.code[point + (t.count - 1)]? = some ins ∧ ins.opcode.isConditionalBranch ∧
      ins.target? = some s.denyLabel) ∧
    point + t.count ≤ s.denyPosition ∧
    ∃ ins, s.body.code[s.denyPosition]? = some ins ∧ s.denyLabel ∈ ins.labels := by
  obtain ⟨d, -, -, rfl⟩ := splice_eq_ok success
  refine ⟨fun l named => ?_, d.branches_to_deny, d.length_run ▸ d.le_denyPosition, d.deny_attached⟩
  exact Sited.label_eq (named ▸ denySite_eq_ok d.sited)

end Splice

/-! ### Records -/

/-- What the record of a hook says about the body that the hook was spliced into, and about the one
    that came out. -/
structure AppliedPatch.Records (host : Host) (config : InstallConfig) (d : Descriptor)
    (current next : Body) (a : AppliedPatch) : Prop where
  hook : a.hook = d.hook
  method : a.method = host.methodName d.target
  before : a.fingerprintBefore = Fingerprint.ofBody host.symbols current
  after : a.fingerprintAfter = Fingerprint.ofBody host.symbols next
  size : next.size = current.size + a.inserted
  found : a.found = d.anchor.locateAll current.code
  /-- The splice point is the selected match plus the offset. -/
  point : ∃ matched ∈ a.found, d.anchor.occurrence.Selects a.found matched ∧
    (a.point : Int) = matched + d.anchor.offset.toInt
  rehomed : ∃ ins, current.code[a.point]? = some ins ∧ a.rehomedLabels = ins.labels.length
  /-- The deny label is that of the splice, to which its last instruction branches. -/
  denied : ∃ s, splice host.symbols config.spliceOptions current a.point d.template = .ok s ∧
    s.body = next ∧ (∀ l, d.template.deny = .label l → s.denyLabel = l) ∧
    (∃ ins, next.code[a.point + (d.template.count - 1)]? = some ins ∧
      ins.opcode.isConditionalBranch ∧ ins.target? = some s.denyLabel) ∧
    a.point + d.template.count ≤ a.denyPosition ∧
    ∃ ins, next.code[a.denyPosition]? = some ins ∧ s.denyLabel ∈ ins.labels

theorem Occurrence.Selects.mem {occurrence : Occurrence} {found : List Nat} {matched : Nat}
    (selects : occurrence.Selects found matched) : matched ∈ found := by
  cases occurrence with
  | only => exact selects ▸ List.mem_singleton_self _
  | first => exact List.mem_of_mem_head? selects
  | last => exact List.mem_of_getLast? selects
  | nth => exact List.mem_of_getElem? selects

namespace Install

variable {host : Host} {config : InstallConfig}

/-- The record of a splice that succeeds is true of it. -/
theorem records_recordOf {d : Descriptor} {current : Body} {anchor : AnchorMatch} {s : Spliced}
    (resolved : d.anchor.resolve current.code = .ok anchor)
    (spliced : splice host.symbols config.spliceOptions current anchor.point d.template = .ok s) :
    (recordOf host d current anchor s).Records host config d current s.body := by
  obtain ⟨found, selects, point, -⟩ := Anchor.resolve_eq_ok_iff.mp resolved
  obtain ⟨named, branch, behind, denied⟩ := Splice.splice_denies spliced
  obtain ⟨done, -, -, result⟩ := Splice.splice_eq_ok spliced
  have grows : current.size ≤ s.body.size := by
    rw [result, done.size_eq]
    omega
  rw [← found] at selects
  exact {
    hook := rfl
    method := rfl
    before := rfl
    after := rfl
    size := (Nat.add_sub_cancel' grows).symm
    found := found
    point := ⟨anchor.matched, selects.mem, selects, point⟩
    rehomed := by
      have here := List.getElem?_eq_getElem done.inside
      refine ⟨_, here, ?_⟩
      show s.rehomed.length = _
      rw [result]
      simp only [Splice.labelsAt]
      rw [(Splice.denySite_eq_ok done.sited).getElem?_point, here]
      rfl
    denied := ⟨s, spliced, rfl, named, branch, behind, denied⟩ }

/-- A descriptor that applies is recorded truthfully. -/
theorem applyOne_records {staged : Bodies} {d : Descriptor} {body : Body} {a : AppliedPatch}
    (success : applyOne host config staged d = .ok (body, a)) :
    ∃ current, (staged.find? d.target).or (host.body? d.target) = some current ∧
      a.Records host config d current body := by
  obtain ⟨stored, _, anchor, s, found, -, rfl, resolved, spliced, rfl, rfl⟩ :=
    applyOne_steps success
  refine ⟨(staged.find? d.target).getD stored, ?_, records_recordOf resolved spliced⟩
  rw [found]
  cases staged.find? d.target <;> rfl

/-- Records that, taken in order, lead from one body to another. -/
inductive Leads (host : Host) (config : InstallConfig) :
    Body → List (Descriptor × AppliedPatch) → Body → Prop
  | nil (body : Body) : Leads host config body [] body
  | cons {current next last : Body} {d : Descriptor} {a : AppliedPatch}
      {rest : List (Descriptor × AppliedPatch)}
      (records : a.Records host config d current next) (later : Leads host config next rest last) :
      Leads host config current ((d, a) :: rest) last

namespace Leads

variable {first last : Body} {records : List (Descriptor × AppliedPatch)}

/-- The first record starts from the fingerprint of the first body. -/
theorem head (leads : Leads host config first records last) :
    ∀ r ∈ records.head?, r.2.fingerprintBefore = Fingerprint.ofBody host.symbols first := by
  intro r here
  cases leads with
  | nil => cases here
  | cons records later =>
      obtain rfl := Option.some.inj here
      exact records.before

/-- Each later record starts from the fingerprint with which the one before it ends. -/
theorem chain (leads : Leads host config first records last) :
    records.IsChain fun r r' => r'.2.fingerprintBefore = r.2.fingerprintAfter := by
  induction leads with
  | nil => exact .nil
  | cons records later ih =>
      refine List.isChain_cons.mpr ⟨fun r here => ?_, ih⟩
      exact (later.head r here).trans records.after.symm

/-- The last record ends with the fingerprint of the last body. -/
theorem final (leads : Leads host config first records last) :
    ∀ r ∈ records.getLast?, r.2.fingerprintAfter = Fingerprint.ofBody host.symbols last := by
  intro r here
  induction leads with
  | nil => cases here
  | cons records later ih =>
      cases later with
      | nil =>
          obtain rfl := Option.some.inj here
          exact records.after
      | cons => exact ih here

/-- The last body is longer than the first one by the instructions that the records count. -/
theorem size (leads : Leads host config first records last) :
    last.size = first.size + (records.map fun r => r.2.inserted).sum := by
  induction leads with
  | nil => rfl
  | cons records later ih =>
      rw [ih, records.size, List.map_cons, List.sum_cons, Nat.add_assoc]

end Leads

/-- A descriptor that is staged without a failure adds one record, and a body to which the record
    leads. -/
theorem stage_records {p : Staging} {d : Descriptor}
    (none : (stage host config p d).errors = []) :
    ∃ current body a, (p.staged.find? d.target).or (host.body? d.target) = some current ∧
      (host.body? d.target).isSome ∧ body.method = d.target ∧
      a.Records host config d current body ∧
      stage host config p d =
        { p with staged := p.staged.insert body, applied := p.applied ++ [a] } := by
  rw [stage_eq] at none ⊢
  cases tried : outcome host config p d with
  | ok made =>
      obtain ⟨body, a⟩ := made
      have applied := outcome_eq_ok tried
      obtain ⟨current, found, records⟩ := applyOne_records applied
      obtain ⟨stored, inHost, -⟩ := applyOne_eq_ok applied
      exact ⟨current, body, a, found, by simp [inHost], applyOne_method applied, records, rfl⟩
  | error fault =>
      rw [tried] at none
      exact absurd none (by simp)

/-- The records that are added for a list of descriptors, one for each, lead for every method from
    the body that it had to the one that it has then. -/
theorem foldl_stage_leads {p : Staging} {ds : List Descriptor}
    (none : (ds.foldl (stage host config) p).errors = []) :
    ∃ records, (ds.foldl (stage host config) p).applied = p.applied ++ records ∧
      List.Forall₂ (fun d a => a.hook = d.hook ∧ a.method = host.methodName d.target ∧
        (host.body? d.target).isSome) ds records ∧
      ∀ method b, (p.staged.find? method).or (host.body? method) = some b → ∃ b',
        ((ds.foldl (stage host config) p).staged.find? method).or (host.body? method) =
          some b' ∧
        Leads host config b ((ds.zip records).filter fun r => r.1.target = method) b' := by
  induction ds generalizing p with
  | nil => exact ⟨[], (List.append_nil _).symm, .nil, fun method b now => ⟨b, now, .nil b⟩⟩
  | cons d rest ih =>
      obtain ⟨current, body, a, found, inHost, target, records, staged⟩ :=
        stage_records (errors_of_foldl_stage none)
      obtain ⟨others, applied, named, leads⟩ := ih none
      rw [staged] at applied leads
      refine ⟨a :: others, ?_, .cons ⟨records.hook, records.method, inHost⟩ named, ?_⟩
      · rw [List.foldl_cons, staged, applied, List.append_assoc]
        rfl
      · intro method b now
        rw [List.foldl_cons, staged, List.zip_cons_cons]
        have later := leads method
        simp only [Bodies.find?_insert, target] at later
        by_cases same : d.target = method
        · subst same
          obtain rfl := Option.some.inj (found.symm.trans now)
          obtain ⟨b', after, leads'⟩ := later body (by rw [if_pos rfl, Option.some_or])
          refine ⟨b', after, ?_⟩
          rw [List.filter_cons_of_pos (by simp)]
          exact .cons records leads'
        · rw [if_neg same] at later
          rw [List.filter_cons_of_neg (by simpa using same)]
          exact later b now

end Install

/-- The records of a report for one method, with their descriptors. -/
def InstallReport.recordsFor (r : InstallReport) (ds : List Descriptor) (method : MethodId) :
    List (Descriptor × AppliedPatch) :=
  (ds.zip r.applied).filter fun record => record.1.target = method

/-- The report of an installation that succeeds has one record for each descriptor.  The records for
    a method lead from the body that it had to the one that it has now: the first one starts from
    the fingerprint of the old body, each later one from that with which the one before it ends, the
    last one ends with that of the new body, and the new body is longer by the instructions that
    they count. -/
theorem Host.install_records {host after : Host} {config : InstallConfig} {ds : List Descriptor}
    {report : InstallReport} (success : host.install ds config = (.ok report, after)) :
    List.Forall₂ (fun d a => a.hook = d.hook ∧ a.method = host.methodName d.target) ds
      report.applied ∧
    after.symbols = host.symbols ∧
    ∀ method, report.recordsFor ds method ≠ [] → ∃ old new,
      host.body? method = some old ∧ after.body? method = some new ∧
      Install.Leads host config old (report.recordsFor ds method) new ∧
      ((report.recordsFor ds method).head?.map fun r => r.2.fingerprintBefore) =
        some (Fingerprint.ofBody host.symbols old) ∧
      (report.recordsFor ds method).IsChain (fun r r' =>
        r'.2.fingerprintBefore = r.2.fingerprintAfter) ∧
      ((report.recordsFor ds method).getLast?.map fun r => r.2.fingerprintAfter) =
        some (Fingerprint.ofBody after.symbols new) ∧
      new.size = old.size + ((report.recordsFor ds method).map fun r => r.2.inserted).sum := by
  obtain ⟨none, rfl, rfl⟩ := Install.install_eq_ok_iff.mp success
  obtain ⟨records, applied, named, leads⟩ := Install.foldl_stage_leads none
  obtain ⟨-, current, seen, stands, -⟩ :=
    Install.foldl_stage config (Install.stands_start host) ds
  rw [List.nil_append] at applied
  simp only [applied, InstallReport.recordsFor]
  refine ⟨named.imp fun _ _ facts => ⟨facts.1, facts.2.1⟩, rfl, ?_⟩
  intro method nonempty
  obtain ⟨⟨d, a⟩, member⟩ := List.exists_mem_of_ne_nil _ nonempty
  obtain ⟨inReport, target⟩ := List.mem_filter.mp member
  obtain rfl : d.target = method := by simpa using target
  obtain ⟨old, stored⟩ := Option.isSome_iff_exists.mp
    ((List.forall₂_iff_zip.mp named).2 inReport).2.2
  obtain ⟨new, now, leads⟩ := leads d.target old stored
  have committed : (Install.committed host
      (ds.foldl (Install.stage host config) ⟨∅, [], []⟩)).body? d.target = some new :=
    (Install.body?_committed _ _ _).trans now
  refine ⟨old, new, stored, committed, leads, ?_, leads.chain, ?_, leads.size⟩
  · rw [List.head?_eq_some_head nonempty, Option.map_some]
    exact congrArg some (leads.head _ (List.head?_eq_some_head nonempty))
  · rw [List.getLast?_eq_some_getLast nonempty, Option.map_some]
    exact congrArg some (leads.final _ (List.getLast?_eq_some_getLast nonempty))

/-- A hook on the last return of the method that `doorHook` is for: behind `doorHook`, this is the
    early return, which carries a label. -/
def latchHook : Descriptor :=
  { doorHook with
    hook := "door.latch"
    anchor := ⟨.instruction ⟨some .ret, none⟩, .last, 0⟩ }

theorem doorHost_install_records :
    ∃ report after old new,
      doorHost.install [doorHook, latchHook] .default = (.ok report, after) ∧
      doorHost.body? ⟨0⟩ = some old ∧ after.body? ⟨0⟩ = some new ∧
      ((report.recordsFor [doorHook, latchHook] ⟨0⟩).map fun r => (r.2.hook, r.2.point, r.2.found,
        r.2.inserted, r.2.rehomedLabels, r.2.denyPosition)) =
          [("door.open", 0, [0], 3, 0, 3), ("door.latch", 3, [2, 3], 3, 1, 6)] ∧
      Install.Leads doorHost .default old (report.recordsFor [doorHook, latchHook] ⟨0⟩) new ∧
      new.size = 7 := by
  obtain ⟨report, after, installed, listed, inserted⟩ : ∃ report after,
      doorHost.install [doorHook, latchHook] .default = (.ok report, after) ∧
      ((report.recordsFor [doorHook, latchHook] ⟨0⟩).map fun r => (r.2.hook, r.2.point, r.2.found,
        r.2.inserted, r.2.rehomedLabels, r.2.denyPosition)) =
          [("door.open", 0, [0], 3, 0, 3), ("door.latch", 3, [2, 3], 3, 1, 6)] ∧
      ((report.recordsFor [doorHook, latchHook] ⟨0⟩).map fun r => r.2.inserted) = [3, 3] :=
    ⟨_, _, Except.run_eq_ok_value (by decide +kernel), by decide +kernel, by decide +kernel⟩
  have nonempty : report.recordsFor [doorHook, latchHook] ⟨0⟩ ≠ [] := by
    intro empty
    rw [empty] at listed
    cases listed
  obtain ⟨-, -, chains⟩ := Host.install_records installed
  obtain ⟨old, new, stored, now, leads, -, -, -, size⟩ := chains ⟨0⟩ nonempty
  refine ⟨report, after, old, new, installed, stored, now, listed, leads, ?_⟩
  have alone : old.size = 1 := by
    cases stored
    rfl
  rw [size, inserted, alone]
  rfl

end HookSplice
