import HookSplice.Proofs.Expansion
import HookSplice.Proofs.Insertion
import HookSplice.Proofs.Propagation

/-!
# Relocated bodies

The body that a splice makes, seen from the one before: each of its instructions is an old one that
has moved, one of the run, or one of the return stub; no label is attached twice; and every label
resolves to where its instruction has gone.
-/

namespace HookSplice

/-- The allocator of a body lies above every attached label. -/
def Body.Fresh (body : Body) : Prop :=
  ∀ l ∈ Code.labels body.code, l.number < body.nextLabel.toNat

namespace Splice

/-! ### The deny site -/

namespace Sited

variable {body : Body} {signature : MethodDef} {point : Nat} {deny : DenyTarget} {site : DenySite}

theorem length_eq (sited : Sited body signature point deny site) :
    site.body.code.length = body.code.length := by
  cases sited with
  | label => rfl
  | anchor => exact length_attachAt ..
  | returning => rfl

theorem locals_eq (sited : Sited body signature point deny site) :
    site.body.locals = body.locals := by
  cases sited <;> rfl

theorem regions_eq (sited : Sited body signature point deny site) :
    site.body.regions = body.regions := by
  cases sited <;> rfl

theorem getElem? (sited : Sited body signature point deny site) {i : Nat} {ins : Instruction}
    (here : body.code[i]? = some ins) : ∃ ins', site.body.code[i]? = some ins' ∧
      ins'.Alike ins ∧ ins.labels ⊆ ins'.labels := by
  cases sited with
  | label => exact ⟨ins, here, .refl ins, fun _ => id⟩
  | anchor =>
      obtain ⟨ins', here', alike, kept, -⟩ := attachAt_getElem? _ _ here
      exact ⟨ins', here', alike, kept⟩
  | returning => exact ⟨ins, here, .refl ins, fun _ => id⟩

theorem toNat_nextLabel (sited : Sited body signature point deny site)
    (spares : body.Spares deny.labelCount) :
    site.body.nextLabel.toNat = body.nextLabel.toNat + deny.labelCount :=
  (congrArg UInt32.toNat sited.nextLabel_eq).trans spares.nextLabel_advance

/-- What the deny target leaves of the numbers is there for the template. -/
theorem spares (sited : Sited body signature point deny site) {n : Nat}
    (spares : body.Spares (deny.labelCount + n)) : site.body.Spares n := by
  unfold Body.Spares
  rw [sited.toNat_nextLabel (spares.le (Nat.le_add_right ..)), Nat.add_assoc]
  exact spares

/-- All labels of the site lie below its allocator, and so does the deny label. -/
theorem below (sited : Sited body signature point deny site) (fresh : body.Fresh)
    (spares : body.Spares deny.labelCount) :
    site.body.Fresh ∧ site.label.number < site.body.nextLabel.toNat := by
  have next := sited.toNat_nextLabel spares
  cases sited with
  | label found =>
      obtain ⟨ins, here, attached⟩ := Code.exists_of_position? found
      exact ⟨fresh, fresh _ (Code.mem_labels_iff.mpr ⟨_, ins, here, attached⟩)⟩
  | anchor found =>
      have above : body.nextLabel.toNat < (body.nextLabel + 1).toNat := next ▸ Nat.lt_succ_self _
      refine ⟨fun l member => ?_, above⟩
      have perm := labels_attachAt [⟨body.nextLabel⟩] (locate_lt found)
      rcases List.mem_append.mp (perm.mem_iff.mp member) with old | new
      · exact Nat.lt_trans (fresh l old) above
      · obtain rfl := List.mem_singleton.mp new
        exact above
  | returning =>
      have above : body.nextLabel.toNat < (body.nextLabel + 1).toNat := next ▸ Nat.lt_succ_self _
      exact ⟨fun l member => Nat.lt_trans (fresh l member) above, above⟩

theorem fresh_not_mem (fresh : body.Fresh) : ⟨body.nextLabel⟩ ∉ Code.labels body.code :=
  fun member => Nat.lt_irrefl _ (fresh _ member)

theorem distinct (sited : Sited body signature point deny site) (fresh : body.Fresh)
    (distinct : (Code.labels body.code).Nodup) : (Code.labels site.body.code).Nodup := by
  cases sited with
  | label => exact distinct
  | anchor found =>
      rw [(labels_attachAt [⟨body.nextLabel⟩] (locate_lt found)).nodup_iff]
      refine List.nodup_append.mpr ⟨distinct, by simp, fun l old k new equal => ?_⟩
      obtain rfl := List.mem_singleton.mp new
      exact fresh_not_mem fresh (equal ▸ old)
  | returning => exact distinct

/-- A deny label that has a position is attached there, behind the splice point. -/
theorem target_attached (sited : Sited body signature point deny site) {target : Nat}
    (known : site.target = some target) :
    point < target ∧ ∃ ins, site.body.code[target]? = some ins ∧ site.label ∈ ins.labels := by
  cases sited with
  | label found follows =>
      cases known
      exact ⟨follows, Code.exists_of_position? found⟩
  | anchor found follows =>
      cases known
      obtain ⟨ins, here, -, -, attached⟩ :=
        attachAt_getElem? target [⟨body.nextLabel⟩] (List.getElem?_eq_getElem (locate_lt found))
      exact ⟨follows, ins, here, attached rfl (List.mem_singleton_self _)⟩
  | returning => cases known

theorem target_found (sited : Sited body signature point deny site)
    (distinct : (Code.labels site.body.code).Nodup) {target : Nat}
    (known : site.target = some target) :
    point < target ∧ Code.position? site.body.code site.label = some target :=
  (sited.target_attached known).imp_right (Code.position?_eq_some_iff distinct).mpr

/-- A deny label without a position is that of a return stub. -/
theorem target_missing (sited : Sited body signature point deny site)
    (unknown : site.target = none) :
    ∃ v, deny = .returning v ∧ v.fits signature ∧ endsOpen body = false := by
  cases sited with
  | label => cases unknown
  | anchor => cases unknown
  | returning fits closed => exact ⟨_, rfl, fits, closed⟩

/-- It is attached nowhere in the body. -/
theorem label_not_mem (sited : Sited body signature point deny site) (fresh : body.Fresh)
    (unknown : site.target = none) : site.label ∉ Code.labels site.body.code := by
  cases sited with
  | label => cases unknown
  | anchor => cases unknown
  | returning => exact fresh_not_mem fresh

/-- Only a return asks for a stub. -/
theorem stub_eq_nil (sited : Sited body signature point deny site) {target : Nat}
    (known : site.target = some target) (depth : Nat) (delta : Int) :
    stubFor deny depth delta site.label = [] := by
  cases sited with
  | label => rfl
  | anchor => rfl
  | returning => cases known

end Sited

/-- A checked build has numbers for all labels that a splice takes. -/
theorem spares_of_room {overflow : Overflow} {body wide : Body} {signature : MethodDef}
    {point : Nat} {t : Template} {site : DenySite} {run : List Instruction}
    (sited : denySite overflow body signature point t.deny = .ok site)
    (expanded : t.materialize overflow site.body site.label = .ok (run, wide))
    (room : overflow = .stops ∨ body.Spares t.labelCount) : body.Spares t.labelCount := by
  refine room.elim (fun stops => ?_) id
  subst stops
  have deny := (denySite_steps sited).2 rfl
  have marks := Template.spares_of_materialize expanded
  unfold Body.Spares at marks
  rw [(denySite_eq_ok sited).toNat_nextLabel deny, Nat.add_assoc] at marks
  exact marks

/-! ### The new body -/

namespace Done

variable {symbols : SymbolTable} {options : SpliceOptions} {body : Body} {point : Nat}
  {t : Template} (d : Done symbols options body point t)

theorem code_eq : d.result.code = insertRun d.site.body.code point d.run ++ d.stub := by
  have wide := congrArg Body.code (Template.materialize_body d.expanded)
  unfold result insertInto
  rw [wide]

theorem locals_eq : d.result.locals = body.locals ++ t.scratch := by
  have wide := congrArg Body.locals (Template.materialize_body d.expanded)
  unfold result insertInto
  rw [wide, (denySite_eq_ok d.sited).locals_eq]

theorem regions_eq :
    d.result.regions = body.regions.map fun r => r.shiftAfter point d.run.length := by
  have wide := congrArg Body.regions (Template.materialize_body d.expanded)
  unfold result insertInto
  rw [wide, (denySite_eq_ok d.sited).regions_eq]

theorem method_eq : d.result.method = body.method := by
  have wide := congrArg Body.method (Template.materialize_body d.expanded)
  exact wide.trans (denySite_eq_ok d.sited).method_eq

/-- The inserted run is the expansion of a valid template. -/
theorem expansion : t.Expanded d.site.body d.wide d.site.label d.run :=
  Template.materialize_expanded (Template.fault?_eq_none d.wellFormed) d.expanded

/-- The original body has been verified. -/
theorem verified : StackMap.Verified symbols d.signature options.maxStack body d.map := by
  obtain ⟨enclosing, signature, verified⟩ := StackMap.analyze_eq_ok d.analyzed
  exact Option.some.inj (signature.symm.trans d.declared) ▸ verified

theorem run_nonempty : d.run ≠ [] := by
  obtain ⟨before, last, split, -⟩ := d.expansion.final
  simp [split]

theorem point_lt : point < d.site.body.code.length :=
  (denySite_eq_ok d.sited).length_eq ▸ d.inside

theorem size_eq : d.result.size = body.size + d.run.length + d.stub.length := by
  unfold Body.size
  rw [d.code_eq, List.length_append, length_insertRun d.run d.point_lt,
    (denySite_eq_ok d.sited).length_eq]

/-! ### Where its instructions come from -/

theorem getElem?_moved {i : Nat} {ins : Instruction} (here : body.code[i]? = some ins) :
    ∃ ins', d.result.code[moved point d.run.length i]? = some ins' ∧ ins'.Alike ins := by
  obtain ⟨middle, there, first, -⟩ := (denySite_eq_ok d.sited).getElem? here
  obtain ⟨ins', here', second, -⟩ := insertRun_moved d.run d.point_lt there
  rw [d.code_eq]
  exact ⟨ins', getElem?_append_of_eq_some here' d.stub, second.trans first⟩

theorem getElem?_inside {o : Nat} {ins : Instruction} (inRun : d.run[o]? = some ins) :
    ∃ ins', d.result.code[point + o]? = some ins' ∧ ins'.Alike ins := by
  obtain ⟨ins', here, alike, -⟩ := insertRun_inside (List.getElem?_eq_getElem d.point_lt) inRun
  rw [d.code_eq]
  exact ⟨ins', getElem?_append_of_eq_some here d.stub, alike⟩

theorem getElem?_stub (j : Nat) :
    d.result.code[body.size + d.run.length + j]? = d.stub[j]? := by
  have length := length_insertRun d.run d.point_lt
  rw [(denySite_eq_ok d.sited).length_eq] at length
  unfold Body.size
  rw [d.code_eq, List.getElem?_append_right (by omega), length, Nat.add_sub_cancel_left]

/-- What an instruction of the new body is. -/
inductive Origin (d : Done symbols options body point t) : Nat → Instruction → Prop
  | moved {i : Nat} {ins old : Instruction} (here : body.code[i]? = some old)
      (alike : ins.Alike old) : Origin d (moved point d.run.length i) ins
  | inside {o : Nat} {ins inner : Instruction} (here : d.run[o]? = some inner)
      (alike : ins.Alike inner) : Origin d (point + o) ins
  | stub {j : Nat} {ins : Instruction} (here : d.stub[j]? = some ins) :
      Origin d (body.size + d.run.length + j) ins

theorem origin {p : Nat} {ins : Instruction} (here : d.result.code[p]? = some ins) :
    d.Origin p ins := by
  by_cases front : p < body.size + d.run.length
  · rcases insertRun_cases d.inside front with ⟨i, below, rfl⟩ | ⟨o, within, rfl⟩
    · obtain ⟨ins', here', alike⟩ := d.getElem?_moved (List.getElem?_eq_getElem below)
      obtain rfl := Option.some.inj (here.symm.trans here')
      exact .moved (List.getElem?_eq_getElem below) alike
    · obtain ⟨ins', here', alike⟩ := d.getElem?_inside (List.getElem?_eq_getElem within)
      obtain rfl := Option.some.inj (here.symm.trans here')
      exact .inside (List.getElem?_eq_getElem within) alike
  · have split : p = body.size + d.run.length + (p - (body.size + d.run.length)) := by omega
    rw [split] at here ⊢
    exact .stub ((d.getElem?_stub _).symm.trans here)

/-! ### Its labels -/

include d in
theorem spares (room : options.overflow = .stops ∨ body.Spares t.labelCount) :
    body.Spares t.labelCount :=
  spares_of_room d.sited d.expanded room

section Spares

variable (spares : body.Spares t.labelCount)
include spares

theorem toNat_site : d.site.body.nextLabel.toNat = body.nextLabel.toNat + t.deny.labelCount :=
  (denySite_eq_ok d.sited).toNat_nextLabel (spares.le (Nat.le_add_right ..))

theorem spares_site : d.site.body.Spares t.marks.length :=
  (denySite_eq_ok d.sited).spares spares

/-- The labels of the run are numbered from the allocator of the site on. -/
theorem mem_labels_run {l : Label} (member : l ∈ Code.labels d.run) :
    d.site.body.nextLabel.toNat ≤ l.number ∧ l.number < d.wide.nextLabel.toNat := by
  have room := d.spares_site spares
  rw [d.expansion.allocator, room.nextLabel_advance]
  rw [d.expansion.labels] at member
  exact room.labels.2 l member

/-- A label that is known when the run is expanded is none of the run's own. -/
theorem not_mem_run {l : Label} (known : l.number < d.site.body.nextLabel.toNat) :
    l ∉ Code.labels d.run :=
  fun member => Nat.not_le_of_lt known (d.mem_labels_run spares member).1

theorem nodup_run : (Code.labels d.run).Nodup := by
  rw [d.expansion.labels]
  exact (d.spares_site spares).labels.1

end Spares

theorem labels_stub {l : Label} (member : l ∈ Code.labels d.stub) :
    l = d.site.label ∧ d.site.target = none := by
  cases target : d.site.target with
  | some target' =>
      have empty : d.stub = [] := (denySite_eq_ok d.sited).stub_eq_nil target _ _
      rw [empty] at member
      cases member
  | none =>
      unfold stub stubFor at member
      split at member
      · rw [labels_returnStub] at member
        exact ⟨List.mem_singleton.mp member, rfl⟩
      · cases member

theorem nodup_stub : (Code.labels d.stub).Nodup := by
  unfold stub stubFor
  split
  · simp [labels_returnStub]
  · exact List.nodup_nil

/-- The labels of the new code are those of the site, of the run and of the stub. -/
theorem labels_perm : (Code.labels d.result.code).Perm
    (Code.labels d.site.body.code ++ Code.labels d.run ++ Code.labels d.stub) := by
  have split : Code.labels d.result.code =
      Code.labels (insertRun d.site.body.code point d.run) ++ Code.labels d.stub := by
    rw [d.code_eq]
    simp [Code.labels]
  rw [split]
  exact (labels_insertRun d.point_lt d.run_nonempty).append_right _

/-- When the allocator of the original body is fresh and the numbers suffice, no label is attached
    twice. -/
theorem distinct_of_fresh (fresh : body.Fresh) (spares : body.Spares t.labelCount) :
    (Code.labels d.result.code).Nodup := by
  have sited := denySite_eq_ok d.sited
  obtain ⟨known, deny⟩ := sited.below fresh (spares.le (Nat.le_add_right ..))
  rw [d.labels_perm.nodup_iff, List.nodup_append, List.nodup_append]
  refine ⟨⟨sited.distinct fresh d.verified.structured.labels, d.nodup_run spares, ?_⟩,
    d.nodup_stub, ?_⟩
  · intro l old k new equal
    exact d.not_mem_run spares (known l old) (equal ▸ new)
  · intro l inner k inStub equal
    obtain ⟨rfl, unknown⟩ := d.labels_stub inStub
    subst equal
    rcases List.mem_append.mp inner with old | new
    · exact sited.label_not_mem fresh unknown old
    · exact d.not_mem_run spares deny new

section Distinct

variable (distinct : (Code.labels d.result.code).Nodup)
include distinct

theorem distinct_code : (Code.labels (insertRun d.site.body.code point d.run ++ d.stub)).Nodup :=
  d.code_eq ▸ distinct

theorem distinct_site : (Code.labels d.site.body.code).Nodup := by
  rw [d.labels_perm.nodup_iff] at distinct
  exact (List.nodup_append.mp (List.nodup_append.mp distinct).1).1

theorem site_run_disjoint {l : Label} (member : l ∈ Code.labels d.site.body.code) :
    l ∉ Code.labels d.run := by
  rw [d.labels_perm.nodup_iff] at distinct
  have apart := (List.nodup_append.mp (List.nodup_append.mp distinct).1).2.2
  exact fun inRun => apart l member l inRun rfl

theorem stub_disjoint {l : Label} (member : l ∈ Code.labels d.stub) :
    l ∉ Code.labels d.site.body.code ∧ l ∉ Code.labels d.run := by
  rw [d.labels_perm.nodup_iff] at distinct
  have apart := (List.nodup_append.mp distinct).2.2
  exact ⟨fun old => apart l (List.mem_append_left _ old) l member rfl,
    fun new => apart l (List.mem_append_right _ new) l member rfl⟩

omit distinct in
/-- A deny label without a position stands at the start of an early return. -/
theorem stub_eq (unknown : d.site.target = none) : ∃ v, v.fits d.signature ∧
    d.stub = returnStub ((d.depth : Int) + d.delta).toNat v d.site.label := by
  obtain ⟨v, deny, fits, -⟩ := (denySite_eq_ok d.sited).target_missing unknown
  refine ⟨v, fits, ?_⟩
  unfold stub stubFor
  rw [deny]

omit distinct in
theorem deny_mem_stub (unknown : d.site.target = none) :
    d.site.label ∈ Code.labels d.stub := by
  obtain ⟨v, -, code⟩ := d.stub_eq unknown
  rw [code, labels_returnStub]
  exact List.mem_singleton_self _

theorem deny_not_mem_run : d.site.label ∉ Code.labels d.run := by
  cases target : d.site.target with
  | none => exact (d.stub_disjoint distinct (d.deny_mem_stub target)).2
  | some target' =>
      obtain ⟨-, ins, here, attached⟩ := (denySite_eq_ok d.sited).target_attached target
      exact d.site_run_disjoint distinct (Code.mem_labels_iff.mpr ⟨_, ins, here, attached⟩)

/-- A label of the original body resolves to where it has moved. -/
theorem position?_moved {l : Label} {p : Nat} (found : body.position? l = some p) :
    d.result.position? l = some (Region.shiftBound point d.run.length p) := by
  obtain ⟨ins, here, attached⟩ := Code.exists_of_position? found
  obtain ⟨ins', here', -, kept⟩ := (denySite_eq_ok d.sited).getElem? here
  have known := (Code.position?_eq_some_iff (d.distinct_site distinct)).mpr
    ⟨ins', here', kept attached⟩
  unfold Body.position?
  rw [d.code_eq]
  exact position?_old d.point_lt (d.distinct_code distinct) known d.run_nonempty

/-- A label of the run resolves to its offset behind the splice point. -/
theorem position?_inside {l : Label} {o : Nat} (found : Code.position? d.run l = some o) :
    d.result.position? l = some (point + o) := by
  unfold Body.position?
  rw [d.code_eq]
  exact position?_run d.point_lt (d.distinct_code distinct) found

omit distinct in
/-- The deny label stands at the deny position. -/
theorem deny_attached : ∃ ins, d.result.code[d.denyPosition]? = some ins ∧
    d.site.label ∈ ins.labels := by
  unfold denyPosition
  cases target : d.site.target with
  | some target' =>
      obtain ⟨follows, ins, here, attached⟩ := (denySite_eq_ok d.sited).target_attached target
      obtain ⟨ins', here', -, same⟩ := insertRun_moved d.run d.point_lt here
      rw [moved, if_pos (Nat.le_of_lt follows)] at here'
      rw [d.code_eq]
      exact ⟨ins', getElem?_append_of_eq_some here' d.stub, same (Nat.ne_of_gt follows) ▸ attached⟩
  | none =>
      obtain ⟨v, -, code⟩ := d.stub_eq target
      obtain ⟨ins, here, attached⟩ :=
        Code.exists_of_position? (position?_returnStub _ v d.site.label)
      exact ⟨ins, (d.getElem?_stub 0).trans (code ▸ here), attached⟩

/-- The deny label resolves to the deny position. -/
theorem position?_deny : d.result.position? d.site.label = some d.denyPosition :=
  (Code.position?_eq_some_iff distinct).mpr d.deny_attached

end Distinct

end Done

end Splice

end HookSplice
