import HookSplice.Proofs.Freshness
import HookSplice.Proofs.SplicedDepths

/-!
# Verification of spliced bodies

The local checks of a splice stand for the verification of the whole body: what is made from a body
that verifies, with a template that is balanced, verifies again, up to the limit on the depth; the
old instructions keep their depths, and the inserted ones have the relative depths of the run on top
of the depth at the splice point.
-/

namespace HookSplice

/-- The instructions that a splice has inserted. -/
def Spliced.inserted (s : Spliced) : List Instruction :=
  (s.body.code.drop s.point).take s.count

/-- The deny target is an instruction that control may reach in the body, or an early return. -/
def DenyTarget.ReachedIn (body : Body) : DenyTarget → Prop
  | label l => ∃ p, body.position? l = some p ∧ body.Reaches p
  | anchor a => ∃ p, a.locate body.code = .ok p ∧ body.Reaches p
  | returning _ => True

namespace Splice

/-! ### Reachable positions -/

theorem Sited.reaches_target {body : Body} {signature : MethodDef} {point : Nat}
    {deny : DenyTarget} {site : DenySite} (sited : Sited body signature point deny site)
    (reached : deny.ReachedIn body) {target : Nat} (known : site.target = some target) :
    body.Reaches target := by
  cases sited with
  | label found =>
      cases known
      obtain ⟨p, position, reaches⟩ := reached
      exact Option.some.inj (position.symm.trans found) ▸ reaches
  | anchor found =>
      cases known
      obtain ⟨p, position, reaches⟩ := reached
      exact Except.ok.inj (position.symm.trans found) ▸ reaches
  | returning => cases known

namespace Done

variable {symbols : SymbolTable} {options : SpliceOptions} {body : Body} {point : Nat}
  {t : Template} (d : Done symbols options body point t)
  (distinct : (Code.labels d.result.code).Nodup)
include distinct

theorem reaches_inside (start : d.result.Reaches point) {o : Nat}
    (reached : RunEffect.Reaches d.run o) : d.result.Reaches (point + o) := by
  induction reached with
  | entry => exact start
  | @onward o inner _ here falls ih =>
      obtain ⟨ins, there, alike⟩ := d.getElem?_inside here
      have passes : d.result.Passes (point + o) ins 0 (point + o + 1) 0 :=
        .onward (alike.1 ▸ falls)
      exact ih.pass there passes
  | @branch o q inner l _ here _ target found ih =>
      obtain ⟨ins, there, alike⟩ := d.getElem?_inside here
      have resolved : d.result.targetOf? ins = some (point + q) := by
        rw [Body.targetOf?, alike.target?, target, Option.bind_some,
          d.position?_inside distinct found]
      have passes : d.result.Passes (point + o) ins 0 (point + q)
          (if ins.opcode = .leave then 0 else 0) := .branch resolved
      exact ih.pass there passes

/-- Control that arrives at the splice point passes through the run. -/
theorem reaches_moved {i : Nat}
    (reached : d.result.Reaches (Region.shiftBound point d.run.length i)) :
    d.result.Reaches (moved point d.run.length i) := by
  by_cases atPoint : i = point
  · subst atPoint
    rw [shiftBound_self] at reached
    rw [moved, if_pos (Nat.le_refl i)]
    exact d.reaches_inside distinct reached (d.explored.reached d.explored.final)
  · rwa [moved_of_ne atPoint]

/-- Control still reaches all positions that it reached before. -/
theorem reaches_shiftBound {i : Nat} (reached : body.Reaches i) :
    d.result.Reaches (Region.shiftBound point d.run.length i) := by
  induction reached with
  | entry =>
      rw [Region.shiftBound, if_neg (Nat.not_lt_zero point)]
      exact .entry
  | @pass i j after k old _ here passes ih =>
      obtain ⟨ins, there, alike⟩ := d.getElem?_moved here
      exact (d.reaches_moved distinct ih).pass there
        ((d.passes_moved distinct here alike).mpr ⟨j, rfl, passes⟩)

/-! ### The inserted instructions -/

/-- The labels that have moved to the run are none that its branches name. -/
theorem not_mem_rehomed {o : Nat} {ins here : Instruction} {l : Label}
    (there : d.site.body.code[point]? = some here) (inRun : d.run[o]? = some ins)
    (names : ins.target? = some l) : l ∉ here.labels := by
  intro attached
  have member := Code.mem_labels_iff.mpr ⟨point, here, there, attached⟩
  obtain ⟨-, -, rfl | own⟩ := d.run_target inRun names
  · cases target : d.site.target with
    | none => exact (d.stub_disjoint distinct (d.deny_mem_stub target)).1 member
    | some target' =>
        have unique := d.distinct_site distinct
        obtain ⟨follows, found⟩ := (denySite_eq_ok d.sited).target_found unique target
        have atPoint := (Code.position?_eq_some_iff unique).mpr ⟨here, there, attached⟩
        have := Option.some.inj (found.symm.trans atPoint)
        omega
  · exact d.site_run_disjoint distinct member own

theorem depthAt?_inserted :
    RunEffect.depthAt? symbols d.signature ((d.result.code.drop point).take d.run.length) =
      RunEffect.depthAt? symbols d.signature d.run := by
  have inside := d.point_lt
  have there := List.getElem?_eq_getElem inside
  have slice : (d.result.code.drop point).take d.run.length =
      withLabels d.site.body.code[point].labels d.run := by
    have front : (d.site.body.code.take point).length = point := by
      rw [List.length_take]
      omega
    rw [d.code_eq, insertRun_eq there, List.append_assoc, List.drop_left' front,
      List.append_assoc, List.take_left' (length_withLabels _)]
  rw [slice]
  refine RunEffect.depthAt?_alike (length_withLabels _) (fun o ins here => ?_)
    fun ins member l names => ?_
  · obtain ⟨ins', here', alike, -⟩ := withLabels_getElem? _ here
    exact ⟨ins', here', alike⟩
  · obtain ⟨o, inRun⟩ := List.mem_iff_getElem?.mp member
    exact position?_withLabels (d.not_mem_rehomed distinct there inRun names)

/-! ### The verdict of the verifier -/

theorem depthAt?_moved {limit : Nat} {m : StackMap}
    (success : StackMap.analyze symbols d.result limit = .ok m)
    (agrees : ∀ p k, m.depthAt? p = some k → d.depths p = some k) {i : Nat}
    (below : i < body.size) : m.depthAt? (moved point d.run.length i) = d.map.depthAt? i := by
  rw [← d.depths_moved below]
  refine d.depthAt?_eq_depths success agrees fun known => ?_
  rw [d.depths_moved below, StackMap.depthAt?_isSome_iff d.analyzed] at known
  exact d.reaches_moved distinct (d.reaches_shiftBound distinct known)

theorem depthAt?_inside {limit : Nat} {m : StackMap}
    (success : StackMap.analyze symbols d.result limit = .ok m)
    (agrees : ∀ p k, m.depthAt? p = some k → d.depths p = some k) {o : Nat}
    (within : o < d.run.length) : (m.depthAt? (point + o)).map Int.ofNat =
      (RunEffect.depthAt? symbols d.signature d.run o).map ((d.depth : Int) + ·) := by
  have start : d.result.Reaches point := by
    have reached := (StackMap.depthAt?_isSome_iff d.analyzed).mp (by rw [d.known]; rfl)
    have arrives := d.reaches_shiftBound distinct reached
    rwa [shiftBound_self] at arrives
  have same : m.depthAt? (point + o) = d.depths (point + o) := by
    refine d.depthAt?_eq_depths success agrees fun known => ?_
    rw [d.depths_inside within, Option.isSome_map] at known
    obtain ⟨r, found⟩ := Option.isSome_iff_exists.mp known
    exact d.reaches_inside distinct start (d.explored.reached found)
  rw [same, d.depths_inside within]
  cases found : RunEffect.depthAt? symbols d.signature d.run o with
  | none => rfl
  | some r =>
      obtain ⟨change, -, enough, -⟩ := d.explored.step found (List.getElem?_eq_getElem within)
      have needs := d.checks.enough
      have natural : 0 ≤ (d.depth : Int) + r := by omega
      show some (((d.depth : Int) + r).toNat : Int) = some ((d.depth : Int) + r)
      rw [Int.toNat_of_nonneg natural]

end Done

variable {symbols : SymbolTable} {options : SpliceOptions} {body : Body} {point : Nat}
  {t : Template} {s : Spliced} {signature : MethodDef} {limit : Nat} {map : StackMap}

/-- Splicing a balanced template without returns into a body that verifies gives a body that the
    verifier rejects at most for the depth of its stack.  Under a sufficient limit the old
    instructions keep their depths, and the inserted ones have their relative depths on top of that
    at the splice point.  Whether the splice verifies its result makes no difference.  A build that
    lets label numbers start over needs enough of them: the labels of the template would be those of
    other instructions. -/
theorem splice_verifies (success : splice symbols options body point t = .ok s)
    (verified : StackMap.analyze symbols body limit = .ok map) (fresh : body.Fresh)
    (room : options.overflow = .stops ∨ body.Spares t.labelCount)
    (declared : symbols.method? body.method = some signature) (balanced : t.delta = 0)
    (emitted : ∀ ins, .emit ins ∈ t.steps →
      body.OperandInRange symbols signature.argCount ins ∧ ins.opcode ≠ .ret)
    (deny : t.deny.ReachedIn body) :
    (∀ limit' v, StackMap.analyze symbols s.body limit' = .error v → v.isOverflow) ∧
    map.depthAt? s.point = some s.depth ∧
    ∃ bound, ∀ limit', bound ≤ limit' → ∃ map',
      StackMap.analyze symbols s.body limit' = .ok map' ∧
      (∀ i < body.size, map'.depthAt? (moved s.point s.count i) = map.depthAt? i) ∧
      ∀ o < s.count, (map'.depthAt? (s.point + o)).map Int.ofNat =
        (RunEffect.depthAt? symbols signature s.inserted o).map ((s.depth : Int) + ·) := by
  obtain ⟨d, uncrossed, -, rfl⟩ := splice_eq_ok success
  obtain rfl := Option.some.inj (d.declared.symm.trans declared)
  have same := StackMap.depthAt?_unique verified d.analyzed
  have distinct := d.distinct_of_fresh fresh (d.spares room)
  have reachable (target : Nat) (known : d.site.target = some target) :
      (d.map.depthAt? target).isSome :=
    (StackMap.depthAt?_isSome_iff d.analyzed).mpr
      ((denySite_eq_ok d.sited).reaches_target deny known)
  have structured := d.structured distinct (fun ins source => (emitted ins source).1) uncrossed
  have depths := d.depthMap distinct reachable balanced fun ins source => (emitted ins source).2
  have nonempty : 0 < d.result.size := by
    have inside := d.inside
    rw [d.size_eq]
    omega
  have analyzed (limit' : Nat) := StackMap.analyze_overflows limit'
    (d.result.DepthsBelow symbols d.signature d.depths limit') nonempty
    (d.method_eq ▸ d.declared) structured depths id
  refine ⟨fun limit' v failure => ?_, same ▸ d.known, ?_⟩
  · have outcome := analyzed limit'
    rw [failure] at outcome
    exact outcome.1
  · obtain ⟨bound, below⟩ := d.result.exists_depthsBelow symbols d.signature d.depths
    refine ⟨bound, fun limit' enough => ?_⟩
    have outcome := analyzed limit'
    cases result : StackMap.analyze symbols d.result limit' with
    | error v =>
        rw [result] at outcome
        refine absurd (fun i k ins effect known here found => ?_) outcome.2
        exact Nat.le_trans (below i k ins effect known here found) enough
    | ok map' =>
        rw [result] at outcome
        refine ⟨map', rfl, fun i inside => ?_, fun o within => ?_⟩
        · rw [same]
          exact d.depthAt?_moved distinct result outcome inside
        · show _ = (RunEffect.depthAt? symbols d.signature
            ((d.result.code.drop point).take d.run.length) o).map _
          rw [d.depthAt?_inserted distinct]
          exact d.depthAt?_inside distinct result outcome within

/-- The symbols of a class with one method, which takes two numbers and gives their sum. -/
def adderSymbols : SymbolTable :=
  ⟨["Adder", "int"], [], [⟨⟨⟨0⟩, "add", [⟨1⟩, ⟨1⟩], some ⟨1⟩, true⟩, "Adder::add(int, int)"⟩]⟩

/-- The body of that method. -/
def adder : Body :=
  .ofParts ⟨0⟩ [.of .ldarg (.arg 0), .of .ldarg (.arg 1), .plain .add, .plain .ret] [] []

/-- A template that returns 7 when the second argument is 0. -/
def zeroGuard : Template :=
  ⟨[.emit (.of .ldarg (.arg 1)), .branch .brfalse .deny], [], 0, .returning (.int 7)⟩

/-- The guard stands where one number is on the stack, which an early return has to drop. -/
theorem guardedAdder_verifies :
    ∃ s map, splice adderSymbols ⟨false, 8, .wraps⟩ adder 1 zeroGuard = .ok s ∧
      StackMap.analyze adderSymbols adder 8 = .ok map ∧ s.count = 2 ∧
      (∀ limit v, StackMap.analyze adderSymbols s.body limit = .error v → v.isOverflow) ∧
      ∃ bound, ∀ limit, bound ≤ limit → ∃ map',
        StackMap.analyze adderSymbols s.body limit = .ok map' ∧
        ∀ i < adder.size, map'.depthAt? (moved s.point s.count i) = map.depthAt? i := by
  obtain ⟨s, success, count⟩ :
      ∃ s, splice adderSymbols ⟨false, 8, .wraps⟩ adder 1 zeroGuard = .ok s ∧ s.count = 2 :=
    ⟨_, rfl, rfl⟩
  obtain ⟨map, verified⟩ : ∃ map, StackMap.analyze adderSymbols adder 8 = .ok map := ⟨_, rfl⟩
  have declared : adderSymbols.method? adder.method =
      some ⟨⟨0⟩, "add", [⟨1⟩, ⟨1⟩], some ⟨1⟩, true⟩ := rfl
  have emitted : ∀ ins, .emit ins ∈ zeroGuard.steps →
      adder.OperandInRange adderSymbols 2 ins ∧ ins.opcode ≠ .ret := by
    intro ins member
    obtain rfl : ins = .of .ldarg (.arg 1) := by simpa [zeroGuard] using member
    exact ⟨Nat.lt_succ_self 1, nofun⟩
  obtain ⟨overflow, -, bound, verifies⟩ := splice_verifies success verified
    (Body.ofParts_fresh _ _ _ rfl) (.inr (by decide)) declared rfl emitted trivial
  refine ⟨s, map, success, verified, count, overflow, bound, fun limit enough => ?_⟩
  obtain ⟨map', analyzed, kept, -⟩ := verifies limit enough
  exact ⟨map', analyzed, kept⟩

/-- The body of that method with two labels at its first instruction, which leave one number to its
    allocator. -/
def labelledAdder : Body :=
  .ofParts ⟨0⟩ [⟨.ldarg, .arg 0, [⟨0⟩, ⟨4294967294⟩]⟩, .of .ldarg (.arg 1), .plain .add,
    .plain .ret] [] []

/-- The guard with a mark at its branch. -/
def markedGuard : Template :=
  ⟨[.emit (.of .ldarg (.arg 1)), .mark 0, .branch .brfalse .deny], [], 0, .returning (.int 7)⟩

/-- The return takes the last number, so that the mark has none: a checked build stops.  A wrapping
    one gives the label 0 out a second time, and the verifier rejects the new body for it. -/
theorem labelledAdder_clashes :
    labelledAdder.Fresh ∧ (∃ map, StackMap.analyze adderSymbols labelledAdder 8 = .ok map) ∧
    markedGuard.fault? = none ∧ markedGuard.delta = 0 ∧
    (∀ ins, .emit ins ∈ markedGuard.steps →
      labelledAdder.OperandInRange adderSymbols 2 ins ∧ ins.opcode ≠ .ret) ∧
    splice adderSymbols ⟨false, 8, .stops⟩ labelledAdder 1 markedGuard = .error .labelsExhausted ∧
    ∃ s, splice adderSymbols ⟨false, 8, .wraps⟩ labelledAdder 1 markedGuard = .ok s ∧
      StackMap.analyze adderSymbols s.body 8 = .error (.duplicateLabel ⟨0⟩ 0 2) := by
  refine ⟨Body.ofParts_fresh _ _ _ rfl, ⟨_, rfl⟩, rfl, rfl, fun ins member => ?_, rfl, _, rfl, rfl⟩
  obtain rfl : ins = .of .ldarg (.arg 1) := by simpa [markedGuard] using member
  exact ⟨Nat.lt_succ_self 1, nofun⟩

end Splice

end HookSplice
