import HookSplice.Proofs.ClosedTemplates
import HookSplice.Proofs.MethodKeys
import HookSplice.Proofs.RecordedExits
import HookSplice.Proofs.SplicedCode
import HookSplice.Proofs.StraightRuns

/-!
# Gates are accepted

An event gate that builds can be spliced in wherever control comes.  The code of a gate has an
effect, needs nothing from the stack and leaves it as it was, whatever is captured and read back; so
a splice never fails for the sake of the gate.  With an early return for a deny target, in a body
that has room for one local and two more values, outside of all regions, the splice succeeds.
-/

namespace HookSplice

open RunEffect (Climbs)

/-! ### The depth in a gate -/

section Climbs

variable {symbols : SymbolTable} {enclosing : MethodDef} {peak n : Nat}

theorem Capture.climbs_load (k : Capture) (room : n + 1 ≤ peak) :
    Climbs symbols enclosing peak n k.load (n + 1) := by
  have one {ins : Instruction} (falls : ins.opcode.fallsThrough)
      (effect : StackEffect.ofInstruction symbols enclosing ins = .ok ⟨0, 1⟩) :
      Climbs symbols enclosing peak n [ins] (n + 1) :=
    .cons effect falls (Nat.zero_le n) room .nil
  have two {ins : Instruction} {field : FieldId} (falls : ins.opcode.fallsThrough)
      (effect : StackEffect.ofInstruction symbols enclosing ins = .ok ⟨0, 1⟩) :
      Climbs symbols enclosing peak n [ins, .of .ldfld (.field field)] (n + 1) :=
    (one falls effect).append (.cons rfl rfl (Nat.le_add_left 1 n) room .nil)
  cases k with
  | arg | slot | int | text | null | staticField => exact one rfl rfl
  | argField | slotField => exact two rfl rfl

theorem Capture.climbs_loads (captures : List Capture) (room : n + captures.length ≤ peak) :
    Climbs symbols enclosing peak n (captures.flatMap Capture.load) (n + captures.length) := by
  induction captures generalizing n with
  | nil => exact .nil
  | cons k rest ih =>
      rw [List.length_cons] at room ⊢
      have first : Climbs symbols enclosing peak n k.load (n + 1) := k.climbs_load (by omega)
      rw [List.flatMap_cons, show n + (rest.length + 1) = n + 1 + rest.length by omega]
      exact first.append (ih (by omega))

namespace EventGate

variable {g : EventGate} {contract : EventContract} {allowed : FieldId}
  {stores : List (FieldId × Slot)} {slot : UInt16} {deny : Label}

/-- The captured values go to the constructor, the hook and the event to the dispatch method. -/
theorem climbs_dispatching (shaped : contract.Shaped symbols)
    (captured : g.captures.length = g.kind.constructorFields.length) :
    Climbs symbols enclosing 2 g.captures.length (g.dispatching contract slot) 0 := by
  obtain ⟨made, constructs, constructor, params⟩ := shaped.constructor g.kind
  obtain ⟨dispatched, dispatches, takes, void⟩ := shaped.dispatch
  have new : StackEffect.ofInstruction symbols enclosing
      (.of .newobj (.method (contract.eventClass g.kind).constructor)) =
        .ok ⟨g.captures.length, 1⟩ := by
    show StackEffect.ofCall symbols
      (.of .newobj (.method (contract.eventClass g.kind).constructor)) = _
    simp [StackEffect.ofCall, Instruction.of, constructs, constructor, params, captured]
  have call : StackEffect.ofInstruction symbols enclosing
      (.of .call (.method contract.dispatch)) = .ok ⟨2, 0⟩ := by
    show StackEffect.ofCall symbols (.of .call (.method contract.dispatch)) = _
    simp [StackEffect.ofCall, Instruction.of, dispatches, takes, void, StackEffect.results]
  have event : StackEffect.behind ⟨g.captures.length, 1⟩ g.captures.length = 1 := by
    simp [StackEffect.behind]
  refine .cons new rfl (Nat.le_refl _) (by omega) ?_
  rw [event]
  exact .cons rfl rfl (by decide) (by decide) <| .cons rfl rfl (by decide) (by decide) <|
    .cons rfl rfl (by decide) (by decide) <| .cons call rfl (by decide) (by decide) .nil

theorem climbs_storing (stores : List (FieldId × Slot)) :
    Climbs symbols enclosing 2 0 (storing stores slot) 0 := by
  induction stores with
  | nil => exact .nil
  | cons e rest ih =>
      obtain ⟨id, target⟩ := e
      have store : StackEffect.ofInstruction symbols enclosing target.store = .ok ⟨1, 0⟩ := by
        cases target <;> rfl
      have falls : target.store.opcode.fallsThrough := by cases target <;> rfl
      have first : Climbs symbols enclosing 2 0
          [.of .ldloc (.slot slot), .of .ldfld (.field id), target.store] 0 :=
        .cons rfl rfl (by decide) (by decide) <| .cons rfl rfl (by decide) (by decide) <|
          .cons store falls (by decide) (by decide) .nil
      rw [storing, List.flatMap_cons]
      exact first.append ih

theorem climbs_asking : Climbs symbols enclosing 2 0 (asking allowed slot deny) 0 :=
  .cons rfl rfl (by decide) (by decide) <| .cons rfl rfl (by decide) (by decide) <|
    .cons rfl rfl (by decide) (by decide) .nil

/-- A gate never has more than two values on the stack, as no event captures more. -/
theorem climbs_code (shaped : contract.Shaped symbols)
    (captured : g.captures.length = g.kind.constructorFields.length) :
    Climbs symbols enclosing 2 0 (g.code contract allowed stores slot deny) 0 := by
  have few : 0 + g.captures.length ≤ 2 := by
    rw [captured]
    cases g.kind <;> decide
  have loads : Climbs symbols enclosing 2 0 (g.captures.flatMap Capture.load) g.captures.length :=
    Nat.zero_add g.captures.length ▸ Capture.climbs_loads g.captures few
  exact (loads.append (climbs_dispatching shaped captured)).append
    ((climbs_storing stores).append climbs_asking)

end EventGate

end Climbs

/-! ### The effect of a gate -/

namespace EventGate

variable {g : EventGate} {contract : EventContract} {allowed : FieldId}
  {stores : List (FieldId × Slot)} {slot : UInt16} {deny : Label}

/-- The code of a gate up to its branch. -/
def raising (g : EventGate) (contract : EventContract) (allowed : FieldId)
    (stores : List (FieldId × Slot)) (slot : UInt16) : List Instruction :=
  g.captures.flatMap Capture.load ++ g.dispatching contract slot ++
    (storing stores slot ++ [.of .ldloc (.slot slot), .of .ldfld (.field allowed)])

theorem code_eq_raising : g.code contract allowed stores slot deny =
    g.raising contract allowed stores slot ++ [.of .brfalse (.label deny)] := by
  simp [code, raising, asking]

/-- Up to its branch a gate only goes on, and it carries no labels. -/
theorem raising_plain {ins : Instruction} (member : ins ∈ g.raising contract allowed stores slot) :
    ins.opcode.flow = .next ∧ ins.labels = [] := by
  rcases List.mem_append.mp member with front | behind
  · rcases List.mem_append.mp front with loads | raises
    · obtain ⟨k, -, loaded⟩ := List.mem_flatMap.mp loads
      cases k with
      | arg | slot | int | text | null | staticField =>
          obtain rfl := List.mem_singleton.mp loaded
          exact ⟨rfl, rfl⟩
      | argField | slotField =>
          obtain rfl | rfl := List.mem_pair.mp loaded <;> exact ⟨rfl, rfl⟩
    · simp only [dispatching, List.mem_cons, List.not_mem_nil, or_false] at raises
      rcases raises with rfl | rfl | rfl | rfl | rfl <;> exact ⟨rfl, rfl⟩
  · rcases List.mem_append.mp behind with stored | asked
    · obtain ⟨⟨id, target⟩, -, inside⟩ := List.mem_flatMap.mp stored
      simp only [List.mem_cons, List.not_mem_nil, or_false] at inside
      rcases inside with rfl | rfl | rfl
      · exact ⟨rfl, rfl⟩
      · exact ⟨rfl, rfl⟩
      · cases target <;> exact ⟨rfl, rfl⟩
    · obtain rfl | rfl := List.mem_pair.mp asked <;> exact ⟨rfl, rfl⟩

theorem labels_code : Code.labels (g.code contract allowed stores slot deny) = [] := by
  rw [code_eq_raising, Code.labels, List.flatMap_eq_nil_iff]
  intro ins member
  rcases List.mem_append.mp member with front | last
  · exact (raising_plain front).2
  · rw [List.mem_singleton.mp last]
    rfl

/-- The only branch of a gate stands at its end. -/
theorem branch_code {o : Nat} {ins : Instruction}
    (here : (g.code contract allowed stores slot deny)[o]? = some ins)
    (transfers : RunEffect.branches ins) :
    o + 1 = (g.code contract allowed stores slot deny).length ∧
      ins = .of .brfalse (.label deny) := by
  rw [code_eq_raising] at here ⊢
  rw [List.getElem?_append] at here
  split at here
  · have onward := (raising_plain (List.mem_of_getElem? here)).1
    rw [RunEffect.branches, onward] at transfers
    rcases transfers with flow | flow <;> cases flow
  · next beyond =>
      obtain ⟨below, rfl⟩ := List.getElem?_eq_some_iff.mp here
      rw [List.length_singleton] at below
      refine ⟨?_, List.mem_singleton.mp (List.getElem_mem below)⟩
      rw [List.length_append, List.length_singleton]
      omega

variable {symbols : SymbolTable} {enclosing : MethodDef}

/-- The effect of a gate: it needs nothing, leaves the stack as it was, and its branch leaves it
    with as many values. -/
theorem exists_effect (shaped : contract.Shaped symbols)
    (captured : g.captures.length = g.kind.constructorFields.length) : ∃ effect,
      RunEffect.ofRun symbols enclosing (g.code contract allowed stores slot deny) = .ok effect ∧
      effect.delta = 0 ∧ effect.needs = 0 ∧ ∀ e ∈ effect.exits, e.delta = 0 ∧
        e.offset < (g.code contract allowed stores slot deny).length := by
  have climbs : Climbs symbols enclosing 2 0 (g.code contract allowed stores slot deny) 0 :=
    climbs_code shaped captured
  have conforms := climbs.conforms labels_code fun ins member transfers => by
    obtain ⟨o, here⟩ := List.mem_iff_getElem?.mp member
    rw [(branch_code here transfers).2]
    rfl
  obtain ⟨effect, computed⟩ := RunEffect.exists_ofRun conforms
  obtain ⟨delta, needs⟩ := climbs.summary labels_code computed
  refine ⟨effect, computed, delta, needs, fun e member => ?_⟩
  obtain ⟨r, ins, change, arrived, here, known, transfers, -, -, sum⟩ :=
    ((RunEffect.summary_of_ofRun computed).exits e).mp member
  obtain ⟨last, -⟩ := branch_code here transfers
  refine ⟨?_, (List.getElem?_eq_some_iff.mp here).1⟩
  have whole : _ = _ + RunEffect.net symbols enclosing ins := RunEffect.total_take_succ here
  rw [last, List.take_length, RunEffect.net_eq known] at whole
  have balance := climbs.total_eq
  rw [sum, arrived.straight labels_code, ← whole]
  omega

end EventGate

/-! ### The checks of a splice -/

namespace Splice

variable {t : Template} {run : RunEffect} {point depth : Nat} {map : StackMap} {site : DenySite}

/-- A balanced run that needs nothing passes the checks, up to the depth at the deny target. -/
theorem checkRun_balanced (declared : t.delta = 0) (balanced : run.delta = 0)
    (needs : run.needs = 0) (exits : ∀ e ∈ run.exits, e.delta = 0) :
    checkRun t run point depth map site =
      match site.target.bind map.depthAt? with
      | none => .ok 0
      | some expected =>
          if (depth : Int) = expected then .ok 0 else .error (.denyDepth expected depth) := by
  have agree : denyDelta run site.label = .ok 0 :=
    balanced ▸ denyDelta_of_exits fun e member _ => (exits e member).trans balanced.symm
  unfold checkRun
  rw [if_neg (by rw [balanced, declared]; decide), if_neg (by omega), agree]
  simp only [Except.ok_bind, Int.add_zero]
  rfl

end Splice

/-- The errors that tell of the inserted code or of the splice point, and not of the body, of the
    deny target or of a limit. -/
def SpliceError.blamesGate : SpliceError → Bool
  | .malformedTemplate _ | .templateEffect _ | .stackImbalance .. | .stackUnderflow ..
  | .denyEdgeMismatch .. | .unreachable _ => true
  | _ => false

theorem Splice.denySite_blameless {overflow : Overflow} {body : Body} {signature : MethodDef}
    {point : Nat} {deny : DenyTarget} {e : SpliceError}
    (failure : denySite overflow body signature point deny = .error e) :
    e.blamesGate = false := by
  unfold denySite at failure
  cases deny with
  | label l =>
      simp only at failure
      split at failure
      · cases failure
        rfl
      · split at failure <;> cases failure
        rfl
  | anchor a =>
      simp only at failure
      split at failure
      · cases failure
        rfl
      · split at failure
        · cases failure
          rfl
        · split at failure <;> cases failure
          rfl
  | returning v =>
      simp only at failure
      split at failure
      · cases failure
        rfl
      · split at failure
        · cases failure
          rfl
        · split at failure <;> cases failure
          rfl

/-- An expansion fails for want of slots or of labels. -/
theorem Template.materialize_blameless {overflow : Overflow} {t : Template} {body : Body}
    {deny : Label} {e : SpliceError}
    (failure : t.materialize overflow body deny = .error e) : e.blamesGate = false := by
  unfold materialize at failure
  split at failure
  · cases failure
    rfl
  · split at failure <;> cases failure
    rfl

theorem Splice.checkWhole_blameless {symbols : SymbolTable} {options : SpliceOptions} {body : Body}
    {e : SpliceError} (failure : checkWhole symbols options body = .error e) :
    e.blamesGate = false := by
  unfold checkWhole at failure
  split at failure
  · split at failure <;> cases failure
    rfl
  · cases failure

namespace EventGate

/-! ### Gates that build -/

variable {g : EventGate} {t : Template} {before after symbols : SymbolTable}

theorem build_checked (built : g.build.runOn before = (.ok t, after)) :
    g.captures.length = g.kind.constructorFields.length ∧ t.fault? = none := by
  unfold build at built
  simp only at built
  split at built
  · cases built
  · next captured =>
      obtain ⟨contract, middle, -, built⟩ := Declaring.runOn_bind_eq_ok built
      split at built
      · next t' made =>
          cases built
          obtain ⟨t', -, shaped⟩ := Except.bind_eq_ok made
          refine ⟨Decidable.not_not.mp captured, ?_⟩
          unfold checked at shaped
          split at shaped
          · cases shaped
          · next sound =>
              cases shaped
              exact sound
      · cases built

/-- What the template of a gate comes from, over symbols that have grown from those it was built
    over. -/
theorem build_shaped (built : g.build.runOn before = (.ok t, after)) (split : before.KeysSplit)
    (grown : after.Extends symbols) : ∃ (contract : EventContract) (allowed : FieldId)
      (stores : List (FieldId × Slot)), contract.Shaped symbols ∧
      (contract.eventClass g.kind).field? .allowed = some allowed ∧
      Stores (contract.eventClass g.kind) g.readBack stores ∧
      t = ⟨g.steps contract allowed stores, [(contract.eventClass g.kind).type], 0, g.deny⟩ := by
  obtain ⟨contract, declared, templated⟩ := build_templateOver built
  obtain ⟨allowed, stores, known, listed, steps⟩ := templateOver_steps templated
  have shaped := (EventContract.declare_runOn declared).2.shaped
    (EventContract.declare_keysSplit declared split)
  exact ⟨contract, allowed, stores, shaped.grow grown, known, listed, steps⟩

/-- A template of a gate that is expanded has the effect of the gate. -/
theorem exists_effect_of_materialize (built : g.build.runOn before = (.ok t, after))
    (split : before.KeysSplit) (grown : after.Extends symbols) (enclosing : MethodDef)
    {overflow : Overflow} {body wide : Body} {deny : Label} {run : List Instruction}
    (expanded : t.materialize overflow body deny = .ok (run, wide)) : ∃ effect,
      RunEffect.ofRun symbols enclosing run = .ok effect ∧ effect.delta = 0 ∧ effect.needs = 0 ∧
      ∀ e ∈ effect.exits, e.delta = 0 ∧ e.offset < run.length := by
  obtain ⟨contract, allowed, stores, shaped, -, -, rfl⟩ := build_shaped built split grown
  obtain ⟨slot, -, rfl⟩ := materialize_steps rfl rfl expanded
  exact exists_effect shaped (build_checked built).1

/-- The template of a gate is balanced, asks for one local and for no labels, and denies as the gate
    does. -/
theorem build_plain (built : g.build.runOn before = (.ok t, after)) :
    t.delta = 0 ∧ t.deny = g.deny ∧ t.marks = [] ∧ t.scratch.length = 1 := by
  obtain ⟨contract, -, templated⟩ := build_templateOver built
  obtain ⟨allowed, stores, -, -, rfl⟩ := templateOver_steps templated
  exact ⟨rfl, rfl, marks_steps, rfl⟩

/-- A splice never fails for the sake of a gate that builds, where control comes. -/
theorem splice_blameless (built : g.build.runOn before = (.ok t, after)) (split : before.KeysSplit)
    (grown : after.Extends symbols) {options : SpliceOptions} {body : Body} {point : Nat}
    (reached : body.Reaches point) {e : SpliceError}
    (failure : splice symbols options body point t = .error e) : e.blamesGate = false := by
  unfold splice at failure
  rw [(build_checked built).2] at failure
  simp only at failure
  split at failure
  · cases failure
    rfl
  split at failure
  · cases failure
    rfl
  next signature declared =>
  rcases Except.bind_eq_error failure with failure | ⟨map, analyzed, failure⟩
  · obtain ⟨v, -, rfl⟩ := Except.mapError_eq_error failure
    rfl
  have known := (StackMap.depthAt?_isSome_iff (Except.mapError_eq_ok.mp analyzed)).mpr reached
  split at failure
  · next unknown =>
      rw [unknown] at known
      cases known
  next depth _ =>
  rcases Except.bind_eq_error failure with failure | ⟨site, sited, failure⟩
  · exact Splice.denySite_blameless failure
  rcases Except.bind_eq_error failure with failure | ⟨⟨run, wide⟩, expanded, failure⟩
  · exact Template.materialize_blameless failure
  obtain ⟨effect, computed, delta, needs, exits⟩ := exists_effect_of_materialize built split grown
    signature expanded
  simp only [computed, Except.mapError, Except.ok_bind] at failure
  rw [Splice.checkRun_balanced (build_plain built).1 delta needs fun e member => (exits e member).1]
    at failure
  rcases Except.bind_eq_error failure with failure | ⟨delta', -, failure⟩
  · split at failure
    · cases failure
    · split at failure <;> cases failure
      rfl
  split at failure
  · next v crosses =>
      cases failure
      rfl
  · rcases Except.bind_eq_error failure with failure | ⟨_, -, failure⟩
    · exact Splice.checkWhole_blameless failure
    · cases failure

end EventGate

/-! ### Room for a gate -/

namespace Splice.Done

variable {symbols : SymbolTable} {options : SpliceOptions} {body : Body} {point : Nat}
  {t : Template} (d : Done symbols options body point t)

/-- The new body stays below the limit if the original one does, and the run and the stub have room
    on top of the depth at the splice point. -/
theorem depthsBelow {peak : Nat} (climbs : Climbs symbols d.signature peak 0 d.run 0)
    (unlabelled : Code.labels d.run = []) (level : d.delta = 0) (high : 1 ≤ peak)
    (room : d.depth + peak ≤ options.maxStack) :
    d.result.DepthsBelow symbols d.signature d.depths options.maxStack := by
  intro p k ins effect known here effect_eq
  rcases d.depths_cases known with ⟨i, rfl, found⟩ | ⟨o, r, within, rfl, found, rfl⟩ |
    ⟨j, within, rfl, rfl⟩
  · obtain ⟨old, effect', there, suits, -⟩ := d.verified.map.step found
    obtain ⟨ins', here', alike⟩ := d.getElem?_moved there
    obtain rfl := Option.some.inj (here.symm.trans here')
    rw [RunEffect.ofInstruction_alike alike] at effect_eq
    exact d.verified.below i k old effect found there effect_eq
  · have inRun := List.getElem?_eq_getElem within
    obtain ⟨ins', here', alike⟩ := d.getElem?_inside inRun
    obtain rfl := Option.some.inj (here.symm.trans here')
    rw [RunEffect.ofInstruction_alike alike] at effect_eq
    obtain ⟨j, change, sum, change_eq, enough, below⟩ := climbs.step inRun
    obtain rfl := Except.ok.inj (effect_eq.symm.trans change_eq)
    obtain ⟨r', arrived⟩ := d.explored.exists_arrives (d.explored.reached found)
    have same := d.explored.depthAt?_of_arrives arrived
    obtain rfl := Option.some.inj (found.symm.trans same)
    have depth := arrived.straight unlabelled
    unfold StackEffect.behind at below ⊢
    omega
  · rw [d.getElem?_stub] at here
    obtain ⟨v, -, code⟩ := d.stub_cases here
    rw [code] at here
    have left : d.left = d.depth := by
      unfold left
      rw [level, Int.add_zero]
      exact Int.toNat_natCast d.depth
    unfold StackEffect.behind
    rcases returnStub_getElem? here with ⟨-, alike⟩ | ⟨load, only, start, alike⟩ | ⟨-, alike⟩
    · rw [RunEffect.ofInstruction_alike alike] at effect_eq
      cases effect_eq
      show _ - 1 + 0 ≤ options.maxStack
      split <;> omega
    · have pushes : effect = ⟨0, 1⟩ := by
        rw [RunEffect.ofInstruction_alike alike] at effect_eq
        cases v <;> cases only <;> cases effect_eq <;> rfl
      have finds : j = d.left := start
      rw [pushes, if_pos (Nat.le_of_eq finds)]
      show d.left - j - 0 + 1 ≤ options.maxStack
      omega
    · rw [RunEffect.ofInstruction_alike alike] at effect_eq
      cases effect_eq
      show _ - StackEffect.results d.signature.ret + 0 ≤ options.maxStack
      split <;> omega

/-- Outside of all regions no deny branch of an early return crosses one. -/
theorem uncrossed (outside : ∀ r ∈ body.regions, r.protects point = false ∧ r.handles point = false)
    (exits : ∀ e ∈ d.effect.exits, e.offset < d.run.length) (unknown : d.site.target = none) :
    crossing? d.result.regions point d.effect d.site.label d.denyPosition = none := by
  have position : d.denyPosition = body.size + d.run.length := by
    unfold denyPosition
    rw [unknown]
  unfold crossing?
  rw [List.findSome?_eq_none_iff]
  intro e member
  have within := exits e (List.mem_filter.mp member).1
  have apart : (d.result.regions.any fun r =>
      r.protects (point + e.offset) != r.protects d.denyPosition ||
        r.handles (point + e.offset) != r.handles d.denyPosition) = false := by
    rw [d.regions_eq, List.any_eq_false]
    intro shifted listed
    obtain ⟨r, original, rfl⟩ := List.mem_map.mp listed
    obtain ⟨protects, handles⟩ := outside r original
    have bounds : StackMap.inBounds (body.size + d.run.length) (r.shiftAfter point d.run.length) :=
      inBounds_shiftAfter r (d.verified.structured.regions r original) (Nat.le_refl _)
    obtain ⟨protects', handles'⟩ := Region.outside_of_inBounds bounds (Nat.le_of_eq position.symm)
    rw [protects_inside r within, handles_inside r within, protects, handles, protects', handles']
    decide
  simp only [apart, Bool.false_eq_true, if_false]

end Splice.Done

namespace EventGate

/-- What a body and the options have to be like for a gate that returns early to fit in at a
    point. -/
structure FitsAt (g : EventGate) (symbols : SymbolTable) (options : SpliceOptions) (body : Body)
    (point : Nat) (v : ReturnValue) (signature : MethodDef) (map : StackMap) : Prop where
  declared : symbols.method? body.method = some signature
  /-- The original body verifies under the same limit. -/
  analyzed : StackMap.analyze symbols body options.maxStack = .ok map
  room : ∀ depth, map.depthAt? point = some depth → depth + 2 ≤ options.maxStack
  verify : options.verify = true
  fresh : body.Fresh
  closed : Splice.endsOpen body = false
  slot : body.locals.length < Body.slotLimit
  /-- There is a number for the label of the return, and one for the allocator behind it. -/
  number : body.Spares 1
  /-- The arguments, locals and fields that are captured are there, and the fields are static where
      they have to be. -/
  captures : ∀ k ∈ g.captures, ∀ ins ∈ k.load, body.OperandInRange symbols signature.argCount ins
  readBack : ∀ e ∈ g.readBack, body.OperandInRange symbols signature.argCount e.2.store
  outside : ∀ r ∈ body.regions, r.protects point = false ∧ r.handles point = false
  deny : g.deny = .returning v
  fits : v.fits signature

variable {g : EventGate} {t : Template} {before after symbols : SymbolTable} {body : Body}

/-- What a gate emits names only what is there. -/
theorem emitted_inRange {contract : EventContract} {allowed : FieldId}
    {stores : List (FieldId × Slot)} {argCount : Nat} (shaped : contract.Shaped symbols)
    (known : (contract.eventClass g.kind).field? .allowed = some allowed)
    (listed : Stores (contract.eventClass g.kind) g.readBack stores)
    (captures : ∀ k ∈ g.captures, ∀ ins ∈ k.load, body.OperandInRange symbols argCount ins)
    (readBack : ∀ e ∈ g.readBack, body.OperandInRange symbols argCount e.2.store)
    {ins : Instruction} (emitted : .emit ins ∈ g.steps contract allowed stores) :
    body.OperandInRange symbols argCount ins := by
  have field {f : Event.PayloadField} {id : FieldId}
      (found : (contract.eventClass g.kind).field? f = some id) :
      body.OperandInRange symbols argCount (.of .ldfld (.field id)) := by
    obtain ⟨d, here, instanced⟩ := shaped.fields g.kind _ (mem_of_lookup found)
    exact ⟨d, here, instanced⟩
  obtain ⟨made, constructs, -⟩ := shaped.constructor g.kind
  obtain ⟨dispatched, dispatches, -⟩ := shaped.dispatch
  rcases emit_cases emitted with ⟨k, member, loaded⟩ | rfl | rfl | rfl | ⟨e, member, same⟩ | rfl
  · exact captures k member ins loaded
  · exact Option.isSome_of_eq_some constructs
  · trivial
  · exact Option.isSome_of_eq_some dispatches
  · obtain ⟨e', inReadBack, found, slot⟩ := listed.exists_of_mem member
    rcases same with rfl | rfl
    · exact field found
    · exact slot ▸ readBack e' inReadBack
  · exact field known

variable {options : SpliceOptions} {point : Nat} {v : ReturnValue} {signature : MethodDef}
  {map : StackMap} {depth : Nat}

/-- Each step of the splice succeeds. -/
theorem FitsAt.exists_done (fit : g.FitsAt symbols options body point v signature map)
    (known : map.depthAt? point = some depth) (built : g.build.runOn before = (.ok t, after))
    (split : before.KeysSplit) (grown : after.Extends symbols) :
    ∃ d : Splice.Done symbols options body point t,
      d.signature = signature ∧ d.depth = depth ∧ d.delta = 0 ∧ d.site.target = none ∧
      ∀ e ∈ d.effect.exits, e.offset < d.run.length := by
  obtain ⟨balanced, deny, unmarked, one⟩ := build_plain built
  have allocated : body.freshLabel? options.overflow = some (⟨body.nextLabel⟩, body.advance 1) :=
    Body.freshLabel?_eq_some.mpr ⟨fun _ => fit.number, rfl, rfl⟩
  have sited : Splice.denySite options.overflow body signature point t.deny =
      .ok ⟨⟨body.nextLabel⟩, none, body.advance 1⟩ := by
    rw [deny, fit.deny, Splice.denySite, fit.fits, fit.closed, allocated]
    rfl
  obtain ⟨labels, wide, -, -, expanded⟩ := @Template.materialize_of_room options.overflow t
    (body.advance 1) ⟨body.nextLabel⟩ (by
      rw [one]
      exact Nat.le_sub_of_add_le' fit.slot)
    (unmarked ▸ Body.spares_zero _)
  obtain ⟨effect, computed, delta, needs, exits⟩ :=
    exists_effect_of_materialize built split grown signature expanded
  have inside : point < body.size := by
    obtain ⟨enclosing, -, verified⟩ := StackMap.analyze_eq_ok fit.analyzed
    obtain ⟨ins, -, here, -⟩ := verified.map.step known
    exact (List.getElem?_eq_some_iff.mp here).1
  exact ⟨{
    signature, map, depth, wide, effect, inside, known, sited, expanded, computed
    run := _
    site := ⟨⟨body.nextLabel⟩, none, body.advance 1⟩
    delta := 0
    wellFormed := (build_checked built).2
    declared := fit.declared
    analyzed := fit.analyzed
    checked := Splice.checkRun_balanced balanced delta needs
      fun e member => (exits e member).1 }, rfl, rfl, rfl, rfl, fun e member => (exits e member).2⟩

/-- The new body verifies. -/
theorem FitsAt.exists_analyze (fit : g.FitsAt symbols options body point v signature map)
    (known : map.depthAt? point = some depth) (built : g.build.runOn before = (.ok t, after))
    (split : before.KeysSplit) (grown : after.Extends symbols)
    (d : Splice.Done symbols options body point t)
    (own : d.signature = signature) (level : d.depth = depth) (drained : d.delta = 0)
    (unknown : d.site.target = none)
    (uncrossed : Splice.crossing? d.result.regions point d.effect d.site.label d.denyPosition =
      none) : ∃ map', StackMap.analyze symbols d.result options.maxStack = .ok map' := by
  obtain ⟨contract, allowed, stores, shaped, found, listed, template⟩ :=
    build_shaped built split grown
  obtain ⟨balanced, deny, unmarked, one⟩ := build_plain built
  have steps : t.steps = g.steps contract allowed stores :=
    congrArg HookSplice.Template.steps template
  obtain ⟨slot, -, code⟩ := materialize_steps steps one d.expanded
  have distinct := d.distinct_of_fresh fit.fresh (by
    unfold Template.labelCount
    rw [deny, fit.deny, unmarked]
    exact fit.number)
  have structured := d.structured distinct (fun ins emitted => by
    rw [steps] at emitted
    rw [own]
    exact emitted_inRange shaped found listed fit.captures fit.readBack emitted) uncrossed
  have depths := d.depthMap distinct (fun target known => by rw [unknown] at known; cases known)
    balanced fun ins emitted => by
      rw [steps] at emitted
      exact ne_ret_of_emit emitted
  have climbs : Climbs symbols d.signature 2 0 d.run 0 :=
    code ▸ climbs_code shaped (build_checked built).1
  have room : d.depth + 2 ≤ options.maxStack := level ▸ fit.room depth known
  have below := d.depthsBelow climbs (code ▸ labels_code) drained (by decide) room
  have nonempty : 0 < d.result.size := by
    have inside := d.inside
    rw [d.size_eq]
    omega
  have outcome := StackMap.analyze_overflows options.maxStack True nonempty
    (d.method_eq ▸ d.declared) structured depths fun _ => below
  cases analyzed : StackMap.analyze symbols d.result options.maxStack with
  | ok map' => exact ⟨map', rfl⟩
  | error violation =>
      rw [analyzed] at outcome
      exact absurd trivial outcome.2

theorem FitsAt.exists_splice (fit : g.FitsAt symbols options body point v signature map)
    (known : map.depthAt? point = some depth) (built : g.build.runOn before = (.ok t, after))
    (split : before.KeysSplit) (grown : after.Extends symbols) :
    ∃ s, splice symbols options body point t = .ok s ∧
      s.depth = depth ∧ s.denyPosition = body.size + s.count ∧
      s.body.code.drop (body.size + s.count) = Splice.withLabels [s.denyLabel]
        (List.replicate depth (.plain .pop) ++ v.load ++ [.plain .ret]) := by
  obtain ⟨d, own, level, drained, unknown, exits⟩ := fit.exists_done known built split grown
  have uncrossed := d.uncrossed fit.outside exits unknown
  obtain ⟨map', analyzed⟩ := fit.exists_analyze known built split grown d own level drained
    unknown uncrossed
  have whole : Splice.checkWhole symbols options d.result = .ok () := by
    unfold Splice.checkWhole
    rw [if_pos fit.verify, analyzed]
  refine ⟨_, Splice.splice_of_done d uncrossed whole, level, ?_, ?_⟩
  · show d.denyPosition = _
    unfold Splice.Done.denyPosition
    rw [unknown]
  · have deny : t.deny = .returning v := (build_plain built).2.1.trans fit.deny
    have front : (Splice.insertRun d.site.body.code point d.run).length =
        body.size + d.run.length := by
      rw [Splice.length_insertRun d.run d.point_lt, (Splice.denySite_eq_ok d.sited).length_eq]
      rfl
    show d.result.code.drop (body.size + d.run.length) = _
    rw [d.code_eq, List.drop_left' front, Splice.Done.stub, deny, Splice.stubFor, drained, level,
      Int.add_zero, Int.toNat_natCast]
    rfl

/-- Gates are accepted wherever control comes.  Over a table in which the keys of the methods come
    apart, as they do in every table that is read from an image, a splice of a gate that builds
    never fails for the sake of the gate, in whatever body, at whatever point that control reaches.
    Where the gate fits, the splice succeeds, with a stub behind the code that pops the values found
    at the point, loads the result and returns.  The keys still come apart in the table that the
    gate was built over. -/
theorem accepted (split : before.KeysSplit) (built : g.build.runOn before = (.ok t, after))
    (grown : after.Extends symbols) (reached : body.Reaches point) (options : SpliceOptions) :
    after.KeysSplit ∧
    (∀ e, splice symbols options body point t = .error e → e.blamesGate = false) ∧
    ∀ (v : ReturnValue) (signature : MethodDef) (map : StackMap),
      g.FitsAt symbols options body point v signature map →
      ∃ depth s, map.depthAt? point = some depth ∧
        splice symbols options body point t = .ok s ∧ s.depth = depth ∧
        s.denyPosition = body.size + s.count ∧
        s.body.code.drop (body.size + s.count) = Splice.withLabels [s.denyLabel]
          (List.replicate depth (.plain .pop) ++ v.load ++ [.plain .ret]) := by
  obtain ⟨contract, declared, -⟩ := build_templateOver built
  refine ⟨EventContract.declare_keysSplit declared split,
    fun e failure => splice_blameless built split grown reached failure,
    fun v signature map fit => ?_⟩
  obtain ⟨depth, known⟩ := Option.isSome_iff_exists.mp
    ((StackMap.depthAt?_isSome_iff fit.analyzed).mpr reached)
  obtain ⟨s, success, level, position, stub⟩ := fit.exists_splice known built split grown
  exact ⟨depth, s, known, success, level, position, stub⟩

open Gating (shop rationing selling verifying)

theorem shop_keysSplit : shop.KeysSplit := by
  intro e member
  obtain rfl := List.mem_singleton.mp member
  exact ⟨"Shop".toList, ["object".toList, "int".toList], by decide +kernel, rfl⟩

/-- The symbols of the shop with the event contract. -/
def stocked : SymbolTable :=
  (rationing.build.runOn shop).2

theorem exists_analyze {symbols : SymbolTable} {body : Body} {limit position depth : Nat}
    (found : ((StackMap.analyze symbols body limit).toOption.map fun m => m.depthAt? position) =
      some (some depth)) : ∃ map, StackMap.analyze symbols body limit = .ok map ∧
        map.depthAt? position = some depth := by
  cases analyzed : StackMap.analyze symbols body limit with
  | error v =>
      rw [analyzed] at found
      cases found
  | ok map =>
      rw [analyzed] at found
      exact ⟨map, rfl, Option.some.inj found⟩

/-- The gate of the shop fits in behind the load of the number. -/
theorem rationing_fitsAt : ∃ map,
    rationing.FitsAt stocked verifying selling 1 (.int 0)
      ⟨⟨0⟩, "Sell", [⟨1⟩, ⟨2⟩], some ⟨2⟩, true⟩ map ∧ map.depthAt? 1 = some 1 := by
  have behind : ∃ map, StackMap.analyze stocked selling 8 = .ok map ∧ map.depthAt? 1 = some 1 :=
    exists_analyze (by decide +kernel)
  obtain ⟨map, analyzed, known⟩ := behind
  refine ⟨map, ?_, known⟩
  exact {
    declared := by decide +kernel
    analyzed := analyzed
    room := fun depth here => by
      obtain rfl := Option.some.inj (here.symm.trans known)
      decide
    verify := rfl
    fresh := Body.ofParts_fresh _ _ _ rfl
    closed := rfl
    slot := by decide
    number := by decide
    captures := fun k member ins loaded => by
      rcases List.mem_pair.mp member with rfl | rfl <;>
        obtain rfl := List.mem_singleton.mp loaded
      · exact Nat.lt_succ_of_lt Nat.one_pos
      · exact Nat.lt_succ_self 1
    readBack := fun e member => by
      obtain rfl := List.mem_singleton.mp member
      exact Nat.lt_succ_self 1
    outside := fun r member => absurd member List.not_mem_nil
    deny := rfl
    fits := rfl }

/-- A denied sale drops the number that was loaded, and gives back that nothing was sold.  Where the
    stack has no room for the event, the gate is refused for the body that would overflow. -/
theorem rationing_accepted :
    (∃ h, Image.read ".extern int Shop::Sell(object, int)" = .ok h ∧ h.symbols.KeysSplit) ∧
    stocked.KeysSplit ∧ ∃ t, (rationing.build.runOn shop).1 = .ok t ∧
      (∃ e, splice stocked ⟨true, 1, .stops⟩ selling 1 t = .error e ∧ e.blamesGate = false) ∧
      ∃ s, splice stocked verifying selling 1 t = .ok s ∧ s.depth = 1 ∧
        s.body.code.drop (selling.size + s.count) =
          [⟨.pop, .none, [s.denyLabel]⟩, .of .ldc (.int 0), .plain .ret] := by
  obtain ⟨t, built, refused⟩ : ∃ t, rationing.build.runOn shop = (.ok t, stocked) ∧
      (splice stocked ⟨true, 1, .stops⟩ selling 1 t).toOption = none :=
    ⟨_, Except.run_eq_ok_value (by decide +kernel), by decide +kernel⟩
  obtain ⟨map, fit, known⟩ := rationing_fitsAt
  have reached : selling.Reaches 1 :=
    (StackMap.depthAt?_isSome_iff fit.analyzed).mp (by rw [known]; rfl)
  have gate := accepted shop_keysSplit built (.refl stocked) reached
  refine ⟨⟨_, Except.eq_ok_value (by decide +kernel),
    Image.read_keysSplit (Except.eq_ok_value _)⟩, (gate verifying).1, t, congrArg Prod.fst built,
    ?_, ?_⟩
  · cases failure : splice stocked ⟨true, 1, .stops⟩ selling 1 t with
    | error e => exact ⟨e, rfl, (gate ⟨true, 1, .stops⟩).2.1 e failure⟩
    | ok s =>
        rw [failure] at refused
        cases refused
  · obtain ⟨depth, s, here, success, level, -, stub⟩ := (gate verifying).2.2 _ _ map fit
    obtain rfl := Option.some.inj (here.symm.trans known)
    exact ⟨s, success, level, stub⟩

/-! ### Gates that are refused -/

/-- The symbols of the shop with a constructor whose one parameter is named like two. -/
def mashed : SymbolTable :=
  let s : SymbolTable := { shop with
    typeNames := shop.typeNames ++ ["Hookwright.Events.TargetedEvent", "object,object"] }
  match s.declareMethod ⟨⟨3⟩, ".ctor", [⟨4⟩], none, false⟩ with
  | .ok (_, declared) => declared
  | .error _ => s

/-- A gate that tells about an article and nobody who buys it. -/
def targeting : EventGate :=
  ⟨"sell", .targeted, [.arg 0, .null], [], .returning (.int 0)⟩

/-- A body that gives back the number, with the last label but one. -/
def numbered : Body :=
  .ofParts ⟨0⟩ [⟨.ldarg, .arg 1, [⟨4294967294⟩]⟩, .plain .ret] [] []

/-- Both conditions are needed.  Where the key of a method does not come apart, the event contract
    takes the method for its own constructor, which has two parameters, and the gate leaves a value
    on the stack.  Where a single number is left for labels, the early return takes it, and there is
    none for the allocator behind it. -/
theorem gates_refused :
    (∃ t after, targeting.build.runOn mashed = (.ok t, after) ∧ selling.Reaches 0 ∧
      splice after verifying selling 0 t = .error (.stackImbalance 0 1)) ∧
    ∃ t map, rationing.build.runOn shop = (.ok t, stocked) ∧
      StackMap.analyze stocked numbered 8 = .ok map ∧ map.depthAt? 1 = some 1 ∧
      numbered.Fresh ∧ splice stocked verifying numbered 1 t = .error .labelsExhausted := by
  have start : ∃ map, StackMap.analyze stocked selling 8 = .ok map ∧ map.depthAt? 0 = some 0 :=
    exists_analyze (by decide +kernel)
  have behind : ∃ map, StackMap.analyze stocked numbered 8 = .ok map ∧
      map.depthAt? 1 = some 1 :=
    exists_analyze (by decide +kernel)
  obtain ⟨_, analyzed, known⟩ := start
  obtain ⟨map, analyzed', known'⟩ := behind
  refine ⟨⟨_, _, Except.run_eq_ok_value (by decide +kernel), ?_, by decide +kernel⟩, ?_⟩
  · exact (StackMap.depthAt?_isSome_iff analyzed).mp (Option.isSome_of_eq_some known)
  · exact ⟨_, map, Except.run_eq_ok_value (by decide +kernel), analyzed', known',
      Body.ofParts_fresh _ _ _ rfl, by decide +kernel⟩

end EventGate

end HookSplice
