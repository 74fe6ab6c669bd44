import HookSplice.Proofs.Declarations
import HookSplice.Proofs.Exploration
import HookSplice.Proofs.Splicing

/-!
# The code of a gate

What the template of an event gate expands to: a straight run that makes the event from the captured
values, dispatches it, stores the fields that are to be read back, and branches away when the event
is not allowed any more.
-/

namespace HookSplice

open Event (PayloadField PayloadKind)

/-! ### Straight runs -/

namespace RunEffect

/-- The change in stack depth that an instruction makes. -/
def net (symbols : SymbolTable) (enclosing : MethodDef) (ins : Instruction) : Int :=
  match StackEffect.ofInstruction symbols enclosing ins with
  | .ok change => change.delta
  | .error _ => 0

theorem net_eq {symbols : SymbolTable} {enclosing : MethodDef} {ins : Instruction}
    {change : StackEffect} (known : StackEffect.ofInstruction symbols enclosing ins = .ok change) :
    net symbols enclosing ins = change.delta := by
  unfold net
  rw [known]

/-- The change in stack depth that instructions make together, one after the other. -/
def total (symbols : SymbolTable) (enclosing : MethodDef) : List Instruction → Int
  | [] => 0
  | ins :: rest => net symbols enclosing ins + total symbols enclosing rest

theorem total_append (symbols : SymbolTable) (enclosing : MethodDef) (xs ys : List Instruction) :
    total symbols enclosing (xs ++ ys) =
      total symbols enclosing xs + total symbols enclosing ys := by
  induction xs with
  | nil => exact (Int.zero_add _).symm
  | cons x rest ih =>
      rw [List.cons_append, total, total, ih, Int.add_assoc]

variable {symbols : SymbolTable} {enclosing : MethodDef} {code : List Instruction}
  {effect : RunEffect}

theorem Run.straight_from (run : Run symbols enclosing code effect) (front : List Instruction)
    {rest : List Instruction} (split : code = front ++ rest)
    (falls : ∀ ins ∈ rest, ins.opcode.fallsThrough) {r : Int}
    (known : depthAt? symbols enclosing code front.length = some r) :
    effect.delta = r + total symbols enclosing rest ∧
      ∀ ins ∈ rest, ∃ change, StackEffect.ofInstruction symbols enclosing ins = .ok change := by
  induction rest generalizing front r with
  | nil =>
      have final := run.final
      rw [split, List.append_nil] at final
      rw [split, List.append_nil, final] at known
      refine ⟨?_, fun ins member => by cases member⟩
      simpa [total] using Option.some.inj known
  | cons ins rest ih =>
      have here : code[front.length]? = some ins := by
        rw [split, List.getElem?_append_right (Nat.le_refl _), Nat.sub_self,
          List.getElem?_cons_zero]
      obtain ⟨change, effect_eq, -, -, -, onward, -⟩ := run.step known here
      obtain ⟨first, others⟩ := List.forall_mem_cons.mp falls
      have next := onward first
      rw [show front.length + 1 = (front ++ [ins]).length by simp] at next
      obtain ⟨sum, known⟩ := ih (front ++ [ins]) (by rw [split, List.append_assoc]; rfl)
        others next
      refine ⟨?_, List.forall_mem_cons.mpr ⟨⟨change, effect_eq⟩, known⟩⟩
      rw [sum, total, net_eq effect_eq, Int.add_assoc]

/-- A straight run changes the depth by what its instructions do together. -/
theorem Run.straight (run : Run symbols enclosing code effect)
    (falls : ∀ ins ∈ code, ins.opcode.fallsThrough) :
    effect.delta = total symbols enclosing code ∧
      ∀ ins ∈ code, ∃ change, StackEffect.ofInstruction symbols enclosing ins = .ok change := by
  obtain ⟨sum, known⟩ := run.straight_from [] rfl falls run.entry
  exact ⟨by rw [sum, Int.zero_add], known⟩

end RunEffect

namespace Template

/-- Instructions that are emitted expand to themselves. -/
theorem expand_emitAll (slots : List UInt16) (labels : List (Nat × Label)) (deny : Label)
    (code : List Instruction) (rest : List Step) :
    expand slots labels deny [] (EventGate.emitAll code ++ rest) =
      code ++ expand slots labels deny [] rest := by
  induction code with
  | nil => rfl
  | cons ins code ih =>
      show ins.attach [] :: expand slots labels deny [] (EventGate.emitAll code ++ rest) = _
      rw [ih]
      simp [Instruction.attach]

end Template

/-! ### Gates -/

namespace EventGate

/-- The code that makes the event of a gate from captured values and dispatches it. -/
def dispatching (g : EventGate) (contract : EventContract) (slot : UInt16) : List Instruction :=
  [.of .newobj (.method (contract.eventClass g.kind).constructor), .of .stloc (.slot slot),
    .of .ldstr (.text g.hook), .of .ldloc (.slot slot), .of .call (.method contract.dispatch)]

/-- The code that stores fields of the event away. -/
def storing (stores : List (FieldId × Slot)) (slot : UInt16) : List Instruction :=
  stores.flatMap fun e => [.of .ldloc (.slot slot), .of .ldfld (.field e.1), e.2.store]

/-- The code that branches to the deny label unless the event is still allowed. -/
def asking (allowed : FieldId) (slot : UInt16) (deny : Label) : List Instruction :=
  [.of .ldloc (.slot slot), .of .ldfld (.field allowed), .of .brfalse (.label deny)]

/-- The code of a gate. -/
def code (g : EventGate) (contract : EventContract) (allowed : FieldId)
    (stores : List (FieldId × Slot)) (slot : UInt16) (deny : Label) : List Instruction :=
  g.captures.flatMap Capture.load ++ g.dispatching contract slot ++
    (storing stores slot ++ asking allowed slot deny)

section Code

variable {g : EventGate} {contract : EventContract} {allowed : FieldId}
  {stores : List (FieldId × Slot)} {slot : UInt16} {deny : Label} {j : Nat} {ins : Instruction}

theorem code_storing (here : (storing stores slot)[j]? = some ins) :
    (g.code contract allowed stores slot deny)[
      (g.captures.flatMap Capture.load ++ g.dispatching contract slot).length + j]? = some ins :=
  (getElem?_append_add ..).trans (getElem?_append_of_eq_some here _)

theorem code_asking (here : (asking allowed slot deny)[j]? = some ins) :
    (g.code contract allowed stores slot deny)[
      (g.captures.flatMap Capture.load ++ g.dispatching contract slot).length +
        (storing stores slot).length + j]? = some ins := by
  rw [code, Nat.add_assoc, getElem?_append_add, getElem?_append_add]
  exact here

theorem length_code : (g.code contract allowed stores slot deny).length =
    (g.captures.flatMap Capture.load ++ g.dispatching contract slot).length +
      (storing stores slot).length + 3 := by
  simp only [code, asking, List.length_append, List.length_cons, List.length_nil]
  omega

end Code

/-- The steps that store fields of the event away. -/
def storeSteps (stores : List (FieldId × Slot)) : List Step :=
  stores.flatMap fun e => [.loadScratch 0, .emit (.of .ldfld (.field e.1)), .emit e.2.store]

/-- The steps of a gate that stores fields of the event away. -/
def steps (g : EventGate) (contract : EventContract) (allowed : FieldId)
    (stores : List (FieldId × Slot)) : List Step :=
  emitAll (g.captures.flatMap Capture.load) ++
    [.emit (.of .newobj (.method (contract.eventClass g.kind).constructor)), .storeScratch 0,
      .emit (.of .ldstr (.text g.hook)), .loadScratch 0,
      .emit (.of .call (.method contract.dispatch))] ++
    storeSteps stores ++
    [.loadScratch 0, .emit (.of .ldfld (.field allowed)), .branch .brfalse .deny]

/-- A gate places no markers. -/
theorem marks_steps {g : EventGate} {contract : EventContract} {allowed : FieldId}
    {stores : List (FieldId × Slot)} :
    (g.steps contract allowed stores).filterMap Step.placed? = [] := by
  have emitted (code : List Instruction) : (emitAll code).filterMap Step.placed? = [] := by
    unfold emitAll
    rw [List.filterMap_map, List.filterMap_eq_nil_iff]
    exact fun _ _ => rfl
  have stored : (storeSteps stores).filterMap Step.placed? = [] := by
    rw [storeSteps, List.filterMap_flatMap, List.flatMap_eq_nil_iff]
    exact fun _ _ => rfl
  simp only [steps, List.filterMap_append, emitted, stored]
  rfl

/-- Fields of an event class that are to be read back, with their slots, and the same with the
    handles of the fields. -/
def Stores (c : EventClass) : List (PayloadField × Slot) → List (FieldId × Slot) → Prop :=
  List.Forall₂ fun e s => c.field? e.1 = some s.1 ∧ s.2 = e.2

theorem Stores.exists_of_mem {c : EventClass} {readBack : List (PayloadField × Slot)}
    {stores : List (FieldId × Slot)} (listed : Stores c readBack stores) {s : FieldId × Slot}
    (member : s ∈ stores) : ∃ e ∈ readBack, c.field? e.1 = some s.1 ∧ s.2 = e.2 := by
  induction listed with
  | nil => cases member
  | @cons e s' rest others same _ ih =>
      rcases List.mem_cons.mp member with rfl | later
      · exact ⟨e, List.mem_cons_self .., same⟩
      · obtain ⟨e', listed, same'⟩ := ih later
        exact ⟨e', List.mem_cons_of_mem _ listed, same'⟩

theorem readBackSteps_eq_ok {kind : PayloadKind} {c : EventClass}
    {readBack : List (PayloadField × Slot)} {parts : List (List Step)}
    (success : (readBack.mapM fun (field, slot) => readBackSteps kind c field slot) = .ok parts) :
    ∃ stores, Stores c readBack stores ∧ parts.flatten = storeSteps stores := by
  induction readBack generalizing parts with
  | nil =>
      cases success
      exact ⟨[], .nil, rfl⟩
  | cons e rest ih =>
      obtain ⟨field, slot⟩ := e
      rw [List.mapM_cons] at success
      obtain ⟨first, known, success⟩ := Except.bind_eq_ok success
      obtain ⟨others, later, success⟩ := Except.bind_eq_ok success
      cases success
      obtain ⟨stores, listed, steps⟩ := ih later
      cases found : c.field? field with
      | none =>
          simp only [readBackSteps, found] at known
          cases known
      | some id =>
          simp only [readBackSteps, found] at known
          cases known
          refine ⟨(id, slot) :: stores, .cons ⟨found, rfl⟩ listed, ?_⟩
          rw [List.flatten_cons, steps]
          rfl

/-- The template of a gate over a contract, up to the handles of the fields that it stores. -/
theorem templateOver_steps {g : EventGate} {contract : EventContract} {t : Template}
    (success : g.templateOver contract = .ok t) : ∃ allowed stores,
      (contract.eventClass g.kind).field? .allowed = some allowed ∧
      Stores (contract.eventClass g.kind) g.readBack stores ∧
      t = ⟨g.steps contract allowed stores, [(contract.eventClass g.kind).type], 0, g.deny⟩ := by
  unfold templateOver at success
  cases known : (contract.eventClass g.kind).field? .allowed with
  | none =>
      simp only [known] at success
      cases success
  | some allowed =>
      simp only [known] at success
      obtain ⟨parts, read, success⟩ := Except.bind_eq_ok success
      obtain ⟨stores, listed, steps⟩ := readBackSteps_eq_ok read
      cases success
      exact ⟨allowed, stores, rfl, listed, by rw [steps]; rfl⟩

/-- Building a gate declares the contract and makes the template over it. -/
theorem build_templateOver {g : EventGate} {s s' : SymbolTable} {t : Template}
    (built : g.build.runOn s = (.ok t, s')) : ∃ contract,
      EventContract.declare.runOn s = (.ok contract, s') ∧ g.templateOver contract = .ok t := by
  unfold build at built
  simp only at built
  split at built
  · cases built
  · obtain ⟨contract, middle, adapted, built⟩ := Declaring.runOn_bind_eq_ok built
    have declared := Declaring.runOn_adapt_eq_ok adapted
    split at built
    · next t' made =>
        cases built
        obtain ⟨t', templated, shaped⟩ := Except.bind_eq_ok made
        have same : t' = t := by
          unfold checked at shaped
          split at shaped
          · cases shaped
          · exact Except.ok.inj shaped
        exact ⟨contract, declared, same ▸ templated⟩
    · cases built

theorem expand_storeSteps (slot : UInt16) (labels : List (Nat × Label)) (deny : Label)
    (stores : List (FieldId × Slot)) (rest : List Step) :
    Template.expand [slot] labels deny [] (storeSteps stores ++ rest) =
      storing stores slot ++ Template.expand [slot] labels deny [] rest := by
  induction stores with
  | nil => rfl
  | cons e others ih =>
      obtain ⟨id, target⟩ := e
      have first (later : List Step) : Template.expand [slot] labels deny []
          ([.loadScratch 0, .emit (.of .ldfld (.field id)), .emit target.store] ++ later) =
            [.of .ldloc (.slot slot), .of .ldfld (.field id), target.store] ++
              Template.expand [slot] labels deny [] later := by
        cases target <;> rfl
      rw [storeSteps, List.flatMap_cons, List.append_assoc, first, storing, List.flatMap_cons,
        List.append_assoc]
      exact congrArg _ ih

/-- What the template of a gate expands to. -/
theorem materialize_steps {g : EventGate} {contract : EventContract} {allowed : FieldId}
    {stores : List (FieldId × Slot)} {t : Template}
    (steps : t.steps = g.steps contract allowed stores)
    (scratch : t.scratch.length = 1) {overflow : Overflow} {body wide : Body} {deny : Label}
    {run : List Instruction} (success : t.materialize overflow body deny = .ok (run, wide)) :
    ∃ slot : UInt16, slot.toNat = body.locals.length ∧
      run = g.code contract allowed stores slot deny := by
  obtain ⟨slots, labels, declared, -, rfl⟩ := Template.materialize_eq_ok success
  have length := Template.length_of_declareScratch declared
  rw [scratch, List.length_eq_one_iff] at length
  obtain ⟨slot, rfl⟩ := length
  obtain ⟨beyond, within⟩ := Template.mem_declareScratch declared (List.mem_singleton_self _)
  rw [List.length_append, scratch] at within
  refine ⟨slot, by omega, ?_⟩
  rw [steps, EventGate.steps, List.append_assoc, List.append_assoc, Template.expand_emitAll, code,
    List.append_assoc]
  show _ ++ (g.dispatching contract slot ++ Template.expand [slot] labels deny []
    (storeSteps stores ++ _)) = _
  rw [expand_storeSteps]
  rfl

end EventGate

/-! ### The depth along a gate -/

section Depth

variable {symbols : SymbolTable} {enclosing : MethodDef}

theorem Capture.fallsThrough {k : Capture} {ins : Instruction} (loaded : ins ∈ k.load) :
    ins.opcode.fallsThrough := by
  cases k with
  | arg | slot | int | text | null | staticField =>
      obtain rfl := List.mem_singleton.mp loaded
      rfl
  | argField | slotField => obtain rfl | rfl := List.mem_pair.mp loaded <;> rfl

theorem Capture.total_load (k : Capture) :
    RunEffect.total symbols enclosing k.load = 1 := by
  cases k <;> rfl

theorem Capture.total_loads (captures : List Capture) :
    RunEffect.total symbols enclosing (captures.flatMap Capture.load) = captures.length := by
  induction captures with
  | nil => rfl
  | cons k rest ih =>
      rw [List.flatMap_cons, RunEffect.total_append, ih, Capture.total_load, List.length_cons]
      omega

theorem RunEffect.net_newobj {id : MethodId} {signature : MethodDef}
    (declared : symbols.method? id = some signature) {change : StackEffect}
    (known : StackEffect.ofInstruction symbols enclosing (.of .newobj (.method id)) = .ok change) :
    net symbols enclosing (.of .newobj (.method id)) = 1 - signature.params.length := by
  rw [net_eq known]
  have called : StackEffect.ofCall symbols (.of .newobj (.method id)) = .ok change := known
  simp only [StackEffect.ofCall, Instruction.of, declared, if_true] at called
  split at called
  · cases called
    rfl
  · cases called

theorem RunEffect.net_call {id : MethodId} {signature : MethodDef}
    (declared : symbols.method? id = some signature) (void : signature.ret = none) :
    net symbols enclosing (.of .call (.method id)) = -signature.argCount := by
  have known : StackEffect.ofInstruction symbols enclosing (.of .call (.method id)) =
      .ok ⟨signature.argCount, 0⟩ := by
    show StackEffect.ofCall symbols (.of .call (.method id)) = _
    simp [StackEffect.ofCall, Instruction.of, declared, StackEffect.results, void]
  rw [net_eq known]
  simp [StackEffect.delta]

namespace EventGate

variable {g : EventGate} {contract : EventContract} {allowed : FieldId} {slot : UInt16}
  {deny : Label}

theorem fallsThrough_asking {ins : Instruction} (member : ins ∈ asking allowed slot deny) :
    ins.opcode.fallsThrough := by
  simp only [asking, List.mem_cons, List.not_mem_nil, or_false] at member
  rcases member with rfl | rfl | rfl <;> rfl

theorem fallsThrough_storing {stores : List (FieldId × Slot)} {ins : Instruction}
    (member : ins ∈ storing stores slot) : ins.opcode.fallsThrough := by
  obtain ⟨⟨id, target⟩, -, inside⟩ := List.mem_flatMap.mp member
  simp only [List.mem_cons, List.not_mem_nil, or_false] at inside
  rcases inside with rfl | rfl | rfl
  · rfl
  · rfl
  · cases target <;> rfl

theorem total_storing (stores : List (FieldId × Slot)) :
    RunEffect.total symbols enclosing (storing stores slot) = 0 := by
  induction stores with
  | nil => rfl
  | cons e rest ih =>
      obtain ⟨id, target⟩ := e
      have first : RunEffect.total symbols enclosing
          [.of .ldloc (.slot slot), .of .ldfld (.field id), target.store] = 0 := by
        cases target <;> rfl
      rw [storing, List.flatMap_cons, RunEffect.total_append, first, Int.zero_add]
      exact ih

theorem fallsThrough_code {stores : List (FieldId × Slot)} {ins : Instruction}
    (member : ins ∈ g.code contract allowed stores slot deny) : ins.opcode.fallsThrough := by
  rcases List.mem_append.mp member with front | behind
  · rcases List.mem_append.mp front with loads | raises
    · obtain ⟨k, -, loaded⟩ := List.mem_flatMap.mp loads
      exact Capture.fallsThrough loaded
    · simp only [dispatching, List.mem_cons, List.not_mem_nil, or_false] at raises
      rcases raises with rfl | rfl | rfl | rfl | rfl <;> rfl
  · rcases List.mem_append.mp behind with stored | asked
    · exact fallsThrough_storing stored
    · exact fallsThrough_asking asked

/-- What a gate emits. -/
theorem emit_cases {stores : List (FieldId × Slot)} {ins : Instruction}
    (emitted : .emit ins ∈ g.steps contract allowed stores) :
    (∃ k ∈ g.captures, ins ∈ k.load) ∨
      ins = .of .newobj (.method (contract.eventClass g.kind).constructor) ∨
      ins = .of .ldstr (.text g.hook) ∨ ins = .of .call (.method contract.dispatch) ∨
      (∃ e ∈ stores, ins = .of .ldfld (.field e.1) ∨ ins = e.2.store) ∨
      ins = .of .ldfld (.field allowed) := by
  simp only [steps, emitAll, storeSteps, List.mem_append, List.mem_map, List.mem_cons,
    List.mem_flatMap, List.not_mem_nil, or_false, reduceCtorEq, false_or,
      Step.emit.injEq] at emitted
  grind

theorem ne_ret_of_emit {stores : List (FieldId × Slot)} {ins : Instruction}
    (emitted : .emit ins ∈ g.steps contract allowed stores) : ins.opcode ≠ .ret := by
  intro ret
  have falls : ins.opcode.fallsThrough := by
    rcases emit_cases emitted with ⟨k, -, loaded⟩ | rfl | rfl | rfl | ⟨e, -, rfl | rfl⟩ | rfl
    · exact Capture.fallsThrough loaded
    · rfl
    · rfl
    · rfl
    · rfl
    · cases e.2 <;> rfl
    · rfl
  rw [ret] at falls
  cases falls

/-- A gate that keeps the depth gives its captures to the constructor and nothing else, when the
    dispatch method takes the hook and the event. -/
theorem balanced {effect : RunEffect} {stores : List (FieldId × Slot)}
    (run : RunEffect.Run symbols enclosing (g.code contract allowed stores slot deny) effect)
    (kept : effect.delta = 0) {made dispatched : MethodDef}
    (constructs : symbols.method? (contract.eventClass g.kind).constructor = some made)
    (dispatches : symbols.method? contract.dispatch = some dispatched)
    (void : dispatched.ret = none) :
    made.params.length + dispatched.argCount = g.captures.length + 2 := by
  obtain ⟨sum, sound⟩ := run.straight fun ins member => fallsThrough_code member
  obtain ⟨change, known⟩ := sound _
    (List.mem_append_left _ (List.mem_append_right _ (List.mem_cons_self ..)))
  have dispatching : RunEffect.total symbols enclosing (g.dispatching contract slot) =
      RunEffect.net symbols enclosing
        (.of .newobj (.method (contract.eventClass g.kind).constructor)) + (-1 + (1 + (1 +
      (RunEffect.net symbols enclosing (.of .call (.method contract.dispatch)) + 0)))) := rfl
  have asking : RunEffect.total symbols enclosing (asking allowed slot deny) = 0 := rfl
  rw [kept, code, RunEffect.total_append, RunEffect.total_append, RunEffect.total_append,
    Capture.total_loads, dispatching, total_storing, asking, RunEffect.net_newobj constructs known,
    RunEffect.net_call dispatches void] at sum
  omega

end EventGate

end Depth

end HookSplice
