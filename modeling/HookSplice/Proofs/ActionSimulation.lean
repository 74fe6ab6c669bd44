import HookSplice.Proofs.FrameSimulation

/-!
# What follows an instruction in two bodies

Each opcode in a frame and at its place in the frame of a body that holds the same code.  A branch
goes to where its target has moved; an exception finds the same handler; and a new object extends
the renaming of the handles.
-/

namespace HookSplice

/-! ### The symbols -/

/-- The type whose instances a handler takes, if it is not for all exceptions. -/
def HandlerKind.type? : HandlerKind → Option TypeId
  | catching type => some type
  | finalizing => none

/-- The types that a body names: those of its locals, handlers and operands. -/
def Body.types (b : Body) : List TypeId :=
  b.locals ++ (b.regions.filterMap fun r => r.kind.type?) ++
    b.code.filterMap fun ins => ins.type.toOption

theorem Body.type_of_slot {b : Body} {type : TypeId} (member : type ∈ b.locals) :
    type ∈ b.types :=
  List.mem_append_left _ (List.mem_append_left _ member)

theorem Body.type_of_handler {b : Body} {r : Region} {type : TypeId} (member : r ∈ b.regions)
    (catching : r.kind = .catching type) : type ∈ b.types := by
  refine List.mem_append_left _ (List.mem_append_right _ ?_)
  exact List.mem_filterMap.mpr ⟨r, member, by rw [catching]; rfl⟩

theorem Body.type_of_operand {b : Body} {ins : Instruction} {type : TypeId} (member : ins ∈ b.code)
    (read : ins.type = .ok type) : type ∈ b.types := by
  refine List.mem_append_right _ ?_
  exact List.mem_filterMap.mpr ⟨ins, member, by rw [read]; rfl⟩

/-- A symbol table serves a body as another one does: it has the methods of that, and calls the
    types that the body names the same. -/
structure SymbolTable.Serves (s s' : SymbolTable) (b : Body) : Prop where
  methods : ∀ {id : MethodId} {signature : MethodDef}, s.method? id = some signature →
    s'.method? id = some signature
  types : ∀ type ∈ b.types, s'.typeName type = s.typeName type

theorem SymbolTable.Serves.callee {s s' : SymbolTable} {b : Body} (serves : s.Serves s' b)
    (ins : Instruction) : Follows Eq (ins.callee s) (ins.callee s') := by
  unfold Instruction.callee
  split
  · split
    · next found =>
        rw [serves.methods found]
        exact .ok rfl
    · exact .error
  · exact .error

/-! ### The operand -/

namespace Instruction

variable {a b : Instruction} (alike : b.Alike a)
include alike

theorem Alike.argument_eq : b.argument = a.argument := by
  cases a
  cases b
  obtain ⟨rfl, rfl⟩ := alike
  rfl

theorem Alike.localSlot_eq : b.localSlot = a.localSlot := by
  cases a
  cases b
  obtain ⟨rfl, rfl⟩ := alike
  rfl

theorem Alike.number_eq : b.number = a.number := by
  cases a
  cases b
  obtain ⟨rfl, rfl⟩ := alike
  rfl

theorem Alike.text_eq : b.text = a.text := by
  cases a
  cases b
  obtain ⟨rfl, rfl⟩ := alike
  rfl

theorem Alike.field_eq : b.field = a.field := by
  cases a
  cases b
  obtain ⟨rfl, rfl⟩ := alike
  rfl

theorem Alike.type_eq : b.type = a.type := by
  cases a
  cases b
  obtain ⟨rfl, rfl⟩ := alike
  rfl

theorem Alike.callee_eq (symbols : SymbolTable) : b.callee symbols = a.callee symbols := by
  cases a
  cases b
  obtain ⟨rfl, rfl⟩ := alike
  rfl

end Instruction

/-- The second instruction is the first one at its place: it does the same, and its target is where
    the other's has moved. -/
structure Instruction.Placed (m : BodyMove) (ins ins' : Instruction) : Prop where
  member : ins ∈ m.source.code
  alike : ins'.Alike ins
  target : m.target.targetOf? ins' = (m.source.targetOf? ins).map m.arrive

/-- The actions of the instruction at a position agree. -/
inductive Action.Renamed (m : BodyMove) (ids : List ObjectId) (i : Nat) : Action → Action → Prop
  | next {f f' : Frame} {h h' : Heap} (frames : f.Arrived m ids f') (heaps : h.Renamed ids h') :
      Renamed m ids i (.next f h) (.next f' h')
  | exit {v v' : Option Value} (values : Option.Rel (Value.Renamed ids) v v') :
      Renamed m ids i (.exit v) (.exit v')
  | raised {f f' : Frame} {v v' : Value} (frames : f.Behind m ids i f')
      (values : v.Renamed ids v') : Renamed m ids i (.raised f v) (.raised f' v')
  | escaped {v v' : Value} (values : v.Renamed ids v') : Renamed m ids i (.escaped v) (.escaped v')
  | call {f f' : Frame} {args args' : List Value} {created created' : Option ObjectId}
      {h h' : Heap} (callee : MethodId) (more : List ObjectId)
      (frames : f.Behind m (ids ++ more) i f')
      (values : List.Forall₂ (Value.Renamed (ids ++ more)) args args')
      (objects : Option.Rel (fun id id' => (ids ++ more)[id.index]? = some id') created created')
      (heaps : h.Renamed (ids ++ more) h') :
      Renamed m ids i (.call f callee args created h) (.call f' callee args' created' h')

namespace Frame

variable {symbols symbols' : SymbolTable} {m : BodyMove} {ids : List ObjectId} {i : Nat}
  {f f' : Frame} {h h' : Heap} {ins ins' : Instruction}

/-! ### Branches -/

theorem Renamed.targetOf (same : f.Renamed m ids f') (placed : ins.Placed m ins') :
    Follows (fun p p' => p' = m.arrive p) (f.targetOf ins) (f'.targetOf ins') := by
  unfold Frame.targetOf
  rw [same.source, same.target, placed.target]
  cases m.source.targetOf? ins with
  | none => exact .error
  | some p => exact .ok rfl

theorem Behind.branchIf (same : f.Behind m ids i f') (placed : ins.Placed m ins') (taken : Bool) :
    Follows (Arrived m ids) (f.branchIf taken ins) (f'.branchIf taken ins') := by
  unfold Frame.branchIf
  cases taken with
  | false => exact .ok same.arrived
  | true =>
      refine (same.targetOf placed).bind ?_
      intro p p' arrives
      exact .ok (same.goTo same.stack arrives)

theorem Behind.branchOnTruth (same : f.Behind m ids i f') (placed : ins.Placed m ins')
    (wanted : Bool) : Follows (Arrived m ids) (Action.branchOnTruth wanted ins f)
      (Action.branchOnTruth wanted ins' f') := by
  refine same.pop.bind ?_
  rintro ⟨v, g⟩ ⟨v', g'⟩ ⟨values, frames⟩
  have truth : v'.isTruthy = v.isTruthy := values.isTruthy_eq
  simp only [truth]
  exact frames.branchIf placed _

theorem Behind.branchOnEqual (same : f.Behind m ids i f') (placed : ins.Placed m ins')
    (distinct : ids.Nodup) (wanted : Bool) : Follows (Arrived m ids)
      (Action.branchOnEqual wanted ins f) (Action.branchOnEqual wanted ins' f') := by
  refine (same.popEqual distinct).bind ?_
  rintro ⟨equal, g⟩ ⟨_, g'⟩ ⟨rfl, frames⟩
  exact frames.branchIf placed _

theorem Behind.branchOnOrder (same : f.Behind m ids i f') (placed : ins.Placed m ins')
    (inOrder : Int64 → Int64 → Bool) : Follows (Arrived m ids)
      (Action.branchOnOrder inOrder ins f) (Action.branchOnOrder inOrder ins' f') := by
  refine same.popInt.bind ?_
  rintro ⟨b, g⟩ ⟨_, g'⟩ ⟨rfl, frames⟩
  refine frames.popInt.bind ?_
  rintro ⟨a, k⟩ ⟨_, k'⟩ ⟨rfl, frames⟩
  exact frames.branchIf placed _

/-! ### Arithmetic -/

theorem Behind.arithmetic (same : f.Behind m ids i f') (op : Opcode) :
    Follows (Behind m ids i) (Action.arithmetic op f) (Action.arithmetic op f') := by
  refine same.popInt.bind ?_
  rintro ⟨b, g⟩ ⟨_, g'⟩ ⟨rfl, frames⟩
  refine frames.popInt.bind ?_
  rintro ⟨a, k⟩ ⟨_, k'⟩ ⟨rfl, frames⟩
  refine (Follows.same _).bind ?_
  rintro n _ rfl
  exact .ok (frames.push (.int n))

theorem Behind.negation (same : f.Behind m ids i f') (op : Int64 → Int64) :
    Follows (Behind m ids i) (Action.negation op f) (Action.negation op f') := by
  refine same.popInt.bind ?_
  rintro ⟨a, g⟩ ⟨_, g'⟩ ⟨rfl, frames⟩
  exact .ok (frames.push (.int (op a)))

/-! ### Objects -/

theorem isInstance_renamed (heaps : h.Renamed ids h') {v v' : Value} (values : v.Renamed ids v')
    {type : TypeId} (named : symbols'.typeName type = symbols.typeName type) :
    isInstance symbols' h' type v' = isInstance symbols h type v := by
  cases values with
  | object known =>
      obtain ⟨o, o', found, found', same, -⟩ := heaps.object? known
      simp only [isInstance, found, found', Option.any_some, same, named]
  | null | int | text => simp only [isInstance, named]

theorem Behind.testInstance (same : f.Behind m ids i f') (placed : ins.Placed m ins')
    (serves : symbols.Serves symbols' m.source) (heaps : h.Renamed ids h') :
    Follows (Behind m ids i) (Action.testInstance symbols h ins f)
      (Action.testInstance symbols' h' ins' f') := by
  unfold Action.testInstance
  rw [placed.alike.type_eq]
  cases read : ins.type with
  | error e => exact .error
  | ok type =>
      have named := serves.types type (Body.type_of_operand placed.member read)
      refine same.pop.bind ?_
      rintro ⟨v, g⟩ ⟨v', g'⟩ ⟨values, frames⟩
      have test : isInstance symbols' h' type v' = isInstance symbols h type v :=
        isInstance_renamed heaps values named
      simp only [test]
      split
      · exact .ok (frames.push values)
      · exact .ok (frames.push .null)

theorem Behind.loadField (same : f.Behind m ids i f') (placed : ins.Placed m ins')
    (heaps : h.Renamed ids h') :
    Follows (Behind m ids i) (Action.loadField h ins f) (Action.loadField h' ins' f') := by
  unfold Action.loadField
  rw [placed.alike.field_eq]
  refine (Follows.same _).bind ?_
  rintro field _ rfl
  refine same.popObject.bind ?_
  rintro ⟨object, g⟩ ⟨object', g'⟩ ⟨known, frames⟩
  obtain ⟨v, v', loaded, loaded', values⟩ := heaps.loadField? known field
  simp only [loaded, loaded']
  exact .ok (frames.push values)

theorem Behind.storeField (same : f.Behind m ids i f') (placed : ins.Placed m ins')
    (heaps : h.Renamed ids h') : Follows (Action.Renamed m ids i) (Action.storeField h ins f)
      (Action.storeField h' ins' f') := by
  unfold Action.storeField
  rw [placed.alike.field_eq]
  refine (Follows.same _).bind ?_
  rintro field _ rfl
  refine same.pop.bind ?_
  rintro ⟨v, g⟩ ⟨v', g'⟩ ⟨values, frames⟩
  refine frames.popObject.bind ?_
  rintro ⟨object, k⟩ ⟨object', k'⟩ ⟨known, frames⟩
  obtain ⟨next, next', stored, stored', heaps⟩ := heaps.storeField? known field values
  simp only [stored, stored']
  exact .ok (.next frames.arrived heaps)

/-! ### Calls -/

theorem Behind.callMethod (same : f.Behind m ids i f') (placed : ins.Placed m ins')
    (serves : symbols.Serves symbols' m.source) (heaps : h.Renamed ids h') (needsReceiver : Bool) :
    Follows (Action.Renamed m ids i) (Action.callMethod symbols h needsReceiver ins f)
      (Action.callMethod symbols' h' needsReceiver ins' f') := by
  unfold Action.callMethod
  rw [placed.alike.callee_eq]
  refine (serves.callee ins).bind ?_
  rintro ⟨callee, signature⟩ _ rfl
  refine (same.popMany _).bind ?_
  rintro ⟨args, g⟩ ⟨args', g'⟩ ⟨values, frames⟩
  have receiver : (args'.head? == some .null) = (args.head? == some .null) := by
    cases values with
    | nil => rfl
    | cons first _ => cases first <;> rfl
  simp only [receiver]
  split
  · exact .error
  · rw [← List.append_nil ids] at values frames heaps
    exact .ok (.call callee [] frames values .none heaps)

theorem Behind.construct (same : f.Behind m ids i f') (placed : ins.Placed m ins')
    (serves : symbols.Serves symbols' m.source) (heaps : h.Renamed ids h') :
    Follows (Action.Renamed m ids i) (Action.construct symbols h ins f)
      (Action.construct symbols' h' ins' f') := by
  unfold Action.construct
  rw [placed.alike.callee_eq]
  refine (serves.callee ins).bind ?_
  rintro ⟨callee, signature⟩ _ rfl
  refine (same.popMany _).bind ?_
  rintro ⟨args, g⟩ ⟨args', g'⟩ ⟨values, frames⟩
  obtain ⟨heaps', known⟩ := heaps.alloc signature.owner
  refine .ok (.call callee [(h'.alloc signature.owner).1] (frames.grow _) ?_ (.some known) heaps')
  exact .cons (.object known) (values.imp fun _ _ same => same.grow _)

theorem Behind.ret (same : f.Behind m ids i f') (serves : symbols.Serves symbols' m.source) :
    Follows (Action.Renamed m ids i) (Action.ret symbols f) (Action.ret symbols' f') := by
  unfold Action.ret
  rw [same.source, same.target, m.method_eq]
  cases found : symbols.method? m.source.method with
  | none => exact .error
  | some signature =>
      simp only [serves.methods found]
      split
      · refine same.pop.map ?_
        rintro ⟨v, g⟩ ⟨v', g'⟩ ⟨values, -⟩
        exact .exit (.some values)
      · exact .ok (.exit .none)

/-! ### Exceptions and `leave` -/

/-- An exception finds the same handler among the same regions. -/
theorem Renamed.throwThrough? (same : f.Renamed m ids f')
    (serves : symbols.Serves symbols' m.source) (heaps : h.Renamed ids h') {v v' : Value}
    (values : v.Renamed ids v') (regions : List Nat) :
    Option.Rel (Arrived m ids) (f.throwThrough? symbols h v regions)
      (f'.throwThrough? symbols' h' v' regions) := by
  induction regions with
  | nil => exact .none
  | cons k rest ih =>
      have region := m.region k
      have source : f.body.regions[k]? = m.source.regions[k]? := by rw [same.source]
      have target : f'.body.regions[k]? = m.target.regions[k]? := by rw [same.target]
      unfold Frame.throwThrough?
      rw [source, target]
      cases here : m.source.regions[k]? with
      | none =>
          rw [here, Option.map_none, Option.map_eq_none_iff] at region
          rw [region]
          exact ih
      | some r =>
          rw [here, Option.map_some, Option.map_eq_some_iff] at region
          obtain ⟨r', here', fields⟩ := region
          obtain ⟨kind, start⟩ := Prod.mk.inj fields
          rw [here']
          simp only [kind, start]
          split
          · next type catching =>
              have named := serves.types type
                (Body.type_of_handler (List.mem_of_getElem? here) catching)
              rw [isInstance_renamed heaps values named]
              split
              · exact .some (same.goTo (.cons values .nil) rfl)
              · exact ih
          · exact .some ((same.withPending (.cons (.throw rest values) same.pending)).goTo .nil rfl)

/-- Leaving passes through the same finally handlers. -/
theorem Renamed.continueLeave (same : f.Renamed m ids f') (target : Nat) (regions : List Nat) :
    (f.continueLeave target regions).Arrived m ids
      (f'.continueLeave (m.arrive target) regions) := by
  cases regions with
  | nil => exact same.goTo .nil rfl
  | cons k rest =>
      refine (same.withPending (.cons (.leave target rest) same.pending)).goTo .nil ?_
      have region := congrArg (Option.map Prod.snd) (m.region k)
      rw [Option.map_map, Option.map_map] at region
      rw [same.source, same.target]
      show ((m.target.regions[k]?).map (Prod.snd ∘ fun r => (r.kind, r.handlerStart))).getD
        (m.arrive target) = _
      rw [region]
      cases m.source.regions[k]? <;> rfl

theorem Behind.raise (same : f.Behind m ids i f') :
    Follows (Action.Renamed m ids i) (Action.raise f) (Action.raise f') := by
  refine same.pop.bind ?_
  rintro ⟨v, g⟩ ⟨v', g'⟩ ⟨values, frames⟩
  cases values with
  | null => exact .error
  | int n => exact .ok (.raised frames (.int n))
  | text s => exact .ok (.raised frames (.text s))
  | object known => exact .ok (.raised frames (.object known))

theorem Behind.leave (same : f.Behind m ids i f') (placed : ins.Placed m ins')
    (heaps : h.Renamed ids h') :
    Follows (Action.Renamed m ids i) (Action.leave h i ins f)
      (Action.leave h' (m.place i) ins' f') := by
  refine (same.targetOf placed).bind ?_
  rintro target _ rfl
  have regions : exited f'.body (m.place i) (m.arrive target) = exited f.body i target := by
    rw [same.source, same.target]
    exact m.exited i target
  rw [regions]
  exact .ok (.next (same.continueLeave target _) heaps)

theorem Renamed.endFinally (same : f.Renamed m ids f')
    (serves : symbols.Serves symbols' m.source) (heaps : h.Renamed ids h') :
    Follows (Action.Renamed m ids i) (Action.endFinally symbols h f)
      (Action.endFinally symbols' h' f') := by
  have pending := same.pending
  unfold Action.endFinally
  cases here : f.pending with
  | nil => exact .error
  | cons first later =>
      rw [here] at pending
      cases here' : f'.pending with
      | nil =>
          rw [here'] at pending
          cases pending
      | cons first' later' =>
          rw [here'] at pending
          obtain ⟨put, others⟩ := List.forall₂_cons.mp pending
          have same := same.withPending others
          cases put with
          | leave target rest => exact .ok (.next (same.continueLeave target rest) heaps)
          | throw rest values =>
              have found := same.throwThrough? serves heaps values rest
              simp only
              revert found
              generalize Frame.throwThrough? symbols h _ _ rest = g
              generalize Frame.throwThrough? symbols' h' _ _ rest = g'
              intro found
              cases found with
              | none => exact .ok (.escaped values)
              | some frames => exact .ok (.next frames heaps)

end Frame

/-! ### Every instruction -/

namespace Action

variable {symbols symbols' : SymbolTable} {m : BodyMove} {ids : List ObjectId} {i : Nat}
  {f f' : Frame} {h h' : Heap} {ins ins' : Instruction}

theorem going_arrived {x y : Except Mishap Frame} (heaps : h.Renamed ids h')
    (frames : Follows (Frame.Arrived m ids) x y) :
    Follows (Action.Renamed m ids i) (going h x) (going h' y) :=
  frames.map fun _ _ same => .next same heaps

theorem going_behind {x y : Except Mishap Frame} (heaps : h.Renamed ids h')
    (frames : Follows (Frame.Behind m ids i) x y) :
    Follows (Action.Renamed m ids i) (going h x) (going h' y) :=
  frames.map fun _ _ same => .next same.arrived heaps

/-- An instruction does at its place what it does at its position in the other body. -/
theorem ofInstruction_renamed (frames : f.Behind m ids i f') (placed : ins.Placed m ins')
    (serves : symbols.Serves symbols' m.source) (heaps : h.Renamed ids h') :
    Follows (Action.Renamed m ids i) (ofInstruction symbols h i f ins)
      (ofInstruction symbols' h' (m.place i) f' ins') := by
  have alike := placed.alike
  unfold ofInstruction
  rw [alike.1]
  cases ins.opcode with
  | nop => exact .ok (.next frames.arrived heaps)
  | ldarg =>
      refine going_behind heaps ?_
      rw [alike.argument_eq]
      refine (Follows.same _).bind ?_
      rintro index _ rfl
      exact (frames.loadArg index).bind fun _ _ values => .ok (frames.push values)
  | starg =>
      refine going_behind heaps ?_
      rw [alike.argument_eq]
      refine (Follows.same _).bind ?_
      rintro index _ rfl
      refine frames.pop.bind ?_
      rintro ⟨v, g⟩ ⟨v', g'⟩ ⟨values, frames⟩
      exact frames.storeArg index values
  | ldloc =>
      refine going_behind heaps ?_
      rw [alike.localSlot_eq]
      refine (Follows.same _).bind ?_
      rintro index _ rfl
      exact (frames.loadLocal index).bind fun _ _ values => .ok (frames.push values)
  | stloc =>
      refine going_behind heaps ?_
      rw [alike.localSlot_eq]
      refine (Follows.same _).bind ?_
      rintro index _ rfl
      refine frames.pop.bind ?_
      rintro ⟨v, g⟩ ⟨v', g'⟩ ⟨values, frames⟩
      exact frames.storeLocal index values
  | ldc =>
      refine going_behind heaps ?_
      rw [alike.number_eq]
      refine (Follows.same _).bind ?_
      rintro n _ rfl
      exact .ok (frames.push (.int n))
  | ldstr =>
      refine going_behind heaps ?_
      rw [alike.text_eq]
      refine (Follows.same _).bind ?_
      rintro s _ rfl
      exact .ok (frames.push (.text s))
  | ldnull => exact .ok (.next (frames.push .null).arrived heaps)
  | dup =>
      refine going_behind heaps (frames.pop.bind ?_)
      rintro ⟨v, g⟩ ⟨v', g'⟩ ⟨values, frames⟩
      exact .ok ((frames.push values).push values)
  | pop => exact going_behind heaps (frames.pop.bind fun _ _ taken => .ok taken.2)
  | add | sub | mul | div | rem | and | or | xor | cgt | clt =>
      exact going_behind heaps (frames.arithmetic _)
  | neg => exact going_behind heaps (frames.negation _)
  | not => exact going_behind heaps (frames.negation _)
  | ceq =>
      refine going_behind heaps ((frames.popEqual heaps.distinct).bind ?_)
      rintro ⟨equal, g⟩ ⟨_, g'⟩ ⟨rfl, frames⟩
      exact .ok (frames.push (.ofBool equal))
  | br => exact going_arrived heaps (frames.branchIf placed true)
  | brtrue => exact going_arrived heaps (frames.branchOnTruth placed true)
  | brfalse => exact going_arrived heaps (frames.branchOnTruth placed false)
  | beq => exact going_arrived heaps (frames.branchOnEqual placed heaps.distinct true)
  | bne => exact going_arrived heaps (frames.branchOnEqual placed heaps.distinct false)
  | bgt => exact going_arrived heaps (frames.branchOnOrder placed _)
  | blt => exact going_arrived heaps (frames.branchOnOrder placed _)
  | call => exact frames.callMethod placed serves heaps false
  | callvirt => exact frames.callMethod placed serves heaps true
  | newobj => exact frames.construct placed serves heaps
  | ldfld => exact going_behind heaps (frames.loadField placed heaps)
  | stfld => exact frames.storeField placed heaps
  | ldsfld =>
      refine going_behind heaps ?_
      rw [alike.field_eq]
      refine (Follows.same _).bind ?_
      rintro field _ rfl
      exact .ok (frames.push (heaps.statics field))
  | stsfld =>
      rw [alike.field_eq]
      refine (Follows.same _).bind ?_
      rintro field _ rfl
      refine frames.pop.bind ?_
      rintro ⟨v, g⟩ ⟨v', g'⟩ ⟨values, frames⟩
      exact .ok (.next frames.arrived (heaps.storeStatic field values))
  | isinst => exact going_behind heaps (frames.testInstance placed serves heaps)
  | ret => exact frames.ret serves
  | throw => exact frames.raise
  | leave => exact frames.leave placed heaps
  | endfinally => exact frames.toRenamed.endFinally serves heaps

end Action

end HookSplice
