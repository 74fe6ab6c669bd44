import HookSplice.Proofs.RunningHandlers

/-!
# Where instructions lead

What an instruction does to the position of its frame and to what the frame puts off, whatever the
values are: it falls through, branches, begins an action, or takes one up again.  Besides, it writes
to the heap at most once, and ends its frame with a result as the method is declared.
-/

namespace HookSplice

/-- The result, if there is one, satisfies `post`. -/
def Yields {α : Type} (post : α → Prop) : Except Mishap α → Prop
  | .ok a => post a
  | .error _ => True

theorem Yields.bind {α β : Type} {p : α → Prop} {q : β → Prop} {x : Except Mishap α}
    {f : α → Except Mishap β} (first : Yields p x) (next : ∀ a, p a → Yields q (f a)) :
    Yields q (x >>= f) := by
  cases x with
  | error mishap => trivial
  | ok a => exact next a first

theorem Yields.map {α β : Type} {p : α → Prop} {q : β → Prop} {x : Except Mishap α} {f : α → β}
    (first : Yields p x) (next : ∀ a, p a → q (f a)) : Yields q (x.map f) := by
  cases x with
  | error mishap => trivial
  | ok a => exact next a first

theorem Yields.imp {α : Type} {p q : α → Prop} {x : Except Mishap α} (first : Yields p x)
    (next : ∀ a, p a → q a) : Yields q x := by
  cases x with
  | error mishap => trivial
  | ok a => exact next a first

theorem Yields.anything {α : Type} (x : Except Mishap α) : Yields (fun _ => True) x := by
  cases x <;> trivial

/-! ### Heaps -/

/-- What one instruction writes to a heap. -/
inductive Heap.Written (h : Heap) : Heap → Prop
  | nothing : h.Written h
  | field {id : ObjectId} {field : FieldId} {v : Value} {k : Heap}
      (stored : h.storeField? id field v = some k) : h.Written k
  | static (field : FieldId) (v : Value) : h.Written (h.storeStatic field v)
  | object (type : TypeId) : h.Written (h.alloc type).2

/-! ### Frames that stand level -/

namespace Frame

/-- The second frame stands where the first one does and has the same put off. -/
structure Level (f g : Frame) : Prop where
  body : g.body = f.body
  pc : g.pc = f.pc
  pending : g.pending = f.pending

theorem Level.refl (f : Frame) : f.Level f :=
  ⟨rfl, rfl, rfl⟩

theorem Level.push {f g : Frame} (level : f.Level g) (v : Value) : f.Level (g.push v) :=
  ⟨level.body, level.pc, level.pending⟩

/-- The second frame has fallen through a branch that the first one stands behind, or stands at the
    target of it. -/
def Branches (ins : Instruction) (f g : Frame) : Prop :=
  (ins.opcode.fallsThrough ∧ f.Level g) ∨
    ∃ t, f.body.targetOf? ins = some t ∧ { f with pc := t }.Level g

variable {f g : Frame}

theorem pop_yields (level : f.Level g) : Yields (fun p => f.Level p.2) g.pop := by
  unfold pop
  split
  · trivial
  · exact ⟨level.body, level.pc, level.pending⟩

theorem popInt_yields (level : f.Level g) : Yields (fun p => f.Level p.2) g.popInt :=
  (pop_yields level).bind fun _ level => (Yields.anything _).bind fun _ _ => level

theorem popObject_yields (level : f.Level g) : Yields (fun p => f.Level p.2) g.popObject :=
  (pop_yields level).bind fun _ level => (Yields.anything _).bind fun _ _ => level

theorem popMany_yields (level : f.Level g) (n : Nat) :
    Yields (fun p => f.Level p.2) (g.popMany n) := by
  unfold popMany
  split
  · trivial
  · exact ⟨level.body, level.pc, level.pending⟩

theorem storeArg_yields (level : f.Level g) (i : UInt16) (v : Value) :
    Yields f.Level (g.storeArg i v) := by
  unfold storeArg
  split
  · exact ⟨level.body, level.pc, level.pending⟩
  · trivial

theorem storeLocal_yields (level : f.Level g) (i : UInt16) (v : Value) :
    Yields f.Level (g.storeLocal i v) := by
  unfold storeLocal
  split
  · exact ⟨level.body, level.pc, level.pending⟩
  · trivial

theorem targetOf_yields (level : f.Level g) (ins : Instruction) :
    Yields (fun t => f.body.targetOf? ins = some t) (g.targetOf ins) := by
  unfold targetOf
  rw [level.body]
  split
  · next t target => exact target
  · trivial

theorem branchIf_yields {ins : Instruction} (level : f.Level g) {taken : Bool}
    (falls : ¬ taken → ins.opcode.fallsThrough) :
    Yields (f.Branches ins) (g.branchIf taken ins) := by
  unfold branchIf
  split
  · exact (targetOf_yields level ins).bind fun t target =>
      Or.inr ⟨t, target, level.body, rfl, level.pending⟩
  · next skipped => exact Or.inl ⟨falls skipped, level⟩

/-! ### Carrying actions out -/

variable {symbols : SymbolTable} {heap : Heap}

theorem throwThrough?_reaches {v : Value} {regions : List Nat}
    (taken : f.throwThrough? symbols heap v regions = some g) :
    g.body = f.body ∧
      (Pending.throw v regions).Reaches f.body f.pending g.pc g.pending := by
  suffices ∃ skipped k rest r, regions = skipped ++ k :: rest ∧ f.body.regions[k]? = some r ∧
      (∀ j ∈ skipped, ∀ r', f.body.regions[j]? = some r' → r'.kind ≠ .finalizing) ∧
      g.body = f.body ∧ g.pc = r.handlerStart ∧
      g.pending = if r.kind = .finalizing then .throw v rest :: f.pending else f.pending by
    obtain ⟨skipped, k, rest, r, order, here, passed, body, pc, pending⟩ := this
    refine ⟨body, ?_⟩
    rw [pc, pending]
    exact .handled order here passed
  fun_induction throwThrough? symbols heap f v regions with
  | case1 => cases taken
  | case2 i rest missing ih =>
      obtain ⟨skipped, k, rest', r, order, here, passed, result⟩ := ih taken
      refine ⟨i :: skipped, k, rest', r, congrArg (i :: ·) order, here, ?_, result⟩
      refine List.forall_mem_cons.mpr ⟨fun r' there => ?_, passed⟩
      rw [missing] at there
      cases there
  | case3 i rest r region type catching fits =>
      cases taken
      exact ⟨[], i, rest, r, rfl, region, fun _ member => absurd member List.not_mem_nil, rfl, rfl,
        by simp [catching]⟩
  | case4 i rest r region type catching fits ih =>
      obtain ⟨skipped, k, rest', r', order, here, passed, result⟩ := ih taken
      refine ⟨i :: skipped, k, rest', r', congrArg (i :: ·) order, here, ?_, result⟩
      refine List.forall_mem_cons.mpr ⟨fun r'' there => ?_, passed⟩
      obtain rfl := Option.some.inj (region.symm.trans there)
      simp [catching]
  | case5 i rest r region finalizing =>
      cases taken
      exact ⟨[], i, rest, r, rfl, region, fun _ member => absurd member List.not_mem_nil, rfl, rfl,
        by simp [finalizing]⟩

theorem throwThrough?_eq_none {v : Value} {regions : List Nat}
    (escapes : f.throwThrough? symbols heap v regions = none) :
    ∀ k ∈ regions, ∀ r, f.body.regions[k]? = some r → r.kind ≠ .finalizing := by
  fun_induction throwThrough? symbols heap f v regions with
  | case1 => exact fun _ member => absurd member List.not_mem_nil
  | case2 i rest missing ih =>
      refine List.forall_mem_cons.mpr ⟨fun r there => ?_, ih escapes⟩
      rw [missing] at there
      cases there
  | case3 => cases escapes
  | case4 i rest r region type catching fits ih =>
      refine List.forall_mem_cons.mpr ⟨fun r' there => ?_, ih escapes⟩
      obtain rfl := Option.some.inj (region.symm.trans there)
      simp [catching]
  | case5 => cases escapes

theorem continueLeave_reaches {target s : Nat} {regions before : List Nat}
    (part : (Pending.leave target regions).Part f.body s before) :
    (f.continueLeave target regions).body = f.body ∧
      (Pending.leave target regions).Reaches f.body f.pending
        (f.continueLeave target regions).pc (f.continueLeave target regions).pending := by
  cases regions with
  | nil => exact ⟨rfl, .arrives rfl rfl⟩
  | cons k rest =>
      have ahead : k ∈ before ++ k :: rest := List.mem_append_right _ (List.mem_cons_self ..)
      obtain ⟨r, here, -, left⟩ := part.region ahead
      have start : (f.body.regions[k]?.map Region.handlerStart).getD target = r.handlerStart := by
        simp [here]
      have reaches : (Pending.leave target (k :: rest)).Reaches f.body f.pending r.handlerStart
          (if r.kind = .finalizing then .leave target rest :: f.pending else f.pending) :=
        .handled (List.nil_append _).symm here fun _ member => absurd member List.not_mem_nil
      rw [if_pos (left target rfl).1] at reaches
      refine ⟨rfl, ?_⟩
      simp only [continueLeave, start]
      exact reaches

end Frame

/-! ### Instructions -/

/-- The action is one that was begun somewhere in the body, or what is left of it. -/
def Body.Begun (b : Body) (a : Pending) : Prop :=
  ∃ s before, a.Part b s before

/-- A frame ends at a position: it returns, or an exception passes all regions that are left. -/
inductive Body.Quits (b : Body) (p : Nat) : List Pending → Prop
  | returned {ins : Instruction} {put : List Pending} (here : b.code[p]? = some ins)
      (op : ins.opcode = .ret) : Quits b p put
  | escaped {a : Pending} {put : List Pending} (begins : b.Begins p a) (raised : a.target? = none)
      (passed : ∀ k ∈ a.rest, ∀ r, b.regions[k]? = some r → r.kind ≠ .finalizing) : Quits b p put
  | resumed {a : Pending} {put : List Pending} (ends : b.EndsAt p) (raised : a.target? = none)
      (passed : ∀ k ∈ a.rest, ∀ r, b.regions[k]? = some r → r.kind ≠ .finalizing) :
      Quits b p (a :: put)

namespace Action

/-- What follows an instruction at a position, in terms of control. -/
def Leads (position : Nat) (ins : Instruction) (f : Frame) : Action → Prop
  | next g _ => g.body = f.body ∧ f.body.Goes position f.pending g.pc g.pending
  | exit _ => f.body.Quits position f.pending
  | raised g _ => ¬ f.body.EndsAt position ∧ f.Level g
  | escaped _ => f.body.Quits position f.pending
  | call g _ _ _ _ => ins.opcode.fallsThrough ∧ f.Level g

variable {symbols : SymbolTable} {heap : Heap} {position : Nat} {ins : Instruction} {f g : Frame}

theorem arithmetic_yields (level : f.Level g) (op : Opcode) : Yields f.Level (arithmetic op g) :=
  (Frame.popInt_yields level).bind fun _ level => (Frame.popInt_yields level).bind fun _ level =>
    (Yields.anything _).bind fun _ _ => level.push _

theorem negation_yields (level : f.Level g) (op : Int64 → Int64) :
    Yields f.Level (negation op g) :=
  (Frame.popInt_yields level).bind fun _ level => level.push _

theorem popEqual_yields (level : f.Level g) : Yields (fun p => f.Level p.2) (popEqual g) :=
  (Frame.pop_yields level).bind fun _ level => (Frame.pop_yields level).bind fun _ level => level

theorem branchOnTruth_yields (level : f.Level g) (falls : ins.opcode.fallsThrough) (wanted : Bool) :
    Yields (f.Branches ins) (branchOnTruth wanted ins g) :=
  (Frame.pop_yields level).bind fun _ level => Frame.branchIf_yields level fun _ => falls

theorem branchOnEqual_yields (level : f.Level g) (falls : ins.opcode.fallsThrough) (wanted : Bool) :
    Yields (f.Branches ins) (branchOnEqual wanted ins g) :=
  (popEqual_yields level).bind fun _ level => Frame.branchIf_yields level fun _ => falls

theorem branchOnOrder_yields (level : f.Level g) (falls : ins.opcode.fallsThrough)
    (inOrder : Int64 → Int64 → Bool) : Yields (f.Branches ins) (branchOnOrder inOrder ins g) :=
  (Frame.popInt_yields level).bind fun _ level => (Frame.popInt_yields level).bind fun _ level =>
    Frame.branchIf_yields level fun _ => falls

theorem loadField_yields (level : f.Level g) : Yields f.Level (loadField heap ins g) := by
  refine (Yields.anything _).bind fun field _ => (Frame.popObject_yields level).bind ?_
  rintro ⟨object, g⟩ level
  dsimp only
  split
  · exact level.push _
  · trivial

section Control

variable (here : f.body.code[position]? = some ins) (behind : f.pc = position + 1)
include here behind

theorem level_leads (falls : ins.opcode.fallsThrough) (level : f.Level g) (heap : Heap) :
    (next g heap).Leads position ins f := by
  refine ⟨level.body, ?_⟩
  rw [level.pc, level.pending, behind]
  exact .onward here falls

theorem going_leads (falls : ins.opcode.fallsThrough) {x : Except Mishap Frame}
    (ran : Yields f.Level x) : Yields (Leads position ins f) (going heap x) :=
  ran.map fun _ level => level_leads here behind falls level heap

theorem branch_leads (stays : ins.opcode ≠ .leave ∧ ins.opcode ≠ .endfinally)
    {x : Except Mishap Frame} (ran : Yields (f.Branches ins) x) :
    Yields (Leads position ins f) (going heap x) := by
  refine ran.map fun g moved => ?_
  rcases moved with ⟨falls, level⟩ | ⟨t, target, level⟩
  · exact level_leads here behind falls level heap
  · refine ⟨level.body, ?_⟩
    rw [level.pc, level.pending]
    exact .branched here stays target

theorem storeField_leads (falls : ins.opcode.fallsThrough) :
    Yields (Leads position ins f) (storeField heap ins f) := by
  refine (Yields.anything _).bind fun field _ => (Frame.pop_yields (.refl f)).bind ?_
  rintro ⟨v, g⟩ level
  refine (Frame.popObject_yields level).bind ?_
  rintro ⟨object, g⟩ level
  dsimp only
  split
  · next heap' _ => exact level_leads here behind falls level heap'
  · trivial

omit here behind in
theorem callMethod_leads (falls : ins.opcode.fallsThrough) (needsReceiver : Bool) :
    Yields (Leads position ins f) (callMethod symbols heap needsReceiver ins f) := by
  refine (Yields.anything _).bind ?_
  rintro ⟨id, signature⟩ -
  refine (Frame.popMany_yields (.refl f) _).bind ?_
  rintro ⟨args, g⟩ level
  dsimp only
  split
  · trivial
  · exact ⟨falls, level⟩

omit here behind in
theorem construct_leads (falls : ins.opcode.fallsThrough) :
    Yields (Leads position ins f) (construct symbols heap ins f) := by
  refine (Yields.anything _).bind ?_
  rintro ⟨id, signature⟩ -
  refine (Frame.popMany_yields (.refl f) _).bind ?_
  rintro ⟨args, g⟩ level
  exact ⟨falls, level⟩

omit behind in
theorem ret_leads (op : ins.opcode = .ret) : Yields (Leads position ins f) (ret symbols f) := by
  have quits : f.body.Quits position f.pending := .returned here op
  unfold ret
  split
  · trivial
  · split
    · exact (Yields.anything _).map fun _ _ => quits
    · exact quits

omit behind in
theorem raise_leads (op : ins.opcode = .throw) : Yields (Leads position ins f) (raise f) := by
  refine (Frame.pop_yields (.refl f)).bind ?_
  rintro ⟨v, g⟩ level
  dsimp only
  split
  · trivial
  · exact ⟨Body.not_endsAt here (by simp [op]), level⟩

omit behind in
theorem leave_leads (op : ins.opcode = .leave) :
    Yields (Leads position ins f) (leave heap position ins f) := by
  refine (Frame.targetOf_yields (.refl f) ins).bind fun t target => ?_
  have begins : f.body.Begins position (.leave t (Frame.exited f.body position t)) :=
    .leave here op target
  have other : ¬ f.body.EndsAt position := Body.not_endsAt here (by simp [op])
  obtain ⟨body, reaches⟩ := Frame.continueLeave_reaches begins.part
  exact ⟨body, .begun other begins reaches⟩

omit behind in
theorem endFinally_leads (op : ins.opcode = .endfinally) (begun : ∀ a ∈ f.pending, f.body.Begun a) :
    Yields (Leads position ins f) (endFinally symbols heap f) := by
  have ends : f.body.EndsAt position := ⟨ins, here, op⟩
  unfold endFinally
  split
  · trivial
  · next target rest others put =>
      obtain ⟨s, before, part⟩ := begun (.leave target rest) (put ▸ List.mem_cons_self ..)
      have shorter : (Pending.leave target rest).Part { f with pending := others }.body s before :=
        part
      obtain ⟨body, reaches⟩ := Frame.continueLeave_reaches shorter
      exact ⟨body, put ▸ .resumed ends reaches⟩
  · next v rest others put =>
      split
      · next g taken =>
          obtain ⟨body, reaches⟩ := Frame.throwThrough?_reaches taken
          exact ⟨body, put ▸ .resumed ends reaches⟩
      · next escapes =>
          have passed := Frame.throwThrough?_eq_none escapes
          show f.body.Quits position f.pending
          rw [put]
          exact .resumed ends rfl passed

/-- Where an instruction of a frame leads, if everything put off was begun in its body. -/
theorem ofInstruction_leads (begun : ∀ a ∈ f.pending, f.body.Begun a) :
    Yields (Leads position ins f) (ofInstruction symbols heap position f ins) := by
  have level := Frame.Level.refl f
  unfold ofInstruction
  cases op : ins.opcode <;> dsimp only
  case call => exact callMethod_leads (by rw [op]; rfl) false
  case callvirt => exact callMethod_leads (by rw [op]; rfl) true
  case newobj => exact construct_leads (by rw [op]; rfl)
  case stfld => exact storeField_leads here behind (by rw [op]; rfl)
  case ret => exact ret_leads here op
  case throw => exact raise_leads here op
  case leave => exact leave_leads here op
  case endfinally => exact endFinally_leads here op begun
  case nop => exact level_leads here behind (by rw [op]; rfl) level heap
  case ldnull => exact level_leads here behind (by rw [op]; rfl) (level.push .null) heap
  case stsfld =>
    refine (Yields.anything _).bind fun field _ => (Frame.pop_yields level).bind ?_
    rintro ⟨v, g⟩ level
    exact level_leads here behind (by rw [op]; rfl) level (heap.storeStatic field v)
  case br =>
    exact branch_leads here behind (by simp [op])
      (Frame.branchIf_yields level fun skipped => absurd rfl skipped)
  case brtrue | brfalse =>
    exact branch_leads here behind (by simp [op]) (branchOnTruth_yields level (by rw [op]; rfl) _)
  case beq | bne =>
    exact branch_leads here behind (by simp [op]) (branchOnEqual_yields level (by rw [op]; rfl) _)
  case bgt | blt =>
    exact branch_leads here behind (by simp [op]) (branchOnOrder_yields level (by rw [op]; rfl) _)
  all_goals refine going_leads here behind (by rw [op]; rfl) ?_
  case ldarg =>
    exact (Yields.anything _).bind fun _ _ => (Yields.anything _).bind fun _ _ => level.push _
  case ldloc =>
    exact (Yields.anything _).bind fun _ _ => (Yields.anything _).bind fun _ _ => level.push _
  case starg =>
    exact (Yields.anything _).bind fun i _ => (Frame.pop_yields level).bind fun p level =>
      Frame.storeArg_yields level i p.1
  case stloc =>
    exact (Yields.anything _).bind fun i _ => (Frame.pop_yields level).bind fun p level =>
      Frame.storeLocal_yields level i p.1
  case ldc => exact (Yields.anything _).bind fun _ _ => level.push _
  case ldstr => exact (Yields.anything _).bind fun _ _ => level.push _
  case ldsfld => exact (Yields.anything _).bind fun _ _ => level.push _
  case dup => exact (Frame.pop_yields level).bind fun p level => (level.push p.1).push p.1
  case pop => exact (Frame.pop_yields level).bind fun _ level => level
  case neg => exact negation_yields level _
  case not => exact negation_yields level _
  case ceq => exact (popEqual_yields level).bind fun _ level => level.push _
  case ldfld => exact loadField_yields level
  case isinst =>
    exact (Yields.anything _).bind fun _ _ => (Frame.pop_yields level).bind fun _ level =>
      level.push _
  all_goals exact arithmetic_yields level _

end Control

/-! ### Heaps and results -/

/-- What an instruction of the frame `f` does besides moving the frame.  A frame ends with a result
    if its method is declared with one, and only then. -/
def Outcome (symbols : SymbolTable) (heap : Heap) (f : Frame) : Action → Prop
  | next _ k | call _ _ _ _ k => heap.Written k
  | exit result => result.isSome = ((symbols.method? f.body.method).bind MethodDef.ret).isSome
  | raised _ _ | escaped _ => True

theorem going_outcome (x : Except Mishap Frame) :
    Yields (Outcome symbols heap f) (going heap x) :=
  (Yields.anything x).map fun _ _ => .nothing

theorem callMethod_outcome (needsReceiver : Bool) :
    Yields (Outcome symbols heap f) (callMethod symbols heap needsReceiver ins f) := by
  refine (Yields.anything _).bind fun callee _ => (Yields.anything _).bind fun popped _ => ?_
  dsimp only
  split
  · trivial
  · exact .nothing

theorem storeField_outcome : Yields (Outcome symbols heap f) (storeField heap ins f) := by
  refine (Yields.anything _).bind fun field _ => (Yields.anything _).bind fun value _ =>
    (Yields.anything _).bind fun object _ => ?_
  dsimp only
  split
  · next stored => exact .field stored
  · trivial

theorem ret_outcome : Yields (Outcome symbols heap f) (ret symbols f) := by
  unfold ret
  split
  · trivial
  · next signature declared =>
      split
      · next gives => exact (Yields.anything _).map fun _ _ => by simp [Outcome, declared, gives]
      · next gives => simpa [Yields, Outcome, declared] using gives

theorem raise_outcome : Yields (Outcome symbols heap f) (raise f) := by
  refine (Yields.anything _).bind fun popped _ => ?_
  dsimp only
  split <;> trivial

theorem endFinally_outcome : Yields (Outcome symbols heap f) (endFinally symbols heap f) := by
  unfold endFinally
  split
  · trivial
  · exact .nothing
  · split
    · exact .nothing
    · trivial

theorem ofInstruction_outcome :
    Yields (Outcome symbols heap f) (ofInstruction symbols heap position f ins) := by
  unfold ofInstruction
  cases ins.opcode <;> dsimp only
  case call | callvirt => exact callMethod_outcome _
  case newobj =>
    exact (Yields.anything _).bind fun callee _ => (Yields.anything _).bind fun _ _ =>
      .object callee.2.owner
  case stfld => exact storeField_outcome
  case stsfld =>
    exact (Yields.anything _).bind fun field _ => (Yields.anything _).bind fun popped _ =>
      .static field popped.1
  case ret => exact ret_outcome
  case throw => exact raise_outcome
  case leave => exact (Yields.anything _).bind fun _ _ => .nothing
  case endfinally => exact endFinally_outcome
  case nop | ldnull => exact .nothing
  all_goals exact going_outcome _

end Action

end HookSplice
