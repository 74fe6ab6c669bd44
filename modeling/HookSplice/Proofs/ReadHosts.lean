import HookSplice.Proofs.Batches
import HookSplice.Proofs.DepthMap
import HookSplice.Proofs.ReadBodies

/-!
# Hosts that were read

Every host that comes out of an image is well formed: each body belongs to a declared method and is
found under it, its operands have the shapes of their opcodes, all handles resolve, its labels are
numbered by position and are the targets of its branches, and its regions stay within the code.  So
the verifier can still reject such a body, but never for a label, an operand or a handle that does
not fit.
-/

namespace HookSplice

/-! ### Violations that well-formed bodies rule out -/

namespace Violation

/-- Whether a violation is about labels, operands or handles that do not fit together. -/
def Malformed (v : Violation) : Prop :=
  v.tag ∈ ["DuplicateLabel", "DanglingLabel", "OperandMismatch", "UnknownSymbol"]

instance (v : Violation) : Decidable v.Malformed :=
  inferInstanceAs (Decidable (_ ∈ _))

theorem tag_locatedAt (i : Nat) (v : Violation) : (v.locatedAt i).tag = v.tag := by
  unfold locatedAt
  split <;> rfl

end Violation

/-- A check that fails, if it does, for other reasons than a body that is not well formed. -/
def Regular {α : Type} (result : Except Violation α) : Prop :=
  ∀ v, result = .error v → ¬ v.Malformed

namespace Regular

variable {α β : Type}

theorem ok (a : α) : Regular (.ok a) := by
  rintro v ⟨⟩

theorem error {v : Violation} (other : ¬ v.Malformed) :
    Regular (.error v : Except Violation α) := by
  rintro _ ⟨⟩
  exact other

theorem bind {x : Except Violation α} {f : α → Except Violation β} (first : Regular x)
    (next : ∀ a, Regular (f a)) : Regular (x >>= f) := by
  intro v failure
  rcases Except.bind_eq_error failure with failure | ⟨a, -, failure⟩
  · exact first v failure
  · exact next a v failure

end Regular

namespace StackEffect

variable {symbols : SymbolTable} {ins : Instruction}

/-- A call that names a known method is refused for its opcode only. -/
theorem ofCall_regular (fits : ins.operandFits) (known : ins.operand.Known symbols)
    (calls : ins.opcode.operandKind = .method) : Regular (ofCall symbols ins) := by
  have shape : ins.operand.kind = .method := (eq_of_beq fits).symm.trans calls
  cases operand : ins.operand with
  | method id =>
      rw [operand] at known
      unfold ofCall
      rw [operand]
      simp only
      rw [SymbolTable.method?_eq known]
      simp only
      split
      · split
        · exact .ok _
        · exact .error (by decide)
      · split
        · exact .error (by decide)
        · exact .ok _
  | none | int | text | arg | slot | label | field | type =>
      rw [operand] at shape
      cases shape

theorem ofPosition_regular (enclosing : MethodDef) (i : Nat) (fits : ins.operandFits)
    (known : ins.operand.Known symbols) : Regular (ofPosition symbols enclosing i ins) := by
  have effect : Regular (ofInstruction symbols enclosing ins) := by
    unfold ofInstruction
    -- only calls look at their operand
    split <;> first
      | exact .ok _
      | next opcode => exact ofCall_regular fits known (by rw [opcode]; rfl)
  intro v failure
  obtain ⟨v', failed, rfl⟩ := Except.mapError_eq_error failure
  unfold Violation.Malformed
  rw [Violation.tag_locatedAt]
  exact effect v' failed

end StackEffect

namespace StackMap

variable {symbols : SymbolTable} {body : Body}

theorem depthAfter_regular (enclosing : MethodDef) (limit i : Nat) {ins : Instruction}
    (fits : ins.operandFits) (known : ins.operand.Known symbols) (depth : Nat) :
    Regular (depthAfter symbols enclosing limit i ins depth) := by
  unfold depthAfter
  refine .bind (StackEffect.ofPosition_regular enclosing i fits known) fun effect => ?_
  split
  · exact .error (by simp [Violation.Malformed, Violation.tag])
  · split
    · exact .error (by simp [Violation.Malformed, Violation.tag])
    · simp only
      split
      · exact .error (by simp [Violation.Malformed, Violation.tag])
      · exact .ok _

theorem runBlock_regular (enclosing : MethodDef) (limit : Nat)
    {positions : List (Instruction × Nat)}
    (fits : ∀ entry ∈ positions, entry.1.operandFits)
    (known : ∀ entry ∈ positions, entry.1.operand.Known symbols) (depth : Nat) :
    Regular (runBlock symbols enclosing limit positions depth) := by
  induction positions generalizing depth with
  | nil => exact .ok _
  | cons entry rest ih =>
      obtain ⟨ins, i⟩ := entry
      unfold runBlock
      refine .bind (depthAfter_regular enclosing limit i (fits _ (List.mem_cons_self ..))
        (known _ (List.mem_cons_self ..)) depth) fun after => ?_
      refine .bind (ih (fun entry member => fits entry (.tail _ member))
        (fun entry member => known entry (.tail _ member)) _) fun run => ?_
      exact .ok _

theorem passOn_regular (body : Body) (g : FlowGraph) (final : Nat) (edges : List Edge)
    (entries : List (Nat × Nat)) (work : List Nat) :
    Regular (passOn body g final edges entries work) := by
  induction edges generalizing entries work with
  | nil => exact .ok _
  | cons e rest ih =>
      unfold passOn
      simp only
      split
      · split
        · exact ih _ _
        · exact .error (by simp [Violation.Malformed, Violation.tag])
      · exact ih _ _

theorem openEnd?_regular {block : Block} {v : Violation} (open_ : openEnd? body block = some v) :
    ¬ v.Malformed := by
  unfold openEnd? at open_
  split at open_
  · split at open_
    · cases open_
      simp [Violation.Malformed, Violation.tag]
    · cases open_
  · cases open_

theorem propagate_regular (enclosing : MethodDef) (limit : Nat)
    (fits : ∀ ins ∈ body.code, ins.operandFits)
    (known : ∀ ins ∈ body.code, ins.operand.Known symbols) (g : FlowGraph) (fuel : Nat)
    (work : List Nat) (p : Progress) :
    Regular (propagate symbols enclosing limit body g fuel work p) := by
  induction fuel generalizing work p with
  | zero => exact .ok _
  | succ fuel ih =>
      cases work with
      | nil => exact .ok _
      | cons index work =>
          unfold propagate
          split
          · next block depth here entered =>
              have inCode : ∀ entry ∈ (body.code.zipIdx.drop block.start).take
                  (block.stop - block.start), entry.1 ∈ body.code := fun entry member =>
                List.mem_of_getElem? (List.mem_zipIdx_iff_getElem?.mp
                  (List.mem_of_mem_drop (List.mem_of_mem_take member)))
              refine .bind (runBlock_regular enclosing limit
                (fun entry member => fits _ (inCode entry member))
                (fun entry member => known _ (inCode entry member)) depth) fun run => ?_
              cases open_ : openEnd? body block with
              | some v => exact .error (openEnd?_regular open_)
              | none => exact .bind (passOn_regular body g _ _ _ _) fun passed => ih _ _
          · exact ih _ _

/-- The operand of a sound body can name no argument, no local slot, or a field of the wrong
    kind. -/
theorem operandFault?_regular (sound : body.Sound symbols) {argCount i : Nat} {ins : Instruction}
    (member : ins ∈ body.code) {v : Violation}
    (fault : operandFault? symbols body argCount i ins = some v) : ¬ v.Malformed := by
  have known := sound.known ins member
  unfold operandFault? at fault
  rw [if_neg (by simp [sound.fits ins member])] at fault
  cases operand : ins.operand with
  | none | int | text =>
      rw [operand] at fault
      cases fault
  | arg index | slot index =>
      rw [operand] at fault
      simp only at fault
      split at fault
      · cases fault
      · cases fault
        simp [Violation.Malformed, Violation.tag]
  | label l =>
      rw [operand] at fault
      have target : ins.target? = some l := by simp [Instruction.target?, operand]
      have attached := (sound.used l).mpr ⟨ins, member, target⟩
      have found : body.position? l ≠ Option.none := fun absent =>
        Code.position?_eq_none_iff.mp absent attached
      simp only [if_pos (Option.isSome_iff_ne_none.mpr found)] at fault
      cases fault
  | field id =>
      rw [operand] at fault known
      simp only [SymbolTable.field?_eq known] at fault
      split at fault
      · cases fault
      · cases fault
        simp [Violation.Malformed, Violation.tag]
  | method id =>
      rw [operand] at fault known
      simp only [SymbolTable.method?_eq known] at fault
      cases fault
  | type id =>
      rw [operand] at fault known
      have here : symbols.hasType id := known
      simp only [if_pos here] at fault
      cases fault

theorem transferFault?_regular {i : Nat} {ins : Instruction} {v : Violation}
    (fault : transferFault? body i ins = some v) : ¬ v.Malformed := by
  unfold transferFault? at fault
  split at fault
  · cases fault
    simp [Violation.Malformed, Violation.tag]
  · split at fault
    · cases fault
    · split at fault
      · cases fault
      · cases fault
        simp [Violation.Malformed, Violation.tag]

theorem structuralFault?_regular (sound : body.Sound symbols) {argCount : Nat} {v : Violation}
    (fault : structuralFault? symbols body argCount = some v) : ¬ v.Malformed := by
  unfold structuralFault? at fault
  rw [(Code.duplicate?_eq_none_iff body.code).mpr sound.attached, Option.map_none, Option.none_or,
    Option.or_eq_some_iff, Option.or_eq_some_iff] at fault
  rcases fault with fault | ⟨-, fault | ⟨-, fault⟩⟩
  · obtain ⟨⟨ins, i⟩, member, fault⟩ := List.exists_of_findSome?_eq_some fault
    exact operandFault?_regular sound
      (List.mem_of_getElem? (List.mem_zipIdx_iff_getElem?.mp member)) fault
  · obtain ⟨⟨r, i⟩, -, fault⟩ := List.exists_of_findSome?_eq_some fault
    simp only at fault
    split at fault
    · cases fault
    · cases fault
      simp [Violation.Malformed, Violation.tag]
  · obtain ⟨⟨ins, i⟩, -, fault⟩ := List.exists_of_findSome?_eq_some fault
    exact transferFault?_regular fault

/-- The verifier rejects no sound body for a label, an operand or a handle that does not fit. -/
theorem analyze_regular (sound : body.Sound symbols) (limit : Nat) :
    Regular (analyze symbols body limit) := by
  unfold analyze
  split
  · exact .error (by decide)
  · rw [SymbolTable.method?_eq sound.method]
    simp only
    split
    · next fault => exact .error (structuralFault?_regular sound fault)
    · refine .bind (propagate_regular _ limit sound.fits sound.known _ _ _ _) fun p => ?_
      exact .ok _

end StackMap

/-! ### The order of the labels -/

/-- The labels of a body are numbered in the order of the code, below the next fresh one. -/
def Body.Numbered (b : Body) : Prop :=
  (Code.labels b.code).map Label.number = List.range b.nextLabel.toNat

instance (b : Body) : Decidable b.Numbered :=
  inferInstanceAs (Decidable (_ = _))

namespace Image

section Numbers

variable {refs : List (Nat × List Char)} {raws : List RawInstruction} {operands : List Operand}
  (few : refs.length < UInt32.size)
include few

/-- References in order of their positions give labels in that order. -/
theorem ascending_assembleAll (ordered : refs.Pairwise ReferenceBefore) :
    (Code.labels (assembleAll refs raws operands)).Pairwise fun l k => l.number < k.number := by
  unfold Code.labels
  rw [List.pairwise_flatMap]
  constructor
  · intro ins member
    obtain ⟨i, here⟩ := List.mem_iff_getElem?.mp member
    obtain ⟨raw, operand, -, -, rfl⟩ := getElem?_assembleAll.mp here
    exact ascending_assemble few raw operand i
  · rw [List.pairwise_iff_getElem]
    intro i j below below' less l member k member'
    obtain ⟨raw, operand, -, -, shape⟩ := getElem?_assembleAll.mp (List.getElem?_eq_getElem below)
    obtain ⟨raw', operand', -, -, shape'⟩ :=
      getElem?_assembleAll.mp (List.getElem?_eq_getElem below')
    rw [← shape] at member
    rw [← shape'] at member'
    obtain ⟨name, at_⟩ := (mem_assemble few).mp member
    obtain ⟨name', at_'⟩ := (mem_assemble few).mp member'
    -- a reference with a greater position comes later
    rcases Nat.lt_trichotomy l.number k.number with less | equal | greater
    · exact less
    · rw [equal, at_', Option.some.injEq, Prod.mk.injEq] at at_
      omega
    · obtain ⟨inRefs, shape⟩ := List.getElem?_eq_some_iff.mp at_
      obtain ⟨inRefs', shape'⟩ := List.getElem?_eq_some_iff.mp at_'
      have before := List.pairwise_iff_getElem.mp ordered _ _ inRefs' inRefs greater
      rw [shape, shape'] at before
      rcases before with earlier | ⟨equal, -⟩
      · exact absurd earlier (Nat.lt_asymm less)
      · exact absurd equal.symm less.ne

/-- The labels of the code are the places of the references, in their order. -/
theorem labels_assembleAll (ordered : refs.Pairwise ReferenceBefore)
    (same : raws.length = operands.length) (inside : ∀ entry ∈ refs, entry.1 < raws.length) :
    (Code.labels (assembleAll refs raws operands)).map Label.number = List.range refs.length := by
  have perm : ((Code.labels (assembleAll refs raws operands)).map Label.number).Perm
      (List.range refs.length) := by
    refine (List.perm_ext_iff_of_nodup ((nodup_labels_assembleAll few).map fun _ _ =>
      Label.number_inj) List.nodup_range).mpr fun n => ?_
    simp only [List.mem_map, mem_labels_assembleAll few same inside, List.mem_range]
    constructor
    · rintro ⟨l, ⟨entry, at_⟩, rfl⟩
      exact (List.getElem?_eq_some_iff.mp at_).1
    · intro below
      have number := Label.number_ofNat (Nat.lt_trans below few)
      have here : refs[(Label.ofNat n).number]? = some refs[n] := by
        rw [number, List.getElem?_eq_getElem below]
      exact ⟨.ofNat n, ⟨_, here⟩, number⟩
  exact perm.eq_of_pairwise (fun m n _ _ first second => absurd second (Nat.lt_asymm first))
    (List.pairwise_map.mpr (ascending_assembleAll few ordered)) List.pairwise_lt_range

end Numbers

/-- The labels of a body that was read are numbered by position. -/
theorem readBody_numbered {symbols symbols' : SymbolTable} {p : PendingBody} {b : Body}
    (success : readBody symbols p = .ok (b, symbols')) : b.Numbered := by
  obtain ⟨_, _, d, refs, _, _, -, inside, refsRead, few, operandsRead, -, rfl⟩ :=
    readBody_eq_ok success
  obtain ⟨ordered, members⟩ := references_eq_ok refsRead
  have count : (UInt32.ofNat refs.length).toNat = refs.length := UInt32.toNat_ofNat_of_lt' few
  unfold Body.Numbered
  rw [count]
  refine labels_assembleAll few ordered (readOperands_eq_ok operandsRead).2.length_eq ?_
  intro entry member
  exact inside _ (mem_of_lookup (members.mp member).1)

theorem readBodies_numbered {pending : List PendingBody} {h h' : Host}
    (numbered : ∀ b ∈ h.bodies, b.Numbered) (success : readBodies h pending = .ok h') :
    ∀ b ∈ h'.bodies, b.Numbered := by
  refine readBodies_induction (P := fun g => ∀ b ∈ g.bodies, b.Numbered)
    (fun _ numbered bodyRead _ b member => ?_) numbered success
  rcases Bodies.mem_insert member with rfl | member
  · exact readBody_numbered bodyRead
  · exact numbered b member

theorem read_numbered {image : String} {h : Host} (success : read image = .ok h) :
    ∀ b ∈ h.bodies, b.Numbered := by
  obtain ⟨symbols, pending, -, bodies⟩ := read_eq_ok success
  exact readBodies_numbered (fun _ member => absurd member List.not_mem_nil) bodies

/-- A host that was read is well formed.  Every body stands under its own method, which is
    declared; its operands have the shapes of their opcodes and its handles resolve; each label is
    attached once and is the target of a branch, and the labels are numbered in the order of the
    code; no region reaches beyond the code.  So whatever the verifier has against a body, it is no
    label, operand or handle that does not fit. -/
theorem read_wellFormed {image : String} {h : Host} (success : read image = .ok h) :
    (∀ b ∈ h.bodies, h.body? b.method = some b) ∧
    ∀ m b, h.body? m = some b → b.method = m ∧ b.Sound h.symbols ∧ b.Numbered ∧
      ∀ limit v, StackMap.analyze h.symbols b limit = .error v → ¬ v.Malformed := by
  have sound := read_sound success
  refine ⟨fun b member => Host.body?_eq_some_iff.mpr ⟨member, rfl⟩, ?_⟩
  intro m b found
  obtain ⟨member, method⟩ := Host.body?_eq_some_iff.mp found
  have whole := sound.bodies b member
  exact ⟨method, whole, read_numbered success b member, StackMap.analyze_regular whole⟩

/-- A loop that takes a value off the empty stack, with two labels at its start. -/
def drainImage : String :=
  ".class Sink\n.end\n\n.method static void Sink::drain(int)\nnext:\nagain:\n  pop\n" ++
    "  ldarg 0\n  brtrue again\n  br next\n.end\n"

/-- The body of the loop, with its labels in the order of their names. -/
def drainBody : Body where
  method := ⟨0⟩
  code := [⟨.pop, .none, [⟨0⟩, ⟨1⟩]⟩, .of .ldarg (.arg 0), .of .brtrue (.label ⟨0⟩),
    .of .br (.label ⟨1⟩)]
  locals := []
  regions := []
  nextLabel := 2

/-- The host of the loop. -/
def drainHost : Host where
  symbols := {
    typeNames := ["Sink", "int"]
    fields := []
    methods := [⟨⟨⟨0⟩, "drain", [⟨1⟩], none, true⟩, "Sink::drain(int)"⟩] }
  bodies := .single drainBody
  applied := []

theorem drainHost_wellFormed : read drainImage = .ok drainHost ∧ drainBody.Sound drainHost.symbols ∧
    drainBody.Numbered ∧
    StackMap.analyze drainHost.symbols drainBody StackMap.defaultLimit =
      .error (.stackUnderflow 0 0 1) ∧ ¬ (Violation.stackUnderflow 0 0 1).Malformed := by
  have success : read drainImage = .ok drainHost := by decide +kernel
  obtain ⟨-, sound, numbered, regular⟩ := (read_wellFormed success).2 ⟨0⟩ drainBody (by decide)
  have rejected : StackMap.analyze drainHost.symbols drainBody StackMap.defaultLimit =
      .error (.stackUnderflow 0 0 1) := by rfl
  exact ⟨success, sound, numbered, rejected, regular _ _ rejected⟩

end Image

end HookSplice
