import HookSplice.Proofs.LabelOrder
import HookSplice.Proofs.SoundSymbols

/-!
# Sound bodies

A body is sound when its operands have the shapes of their opcodes, its handles name symbols of the
table, exactly the attached labels are used, each of them attached once and older than the next
fresh one, and no region reaches beyond the code.
-/

namespace HookSplice

/-- The handle in an operand names a symbol of the table. -/
def Operand.Known (s : SymbolTable) : Operand → Prop
  | .field f => s.hasField f
  | .method m => s.hasMethod m
  | .type t => s.hasType t
  | _ => True

/-- The type that an operand names. -/
def Operand.type? : Operand → Option TypeId
  | .type t => some t
  | _ => Option.none

/-- The type that a region catches. -/
def Region.caught? (r : Region) : Option TypeId :=
  match r.kind with
  | .catching t => some t
  | .finalizing => none

/-- The types that a body mentions, in the order in which the reader comes upon them. -/
def Body.mentions (b : Body) : List TypeId :=
  b.locals ++ b.code.filterMap (fun ins => ins.operand.type?) ++ b.regions.filterMap Region.caught?

/-- A body over the symbols of a table. -/
structure Body.Sound (s : SymbolTable) (b : Body) : Prop where
  method : s.hasMethod b.method
  fits : ∀ ins ∈ b.code, ins.operandFits
  known : ∀ ins ∈ b.code, ins.operand.Known s
  attached : (Code.labels b.code).Nodup
  used : ∀ l, l ∈ Code.labels b.code ↔ ∃ ins ∈ b.code, ins.target? = some l
  numbered : ∀ l ∈ Code.labels b.code, l.number < b.nextLabel.toNat
  locals : ∀ t ∈ b.locals, s.hasType t
  inside : ∀ r ∈ b.regions, r.tryStart ≤ b.size ∧ r.tryEnd ≤ b.size ∧ r.handlerStart ≤ b.size ∧
    r.handlerEnd ≤ b.size
  caught : ∀ r ∈ b.regions, ∀ t ∈ r.caught?, s.hasType t

/-- What the text of a body needs to tell what it stands for: a body may attach labels that no
    branch names, and its next fresh label may be any. -/
structure Body.Printable (s : SymbolTable) (b : Body) : Prop where
  method : s.hasMethod b.method
  fits : ∀ ins ∈ b.code, ins.operandFits
  known : ∀ ins ∈ b.code, ins.operand.Known s
  attached : (Code.labels b.code).Nodup
  targets : ∀ ins ∈ b.code, ∀ l ∈ ins.target?, l ∈ Code.labels b.code
  locals : ∀ t ∈ b.locals, s.hasType t
  inside : ∀ r ∈ b.regions, r.tryStart ≤ b.size ∧ r.tryEnd ≤ b.size ∧ r.handlerStart ≤ b.size ∧
    r.handlerEnd ≤ b.size
  caught : ∀ r ∈ b.regions, ∀ t ∈ r.caught?, s.hasType t

theorem Body.Sound.printable {s : SymbolTable} {b : Body} (sound : b.Sound s) : b.Printable s where
  method := sound.method
  fits := sound.fits
  known := sound.known
  attached := sound.attached
  targets := fun ins member l target => (sound.used l).mpr ⟨ins, member, target⟩
  locals := sound.locals
  inside := sound.inside
  caught := sound.caught

theorem Operand.kind_eq_none {operand : Operand} : operand.kind = .none ↔ operand = .none := by
  cases operand <;> simp [kind]

/-- An opcode of a branch takes a label. -/
theorem Instruction.isBranch_iff {ins : Instruction} (fits : ins.operandFits) :
    ins.opcode.isBranch ↔ ∃ l, ins.target? = some l := by
  have shape : ins.opcode.operandKind = ins.operand.kind := eq_of_beq fits
  unfold Opcode.isBranch Instruction.target?
  rw [shape]
  cases ins.operand <;> simp [Operand.kind]

theorem Instruction.operand_of_target? {ins : Instruction} {l : Label}
    (target : ins.target? = some l) : ins.operand = .label l := by
  unfold Instruction.target? at target
  split at target
  · next k shape =>
      rw [shape, Option.some.inj target]
  · cases target

theorem Operand.Known.grow {s s' : SymbolTable} {operand : Operand} (known : operand.Known s)
    (grown : s.Extends s') : operand.Known s' := by
  cases operand with
  | field f => exact grown.hasField known
  | method m => exact grown.hasMethod known
  | type t => exact grown.hasType known
  | none | int | text | arg | slot | label => trivial

/-- A body stays sound when its table grows. -/
theorem Body.Sound.grow {s s' : SymbolTable} {b : Body} (sound : b.Sound s)
    (grown : s.Extends s') : b.Sound s' where
  method := grown.hasMethod sound.method
  fits := sound.fits
  known := fun ins member => (sound.known ins member).grow grown
  attached := sound.attached
  used := sound.used
  numbered := sound.numbered
  locals := fun t member => grown.hasType (sound.locals t member)
  inside := sound.inside
  caught := fun r member t here => grown.hasType (sound.caught r member t here)

theorem Body.Sound.mentioned {s : SymbolTable} {b : Body} (sound : b.Sound s) :
    ∀ t ∈ b.mentions, s.hasType t := by
  intro t member
  rcases List.mem_append.mp member with member | member
  · rcases List.mem_append.mp member with member | member
    · exact sound.locals t member
    · obtain ⟨ins, inCode, here⟩ := List.mem_filterMap.mp member
      have known := sound.known ins inCode
      cases shape : ins.operand with
      | type u =>
          rw [shape] at here known
          cases here
          exact known
      | none | int | text | arg | slot | label | field | method =>
          rw [shape] at here
          cases here
  · obtain ⟨r, inRegions, here⟩ := List.mem_filterMap.mp member
    exact sound.caught r inRegions t here

end HookSplice
