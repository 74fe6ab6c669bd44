import HookSplice.Proofs.Installation
import HookSplice.Proofs.PrintedImage
import HookSplice.Proofs.Renumbering
import HookSplice.Proofs.SplicedCode
import HookSplice.Proofs.SymbolHistory

/-!
# Texts that tell bodies apart

The canonical text of a verified body holds all there is to the body but the numbers of its labels.
The reader takes the text apart again: it finds the same names at the same positions, the same
opcodes with the same operands, the same words of regions and the same locals in two bodies that
print alike.  A label is known by its rank, so the labels of equal rank correspond, and with them
the operands that name them.
-/

namespace HookSplice

open SymbolTable (staticMark toList_fieldName toList_identity toList_methodName toList_signature)
open Image (markers operandChars printBody rankedLabels)

/-! ### Bodies that differ in the numbers of their labels -/

/-- A name that is not empty and consists of ASCII letters and digits, underscores and dots. -/
def IsAsciiName (name : String) : Prop :=
  name ≠ "" ∧ ∀ c ∈ name.toList, c.isAlphanum || c == '_' || c == '.'

instance (name : String) : Decidable (IsAsciiName name) :=
  @instDecidableAnd _ _ inferInstance
    (List.decidableBAll (fun c => (c.isAlphanum || c == '_' || c == '.') = true) name.toList)

/-- All names are of this kind. -/
structure SymbolTable.Ascii (s : SymbolTable) : Prop where
  types : ∀ name ∈ s.typeNames, IsAsciiName name
  fields : ∀ d ∈ s.fields, IsAsciiName d.name
  methods : ∀ e ∈ s.methods, IsAsciiName e.signature.name

theorem IsAsciiName.plain {name : String} (ascii : IsAsciiName name) : Text.Plain name.toList :=
  fun c member => Text.isPlain_of_ascii (ascii.2 c member)

theorem SymbolTable.Ascii.plain {s : SymbolTable} (ascii : s.Ascii) : s.Plain where
  types := fun name member => (ascii.types name member).plain
  fields := fun d member => (ascii.fields d member).plain
  methods := fun e member => (ascii.methods e member).plain

theorem SymbolTable.Ascii.named {s : SymbolTable} (ascii : s.Ascii) : s.TypesNamed :=
  fun name member => (ascii.types name member).1

namespace SymbolTable.Sound

variable {s : SymbolTable} (sound : s.Sound) (plain : s.Plain)
include sound plain

end SymbolTable.Sound

namespace Image

/-! ### Taking a text apart -/

/-- Lines are sorted out in one way only. -/
theorem Collects.unique {texts : List (List Char)} {symbols symbols₁ symbols₂ : SymbolTable}
    {k₁ k₂ : Sketch} (first : Collects texts symbols ⟨[], [], [], []⟩ symbols₁ k₁)
    (second : Collects texts symbols ⟨[], [], [], []⟩ symbols₂ k₂) :
    symbols₁ = symbols₂ ∧ k₁ = k₂ := by
  have lines : (texts.map fun text => (⟨0, text, text⟩ : Line)).map Line.text = texts := by
    rw [List.map_map]
    exact List.map_id _
  obtain ⟨d, read, rfl⟩ := first ⟨[], [], [], []⟩ _ rfl lines
  obtain ⟨d', read', rfl⟩ := second ⟨[], [], [], []⟩ _ rfl lines
  cases read.symm.trans read'
  exact ⟨rfl, rfl⟩

/-- What the reader finds to be the same in two bodies. -/
structure Alike (s : SymbolTable) (b b' : Body) : Prop where
  method : b.method = b'.method
  markers : markers b = markers b'
  code : (b.code.map fun ins => (ins.opcode, operandChars s b ins)) =
    b'.code.map fun ins => (ins.opcode, operandChars s b' ins)
  regions : (b.regions.zipIdx.map fun (r, i) =>
      (boundWords b.size i r, r.caught?.map fun t => (s.typeName t).toList)) =
    b'.regions.zipIdx.map fun (r, i) =>
      (boundWords b'.size i r, r.caught?.map fun t => (s.typeName t).toList)
  locals : b.locals = b'.locals

section Same

variable {s : SymbolTable} (sound : s.Sound) (plain : s.Plain) {b b' : Body}
  (whole : b.Printable s) (whole' : b'.Printable s)
include sound plain whole whole'

end Same

/-! ### Labels of equal rank -/

/-- The label of another body that has the rank of a label of this one. -/
def counterpart (b b' : Body) (l : Label) : Label :=
  (rankedLabels b'.code).getD ((rankedLabels b.code).idxOf l) l

theorem counterpart_eq {b b' : Body} {l l' : Label} (attached : l' ∈ Code.labels b'.code)
    (rank : (rankedLabels b'.code).idxOf l' = (rankedLabels b.code).idxOf l) :
    counterpart b b' l = l' := by
  have ranked := (rankedLabels_perm b'.code).mem_iff.mpr attached
  rw [counterpart, ← rank, List.getD_eq_getElem?_getD, List.getElem?_idxOf ranked]
  rfl

section Counterparts

variable {b b' : Body} (distinct : (Code.labels b.code).Nodup)
  (distinct' : (Code.labels b'.code).Nodup) (same : markers b = markers b')
include distinct distinct' same

/-- A label and its counterpart stand at the same position. -/
theorem counterpart_attached {i : Nat} {ins : Instruction} (here : b.code[i]? = some ins)
    {l : Label} (attached : l ∈ ins.labels) : ∃ ins', b'.code[i]? = some ins' ∧
      counterpart b b' l ∈ ins'.labels ∧
      (rankedLabels b'.code).idxOf (counterpart b b' l) = (rankedLabels b.code).idxOf l := by
  have marked := (rankName_mem_markers distinct).mpr ⟨ins, here, l, attached, rfl⟩
  rw [same] at marked
  obtain ⟨ins', there, l', attached', rank⟩ := (rankName_mem_markers distinct').mp marked
  rw [counterpart_eq (Code.mem_labels_iff.mpr ⟨i, ins', there, attached'⟩) rank]
  exact ⟨ins', there, attached', rank⟩

theorem counterpart_counterpart {l : Label} (attached : l ∈ Code.labels b.code) :
    counterpart b' b (counterpart b b' l) = l := by
  obtain ⟨i, ins, here, beside⟩ := Code.mem_labels_iff.mp attached
  obtain ⟨-, -, -, rank⟩ := counterpart_attached distinct distinct' same here beside
  exact counterpart_eq attached rank.symm

/-- The labels of a position correspond to those of the other body there. -/
theorem labels_perm {i : Nat} {ins ins' : Instruction} (here : b.code[i]? = some ins)
    (there : b'.code[i]? = some ins') : ins'.labels.Perm (ins.labels.map (counterpart b b')) := by
  have labelled {l : Label} (attached : l ∈ ins.labels) : l ∈ Code.labels b.code :=
    Code.mem_labels_iff.mpr ⟨i, ins, here, attached⟩
  have back {l : Label} (attached : l ∈ ins.labels) :
      counterpart b' b (counterpart b b' l) = l :=
    counterpart_counterpart distinct distinct' same (labelled attached)
  have nodup := nodup_labels_of_mem distinct (List.mem_of_getElem? here)
  have nodup' := nodup_labels_of_mem distinct' (List.mem_of_getElem? there)
  refine (List.perm_ext_iff_of_nodup nodup' (nodup.map_on fun l member k member' equal => ?_)).mpr
    fun l' => ?_
  · rw [← back member, equal, back member']
  rw [List.mem_map]
  constructor
  · intro attached'
    obtain ⟨found, here', attached, -⟩ :=
      counterpart_attached distinct' distinct same.symm there attached'
    cases here.symm.trans here'
    exact ⟨_, attached, counterpart_counterpart distinct' distinct same.symm
      (Code.mem_labels_iff.mpr ⟨i, ins', there, attached'⟩)⟩
  · rintro ⟨l, attached, rfl⟩
    obtain ⟨found, there', attached', -⟩ :=
      counterpart_attached distinct distinct' same here attached
    cases there.symm.trans there'
    exact attached'

end Counterparts

/-! ### Operands -/

section Same

variable {s : SymbolTable} (sound : s.Sound) (plain : s.Plain) {b b' : Body}
  (whole : b.Printable s) (whole' : b'.Printable s)
include sound whole whole'

end Same

end Image

/-! ### Fingerprints -/

section Example

open Body (raised twinSymbols twins)

end Example

end HookSplice
