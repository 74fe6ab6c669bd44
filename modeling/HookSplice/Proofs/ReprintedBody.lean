import HookSplice.Proofs.ReloadedBody

/-!
# Bodies that are printed again

A body that was printed and read back prints alike when, at every position, the names of its labels
ascend as texts in the order of the labels' numbers: only then does the reader number them as they
were numbered before.  The names `L9` and `L10` at one position do not ascend.
-/

namespace HookSplice

open Image (boundNames labelName markersAt rankName rankedLabels sortLabels)

/-- Bodies with one canonical text have one fingerprint. -/
theorem Fingerprint.ofBody_congr {s s' : SymbolTable} {b b' : Body}
    (same : Image.printBody s b = Image.printBody s' b') : ofBody s b = ofBody s' b' :=
  congrArg (fun text : String => (⟨Digest.sha3 text.toUTF8.data.toList, sha3_length _⟩ :
    Fingerprint))
    same

/-! ### Ascending lists -/

/-- In a list without duplicates, places ascend. -/
theorem pairwise_idxOf {α : Type} [BEq α] [LawfulBEq α] {xs : List α} (distinct : xs.Nodup) :
    xs.Pairwise fun x y => xs.idxOf x < xs.idxOf y := by
  rw [List.pairwise_iff_getElem]
  intro i j below below' less
  rwa [distinct.idxOf_getElem, distinct.idxOf_getElem]

/-- Two lists of the same elements in one strict order are the same. -/
theorem eq_of_pairwise_perm {α : Type} {r : α → α → Prop} (asymm : ∀ x y, r x y → ¬ r y x)
    {xs ys : List α} (same : xs.Perm ys) (ordered : xs.Pairwise r) (ordered' : ys.Pairwise r) :
    xs = ys :=
  same.eq_of_pairwise (fun x y _ _ less less' => absurd less' (asymm x y less)) ordered ordered'

/-- Labels that ascend by their numbers are sorted. -/
theorem Image.sortLabels_eq_self {ls : List Label}
    (ascend : ls.Pairwise fun a b => a.number < b.number) : sortLabels ls = ls := by
  have distinct : ls.Nodup := ascend.imp fun {a b} less => by
    rintro rfl
    exact Nat.lt_irrefl _ less
  exact eq_of_pairwise_perm (fun _ _ => Nat.lt_asymm) (Image.sortLabels_perm ls)
    (Image.pairwise_sortLabels distinct) ascend

/-! ### Labels that were read back -/

/-- At every position, the names of the labels ascend as texts when the labels are taken by their
    numbers. -/
def Body.NamesAscend (b : Body) : Prop :=
  ∀ ins ∈ b.code, (sortLabels ins.labels).Pairwise fun l k =>
    labelName (rankedLabels b.code) l < labelName (rankedLabels b.code) k

instance (b : Body) : Decidable b.NamesAscend :=
  inferInstanceAs (Decidable (∀ ins ∈ b.code, _))

namespace Code

variable {code : List Instruction} (distinct : (labels code).Nodup)

/-- The labels of one instruction are next to each other in the order of the reader. -/
theorem byName_sublist {ins : Instruction} (member : ins ∈ code) :
    (byName code ins.labels).Sublist (readOrder code) :=
  List.sublist_flatten_of_mem (List.mem_map_of_mem member)

include distinct

theorem nodup_readOrder : (readOrder code).Nodup :=
  (readOrder_perm code).nodup_iff.mpr distinct

/-- The new numbers of the labels of one instruction ascend. -/
theorem sortLabels_relabelled {ins : Instruction} (member : ins ∈ code) :
    sortLabels ((byName code ins.labels).map (relabel code)) =
      (byName code ins.labels).map (relabel code) := by
  have places := (pairwise_idxOf (nodup_readOrder distinct)).sublist (byName_sublist member)
  have attached {l : Label} (here : l ∈ byName code ins.labels) : l ∈ labels code :=
    (readOrder_perm code).mem_iff.mp ((byName_sublist member).subset here)
  refine Image.sortLabels_eq_self (List.pairwise_map.mpr ?_)
  refine places.imp_of_mem fun here there less => ?_
  rwa [number_relabel distinct (attached here), number_relabel distinct (attached there)]

/-- The labels of code that was read back, by their ranks. -/
theorem rankedLabels_instruction (a : Arrangement) :
    rankedLabels (code.map (a.instruction code)) = (readOrder code).map (relabel code) := by
  unfold rankedLabels readOrder
  rw [List.flatMap_map, List.map_flatMap]
  exact List.flatMap_congr fun ins member => sortLabels_relabelled distinct member

/-- The name of a label is that of its place in the order of the reader. -/
theorem labelName_relabel (a : Arrangement) {l : Label} (attached : l ∈ labels code) :
    labelName (rankedLabels (code.map (a.instruction code))) (relabel code l) =
      rankName ((readOrder code).idxOf l) := by
  have labels' : labels (code.map (a.instruction code)) = (readOrder code).map (relabel code) := by
    unfold labels readOrder
    rw [List.flatMap_map, List.map_flatMap]
    rfl
  have inOrder {k : Label} (member : k ∈ readOrder code) : k ∈ labels code :=
    (readOrder_perm code).mem_iff.mp member
  have distinct' : (labels (code.map (a.instruction code))).Nodup := by
    rw [labels']
    exact (nodup_readOrder distinct).map_on fun k member _ member' same =>
      relabel_inj distinct (inOrder member) (inOrder member') same
  have attached' : relabel code l ∈ labels (code.map (a.instruction code)) := by
    rw [labels']
    exact List.mem_map_of_mem ((readOrder_perm code).mem_iff.mpr attached)
  rw [Image.labelName_eq distinct' attached', rankedLabels_instruction distinct,
    idxOf_map_on fun k member same => relabel_inj distinct (inOrder member) attached same]

end Code

namespace Body.NamesAscend

variable {b : Body} (ascend : b.NamesAscend) (distinct : (Code.labels b.code).Nodup)
include ascend distinct

/-- By name, the labels of an instruction are in the order of their numbers. -/
theorem byName_eq {ins : Instruction} (member : ins ∈ b.code) :
    Code.byName b.code ins.labels = sortLabels ins.labels :=
  eq_of_pairwise_perm (fun _ _ => String.lt_asymm)
    ((Code.byName_perm b.code ins.labels).trans (Image.sortLabels_perm ins.labels).symm)
    (Order.pairwise_sortByText _ (Code.names_distinct distinct member)) (ascend ins member)

/-- The reader finds the labels in the order of their ranks. -/
theorem readOrder_eq : Code.readOrder b.code = rankedLabels b.code :=
  List.flatMap_congr fun _ member => ascend.byName_eq distinct member

/-- Labels keep their names. -/
theorem labelName_eq (a : Arrangement) {l : Label} (attached : l ∈ Code.labels b.code) :
    labelName (rankedLabels (a.body b).code) (Code.relabel b.code l) =
      labelName (rankedLabels b.code) l := by
  rw [Image.labelName_eq distinct attached, ← ascend.readOrder_eq distinct]
  exact Code.labelName_relabel distinct a attached

/-- The same names stand in front of every instruction. -/
theorem markersAt_eq (a : Arrangement) {ins : Instruction} (member : ins ∈ b.code) (i : Nat) :
    markersAt (a.body b) (rankedLabels (a.body b).code) i (a.instruction b.code ins) =
      markersAt b (rankedLabels b.code) i ins := by
  have names : (sortLabels ((Code.byName b.code ins.labels).map (Code.relabel b.code))).map
      (labelName (rankedLabels (a.body b).code)) =
        (sortLabels ins.labels).map (labelName (rankedLabels b.code)) := by
    rw [Code.sortLabels_relabelled distinct member, ascend.byName_eq distinct member, List.map_map]
    refine List.map_congr_left fun l inside => ascend.labelName_eq distinct a ?_
    exact List.mem_flatMap.mpr ⟨ins, member, (Image.sortLabels_perm _).mem_iff.mp inside⟩
  have bounds : (b.regions.map a.region).zipIdx.flatMap (fun row => boundNames row.2 row.1) =
      b.regions.zipIdx.flatMap fun row => boundNames row.2 row.1 := by
    rw [List.zipIdx_map, List.flatMap_map]
    rfl
  exact congrArg₂ (· ++ ·) names
    (congrArg (fun bounds => (bounds.filter fun entry => entry.1 == i).map Prod.snd) bounds)

end Body.NamesAscend

/-! ### Names under an arrangement -/

namespace Arrangement

variable {a : Arrangement} {s : SymbolTable} (drawn : a.Over s)

theorem typeNames_table {ts : List TypeId} (mentioned : ∀ t ∈ ts, t ∈ a.mentions) :
    (ts.map a.type).map (a.table s).typeName = ts.map s.typeName := by
  rw [List.map_map]
  exact List.map_congr_left fun t member => typeName_table (mentioned t member)

include drawn

theorem fieldName_table {f : FieldId} (declared : f ∈ a.fields) :
    (a.table s).fieldName (a.field f) = s.fieldName f := by
  obtain ⟨known, owner, -⟩ := drawn.fields f declared
  unfold SymbolTable.fieldName
  rw [field?_table declared, SymbolTable.field?_eq known]
  exact congrArg (· ++ "::" ++ _) (typeName_table owner)

theorem methodName_table {m : MethodId} (declared : m ∈ a.methods) :
    (a.table s).methodName (a.method m) = s.methodName m := by
  obtain ⟨known, mentioned⟩ := drawn.methods m declared
  unfold SymbolTable.methodName
  rw [method?_table declared, SymbolTable.method?_eq known]
  exact identity_table mentioned ", "

theorem signature_table {m : MethodId} (declared : m ∈ a.methods) :
    (a.table s).signature (a.method m) = s.signature m := by
  obtain ⟨known, mentioned⟩ := drawn.methods m declared
  unfold SymbolTable.signature
  rw [methodName_table drawn declared, method?_table declared, SymbolTable.method?_eq known]
  have result : ((s.methodRow m).signature.ret.map a.type).map (a.table s).typeName =
      (s.methodRow m).signature.ret.map s.typeName := by
    rw [Option.map_map]
    refine Option.map_congr fun t here => typeName_table (mentioned t ?_)
    exact .tail _ (List.mem_append_right _ (Option.mem_toList.mpr here))
  dsimp only [methodDef]
  rw [result]

end Arrangement

/-! ### Bodies that were read back -/

namespace Image

section Body

variable {a : Arrangement} {s : SymbolTable} (drawn : a.Over s) (complete : a.Complete s) {b : Body}
  (whole : b.Sound s) (mentioned : ∀ t ∈ b.mentions, t ∈ a.mentions)

include drawn complete in
/-- Operands keep their texts. -/
theorem operandText_operand {label : Label → Label} {name name' : Label → String}
    {operand : Operand} (known : operand.Known s) (types : ∀ t ∈ operand.type?, t ∈ a.mentions)
    (labels : ∀ l, operand = .label l → name' (label l) = name l) :
    operandText (a.table s) name' (a.operand label operand) = operandText s name operand := by
  cases operand with
  | label l => exact labels l rfl
  | field f => exact Arrangement.fieldName_table drawn (complete.fields f known)
  | method m => exact Arrangement.methodName_table drawn (complete.methods m known)
  | type t => exact Arrangement.typeName_table (types t rfl)
  | none | int | text | arg | slot => rfl

include mentioned in
/-- Regions keep their lines. -/
theorem regionLine_region {r : Region} (member : r ∈ b.regions) (size i : Nat) :
    regionLine (a.table s) size i (a.region r) = regionLine s size i r := by
  have caught : ∀ t ∈ r.caught?, t ∈ a.mentions := fun t here =>
    mentioned t (List.mem_append_right _ (List.mem_filterMap.mpr ⟨r, member, here⟩))
  unfold regionLine
  cases kind : r.kind with
  | finalizing =>
      simp only [Arrangement.region, Arrangement.kind, kind]
      rfl
  | catching t =>
      have name : (a.table s).typeName (a.type t) = s.typeName t :=
        Arrangement.typeName_table (caught t (by rw [Region.caught?, kind]; rfl))
      simp only [Arrangement.region, Arrangement.kind, kind, name]
      rfl

include drawn complete whole mentioned

/-- Instructions keep their texts. -/
theorem instructionText_instruction (ascend : b.NamesAscend) {ins : Instruction}
    (member : ins ∈ b.code) :
    instructionText (a.table s) (labelName (rankedLabels (a.body b).code))
      (a.instruction b.code ins) = instructionText s (labelName (rankedLabels b.code)) ins := by
  have text : operandText (a.table s) (labelName (rankedLabels (a.body b).code))
      (a.operand (Code.relabel b.code) ins.operand) =
        operandText s (labelName (rankedLabels b.code)) ins.operand := by
    refine operandText_operand drawn complete (whole.known ins member) (fun t here => ?_)
      fun l shape => ?_
    · exact mentioned t (List.mem_append_left _ (List.mem_append_right _
        (List.mem_filterMap.mpr ⟨ins, member, here⟩)))
    · have target : ins.target? = some l := by rw [Instruction.target?, shape]
      exact ascend.labelName_eq whole.attached a ((whole.used l).mpr ⟨ins, member, target⟩)
  unfold instructionText
  cases shape : ins.operand with
  | none => simp only [Arrangement.instruction, Arrangement.operand, shape]
  | int | text | arg | slot | label | field | method | type =>
      rw [shape] at text
      simp only [Arrangement.instruction, Arrangement.operand, shape] at text ⊢
      rw [text]

/-- A body that was read back prints as before. -/
theorem bodyLines_body (ascend : b.NamesAscend) :
    bodyLines (a.table s) (a.body b) = bodyLines s b := by
  have header : (a.table s).signature (a.body b).method = s.signature b.method :=
    Arrangement.signature_table drawn (complete.methods _ whole.method)
  have locals : (a.body b).locals.map (a.table s).typeName = b.locals.map s.typeName :=
    Arrangement.typeNames_table fun t member =>
      mentioned t (List.mem_append_left _ (List.mem_append_left _ member))
  have empty : (a.body b).locals.isEmpty = b.locals.isEmpty := List.isEmpty_map
  have size : (a.body b).size = b.size := List.length_map _
  have code : (a.body b).code.zipIdx.flatMap (fun row =>
      (markersAt (a.body b) (rankedLabels (a.body b).code) row.2 row.1).map (· ++ ":") ++
        ["  " ++ instructionText (a.table s) (labelName (rankedLabels (a.body b).code)) row.1]) =
      b.code.zipIdx.flatMap fun row =>
        (markersAt b (rankedLabels b.code) row.2 row.1).map (· ++ ":") ++
          ["  " ++ instructionText s (labelName (rankedLabels b.code)) row.1] := by
    show (b.code.map (a.instruction b.code)).zipIdx.flatMap _ = _
    rw [List.zipIdx_map, List.flatMap_map]
    refine List.flatMap_congr fun row here => ?_
    have member := List.mem_of_getElem? (List.mem_zipIdx_iff_getElem?.mp here)
    simp only [Prod.map, ascend.markersAt_eq whole.attached a member,
      instructionText_instruction drawn complete whole mentioned ascend member, id]
  have regions : (a.body b).regions.zipIdx.map (fun row =>
      regionLine (a.table s) (a.body b).size row.2 row.1) =
        b.regions.zipIdx.map fun row => regionLine s b.size row.2 row.1 := by
    show (b.regions.map a.region).zipIdx.map _ = _
    rw [List.zipIdx_map, List.map_map, size]
    refine List.map_congr_left fun row here => ?_
    have member := List.mem_of_getElem? (List.mem_zipIdx_iff_getElem?.mp here)
    exact regionLine_region mentioned member b.size row.2
  have front : (if (a.body b).locals.isEmpty then []
      else ["  .locals " ++ String.intercalate " " ((a.body b).locals.map (a.table s).typeName)]) =
        if b.locals.isEmpty then []
        else ["  .locals " ++ String.intercalate " " (b.locals.map s.typeName)] := by
    rw [empty, locals]
  exact congrArg₂ List.cons (congrArg (".method " ++ ·) header)
    (congrArg (· ++ [".end"]) (congrArg₂ (· ++ ·) (congrArg₂ (· ++ ·) front code) regions))

end Body

end Image

end HookSplice
