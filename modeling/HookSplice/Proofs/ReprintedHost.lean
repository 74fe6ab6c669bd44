import HookSplice.Proofs.ReprintedBody
import HookSplice.Proofs.RoundTrip

/-!
# Hosts that are printed again

A printed host that is read back and printed again gives its classes in the order in which the
first text mentions them; the rest of the text is the same if the bodies print alike.
-/

namespace HookSplice

open Image (bodilessLines bodyLines classLines unlines)

/-! ### Printing in an order -/

/-- The classes that are printed: those with fields. -/
def Host.classes (h : Host) : List TypeId :=
  h.symbols.typeIds.filter fun t => !(h.symbols.fieldsOf t).isEmpty

/-- The classes that are printed, in the order in which the printed image first mentions them. -/
def Host.mentionedClasses (h : Host) : List TypeId :=
  h.arrangement.types.filter fun t => !(h.symbols.fieldsOf t).isEmpty

/-- The canonical text of a host, but for the order of its classes. -/
def Image.printInOrder (h : Host) (order : List TypeId) : String :=
  unlines (order.flatMap (classLines h.symbols) ++ bodilessLines h ++
    h.bodies.toList.flatMap fun body => bodyLines h.symbols body ++ [""])

/-- Classes without fields have no lines. -/
theorem Image.classLines_eq_nil {s : SymbolTable} {t : TypeId}
    (fieldless : (s.fieldsOf t).isEmpty) :
    classLines s t = [] := by
  unfold classLines
  rw [List.isEmpty_iff.mp fieldless]

theorem Image.flatMap_classLines (s : SymbolTable) (ts : List TypeId) :
    (ts.filter fun t => !(s.fieldsOf t).isEmpty).flatMap (classLines s) =
      ts.flatMap (classLines s) := by
  induction ts with
  | nil => rfl
  | cons t rest ih =>
      rw [List.filter_cons, List.flatMap_cons]
      cases fieldless : (s.fieldsOf t).isEmpty with
      | true => rw [classLines_eq_nil fieldless]; exact ih
      | false => exact congrArg _ ih

theorem Image.print_eq (h : Host) : print h = printInOrder h h.classes :=
  congrArg (fun lines => unlines (lines ++ bodilessLines h ++ h.bodies.toList.flatMap _))
    (flatMap_classLines h.symbols h.symbols.typeIds).symm

/-! ### Handles of a reordered table -/

namespace Arrangement

variable {a : Arrangement} {s : SymbolTable}

/-- Places in a list without duplicates count it. -/
theorem map_idxOf {α : Type} [BEq α] [LawfulBEq α] {xs : List α} (distinct : xs.Nodup) :
    xs.map xs.idxOf = List.range xs.length :=
  List.ext_getElem (by simp) fun i below below' => by
    rw [List.getElem_map, List.getElem_range, distinct.idxOf_getElem]

theorem typeIds_table : (a.table s).typeIds = a.types.map a.type := by
  unfold SymbolTable.typeIds
  show (List.range (a.types.map s.typeName).length).map TypeId.mk = _
  have distinct : a.types.Nodup := nodup_eraseDups a.mentions
  rw [List.length_map, ← map_idxOf distinct, List.map_map]
  rfl

theorem methodIds_table (distinct : a.methods.Nodup) :
    (a.table s).methodIds = a.methods.map a.method := by
  unfold SymbolTable.methodIds
  show (List.range (a.methods.map _).length).map MethodId.mk = _
  rw [List.length_map, ← map_idxOf distinct, List.map_map]
  rfl

/-- Classes keep their lines. -/
theorem classLines_table (drawn : a.Over s) (classes : a.fields = s.typeIds.flatMap s.fieldsOf)
    {t : TypeId} (mentioned : t ∈ a.mentions) :
    classLines (a.table s) (a.type t) = classLines s t := by
  have known := drawn.types t mentioned
  have declared {f : FieldId} (member : f ∈ s.fieldsOf t) : f ∈ a.fields := by
    rw [classes]
    exact List.mem_flatMap.mpr ⟨t, SymbolTable.mem_typeIds.mpr known, member⟩
  have members : ((s.fieldsOf t).map a.field).filterMap
      (fun f => ((a.table s).field? f).map fun d =>
        "  .field " ++ (if d.isStatic then "static " else "") ++ (a.table s).typeName d.type ++
          " " ++ d.name) =
      (s.fieldsOf t).filterMap fun f => (s.field? f).map fun d =>
        "  .field " ++ (if d.isStatic then "static " else "") ++ s.typeName d.type ++ " " ++
          d.name := by
    rw [List.filterMap_map]
    refine List.filterMap_congr fun f member => ?_
    have type := (drawn.fields f (declared member)).2.2
    rw [Function.comp_apply, field?_table (declared member),
      SymbolTable.field?_eq (SymbolTable.mem_fieldsOf.mp member).1, Option.map_some,
        Option.map_some]
    have row : ∀ (isStatic : Bool) (name : String),
        "  .field " ++ (if isStatic then "static " else "") ++
          (a.table s).typeName (a.type (s.fieldRow f).type) ++ " " ++ name =
        "  .field " ++ (if isStatic then "static " else "") ++ s.typeName (s.fieldRow f).type ++
          " " ++ name := fun _ _ => by rw [typeName_table type]
    exact congrArg some (row _ _)
  unfold classLines
  rw [fieldsOf_table drawn classes known, typeName_table mentioned]
  cases fields : s.fieldsOf t with
  | nil => rfl
  | cons f rest =>
      rw [fields] at members
      exact congrArg
        (fun members => (".class " ++ s.typeName t) :: (members ++ [".end", ""])) members

end Arrangement

/-! ### The text of a host that was read back -/

namespace Host

section Sound

variable {h : Host} (sound : h.Sound)
include sound

/-- The classes in the two orders are the same. -/
theorem mentionedClasses_perm : h.mentionedClasses.Perm h.classes := by
  have distinct : h.arrangement.types.Nodup := nodup_eraseDups h.arrangement.mentions
  refine (List.perm_ext_iff_of_nodup (distinct.filter _) (h.symbols.nodup_typeIds.filter _)).mpr
    fun t => ?_
  rw [List.mem_filter, List.mem_filter, SymbolTable.mem_typeIds, Arrangement.mem_types,
    mem_mentions sound]
  refine and_congr_left fun fields => ⟨known_of_mentions sound, fun known => Or.inl ?_⟩
  obtain ⟨f, member⟩ := List.exists_mem_of_ne_nil (h.symbols.fieldsOf t) (by simpa using fields)
  obtain ⟨has, owner⟩ := SymbolTable.mem_fieldsOf.mp member
  exact ⟨f, has, Or.inl owner⟩

/-- The methods without a body come first. -/
theorem bodilessLines_reloaded : bodilessLines h.reloaded = bodilessLines h := by
  have drawn := over_arrangement sound
  have none_ : h.declared.filter (fun m => (h.body? m).isNone) = h.missing := by
    have first : h.missing.filter (fun m => (h.body? m).isNone) = h.missing :=
      List.filter_eq_self.mpr fun m member => Option.isNone_iff_eq_none.mpr
        (mem_missing.mp member).2
    have second : (h.bodies.toList.map Body.method).filter (fun m => (h.body? m).isNone) = [] :=
      List.filter_eq_nil_iff.mpr fun m member bodiless =>
        body?_eq_none_iff.mp (Option.isNone_iff_eq_none.mp bodiless) member
    unfold declared
    rw [List.filter_append, first, second, List.append_nil]
  have missing : h.reloaded.missing = h.missing.map h.arrangement.method := by
    show (h.arrangement.table h.symbols).methodIds.filter _ = _
    rw [Arrangement.methodIds_table h.nodup_declared, List.filter_map, ← none_]
    refine congrArg (List.map h.arrangement.method) (List.filter_congr fun m member => ?_)
    rw [Function.comp_apply, body?_reloaded sound ((mem_declared sound).mp member),
      Option.isNone_map]
  have lines : (h.reloaded.missing.map fun m => ".extern " ++ h.reloaded.symbols.signature m) =
      h.missing.map fun m => ".extern " ++ h.symbols.signature m := by
    rw [missing, List.map_map]
    refine List.map_congr_left fun m member => congrArg (".extern " ++ ·) ?_
    exact Arrangement.signature_table drawn
      ((complete_outline sound).methods m (mem_missing.mp member).1)
  rw [Image.bodilessLines_eq, Image.bodilessLines_eq, lines, missing]
  simp only [List.map_eq_nil_iff]

/-- Bodies whose labels keep their order keep their lines. -/
theorem bodyLines_reloaded {b : Body} (member : b ∈ h.bodies) (ascend : b.NamesAscend) :
    bodyLines h.reloaded.symbols (h.arrangement.body b) = bodyLines h.symbols b :=
  Image.bodyLines_body (over_arrangement sound) ((complete_outline sound).mention _)
    (sound.bodies b member)
    (fun _ inside => (mem_mentions sound).mpr (Or.inr (Or.inr ⟨b, member, inside⟩))) ascend

theorem printBody_reloaded {b : Body} (member : b ∈ h.bodies) (ascend : b.NamesAscend) :
    Image.printBody h.reloaded.symbols (h.arrangement.body b) = Image.printBody h.symbols b :=
  congrArg unlines (bodyLines_reloaded sound member ascend)

/-- What is left of a canonical text when it is read back and printed again. -/
theorem print_reloaded (ascend : ∀ b ∈ h.bodies, b.NamesAscend) :
    Image.print h.reloaded = Image.printInOrder h h.mentionedClasses := by
  have drawn := over_arrangement sound
  have classes : h.reloaded.symbols.typeIds.flatMap (classLines h.reloaded.symbols) =
      h.mentionedClasses.flatMap (classLines h.symbols) := by
    unfold mentionedClasses
    rw [Image.flatMap_classLines]
    show (h.arrangement.table h.symbols).typeIds.flatMap _ = _
    rw [Arrangement.typeIds_table, List.flatMap_map]
    exact List.flatMap_congr fun t member =>
      Arrangement.classLines_table drawn rfl (Arrangement.mem_types.mp member)
  have bodies : h.reloaded.bodies.toList.flatMap (fun b => bodyLines h.reloaded.symbols b ++ [""]) =
      h.bodies.toList.flatMap fun b => bodyLines h.symbols b ++ [""] := by
    show (h.bodies.toList.map h.arrangement.body).flatMap _ = _
    rw [List.flatMap_map]
    exact List.flatMap_congr fun b member =>
      congrArg (· ++ [""]) (bodyLines_reloaded sound member (ascend b member))
  unfold Image.print Image.printInOrder
  rw [classes, bodies, bodilessLines_reloaded sound]

end Sound

end Host

end HookSplice
