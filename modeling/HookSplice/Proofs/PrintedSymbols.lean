import HookSplice.Image.Reader
import HookSplice.Proofs.Arrangement
import HookSplice.Proofs.PrintedLines

/-!
# Symbols that were printed

The spelling of a field or a method finds it again in every table that declares it, and the
declaration of a member that was printed declares that member.  Names have to be plain for this:
nothing in a printed image sets a name apart from the punctuation around it.
-/

namespace HookSplice

open Text (Solid Trimmed)

namespace SymbolTable

/-- All names consist of plain characters. -/
structure Plain (s : SymbolTable) : Prop where
  types : ∀ name ∈ s.typeNames, Text.Plain name.toList
  fields : ∀ d ∈ s.fields, Text.Plain d.name.toList
  methods : ∀ e ∈ s.methods, Text.Plain e.signature.name.toList

/-- No name is empty, and none of the words of the image language stands where it would be read as
    one: `static` in front of a member, `void` in place of a type that is returned. -/
structure Legible (s : SymbolTable) : Prop where
  types : ∀ name ∈ s.typeNames, name ≠ ""
  fields : ∀ d ∈ s.fields, d.name ≠ "" ∧ (d.isStatic = false → s.typeName d.type ≠ "static")
  methods : ∀ e ∈ s.methods, e.signature.name ≠ "" ∧ ∀ t ∈ e.signature.ret,
    s.typeName t ≠ "void" ∧ (e.signature.isStatic = false → s.typeName t ≠ "static")

/-- No type has the empty name. -/
def TypesNamed (s : SymbolTable) : Prop :=
  ∀ name ∈ s.typeNames, name ≠ ""

theorem Legible.named {s : SymbolTable} (legible : s.Legible) : s.TypesNamed :=
  legible.types

theorem toList_ne_nil {name : String} (nonempty : name ≠ "") : name.toList ≠ [] := by
  intro same
  exact nonempty (String.toList_inj.mp same)

section Spelling

variable {s : SymbolTable} (plain : s.Plain)
include plain

theorem Plain.type {t : TypeId} (known : s.hasType t) : Text.Plain (s.typeName t).toList :=
  plain.types _ (typeName_mem known)

theorem Plain.field {f : FieldId} (known : s.hasField f) :
    Text.Plain (s.fieldRow f).name.toList :=
  plain.fields _ (fieldRow_mem known)

theorem Plain.method {m : MethodId} (known : s.hasMethod m) :
    Text.Plain (s.methodRow m).signature.name.toList :=
  plain.methods _ (methodRow_mem known)

end Spelling

theorem TypesNamed.type {s : SymbolTable} (named : s.TypesNamed) {t : TypeId}
    (known : s.hasType t) : (s.typeName t).toList ≠ [] :=
  toList_ne_nil (named _ (typeName_mem known))

/-- The characters of the path of a field. -/
theorem toList_fieldName {s : SymbolTable} {f : FieldId} (known : s.hasField f) :
    (s.fieldName f).toList = (s.typeName (s.fieldRow f).owner).toList ++
      ':' :: ':' :: (s.fieldRow f).name.toList := by
  rw [fieldName, field?_eq known]
  simp

/-- The names of the parameters of a signature. -/
def paramTexts (s : SymbolTable) (m : MethodDef) : List (List Char) :=
  m.params.map fun t => (s.typeName t).toList

/-- The characters of the identity of a method. -/
theorem toList_identity (s : SymbolTable) (separator : String) (m : MethodDef) :
    (s.identity separator m).toList = (s.typeName m.owner).toList ++ ':' :: ':' :: m.name.toList ++
      '(' :: (separator.toList.intercalate (s.paramTexts m) ++ [')']) := by
  unfold identity paramTexts
  simp only [String.toList_append, String.toList_intercalate, List.map_map, Function.comp_def]
  simp

theorem toList_methodName {s : SymbolTable} {m : MethodId} (known : s.hasMethod m) :
    (s.methodName m).toList = (s.identity ", " (s.methodRow m).signature).toList := by
  rw [methodName, method?_eq known]

/-- The word in front of a member. -/
def staticMark (isStatic : Bool) : List Char :=
  if isStatic then "static ".toList else []

/-- The type that a signature returns, as it is printed. -/
def retText (s : SymbolTable) (m : MethodDef) : List Char :=
  ((m.ret.map s.typeName).getD "void").toList

/-- The characters of the header of a method. -/
theorem toList_signature {s : SymbolTable} {m : MethodId} (known : s.hasMethod m) :
    (s.signature m).toList = staticMark (s.methodRow m).signature.isStatic ++
      (s.retText (s.methodRow m).signature ++
        ' ' :: (s.identity ", " (s.methodRow m).signature).toList) := by
  unfold signature staticMark retText
  rw [method?_eq known]
  simp only [String.toList_append, toList_methodName known, List.append_assoc]
  cases (s.methodRow m).signature.isStatic <;> rfl

/-- The characters of a field in its class. -/
def memberText (s : SymbolTable) (d : FieldDef) : List Char :=
  staticMark d.isStatic ++ ((s.typeName d.type).toList ++ ' ' :: d.name.toList)

end SymbolTable

/-! ### Lookups by spelling -/

theorem filter_intercalate (p : Char → Bool) (separator : List Char) (texts : List (List Char)) :
    (separator.intercalate texts).filter p =
      (separator.filter p).intercalate (texts.map fun text => text.filter p) := by
  induction texts with
  | nil => rfl
  | cons text rest ih =>
      cases rest with
      | nil => rw [List.intercalate_singleton, List.map_singleton, List.intercalate_singleton]
      | cons next more =>
          rw [List.intercalate_cons_cons, List.filter_append, List.filter_append, ih, List.map_cons,
            List.map_cons, List.map_cons, List.intercalate_cons_cons]

theorem solid_append_iff {text text' : List Char} :
    Solid (text ++ text') ↔ Solid text ∧ Solid text' := by
  unfold Solid
  simp only [List.mem_append, or_imp, forall_and]

theorem solid_intercalate_iff {mark : Char} (solid : Text.isBlank mark = false)
    {texts : List (List Char)} :
    Solid ([mark].intercalate texts) ↔ ∀ text ∈ texts, Solid text := by
  induction texts with
  | nil => exact iff_of_true (fun c member => by cases member) fun text member => by cases member
  | cons text rest ih =>
      have marked : Solid [mark] := fun c member => List.mem_singleton.mp member ▸ solid
      rw [List.forall_mem_cons, ← ih]
      cases rest with
      | nil =>
          rw [List.intercalate_singleton, List.intercalate_nil]
          exact (and_iff_left nofun).symm
      | cons next more =>
          rw [List.intercalate_cons_cons, solid_append_iff, solid_append_iff, and_iff_left marked]

namespace SymbolTable

variable {s : SymbolTable}

/-- No name in the identity of the method holds a blank. -/
def Unspaced (s : SymbolTable) (m : MethodDef) : Prop :=
  Solid (s.typeName m.owner).toList ∧ Solid m.name.toList ∧
    ∀ t ∈ m.params, Solid (s.typeName t).toList

instance (s : SymbolTable) (m : MethodDef) : Decidable (s.Unspaced m) :=
  inferInstanceAs (Decidable (_ ∧ _))

/-- The punctuation of a key adds no blanks to its names. -/
theorem solid_identity_iff {m : MethodDef} : Solid (s.identity "," m).toList ↔ s.Unspaced m := by
  have cut (mark : Char) (text : List Char) (solid : Text.isBlank mark = false) :
      Solid (mark :: text) ↔ Solid text :=
    ⟨fun all c member => all c (.tail _ member), fun rest c member =>
      (List.mem_cons.mp member).elim (fun equal => equal ▸ solid) (rest c)⟩
  have params : Solid (",".toList.intercalate (s.paramTexts m)) ↔
      ∀ t ∈ m.params, Solid (s.typeName t).toList :=
    (solid_intercalate_iff (by decide)).trans List.forall_mem_map
  rw [toList_identity, solid_append_iff, solid_append_iff, cut '(' _ (by decide),
    solid_append_iff, and_iff_left (show Solid [')'] by decide), cut ':' _ (by decide),
    cut ':' _ (by decide), params, and_assoc]
  rfl

namespace Sound

variable (sound : s.Sound)
include sound

/-- The identity of a method and its key differ in blanks only. -/
theorem filter_methodName {m : MethodId} (known : s.hasMethod m) :
    ((s.methodName m).toList.filter fun c => !Text.isBlank c) =
      (s.methodRow m).key.toList.filter fun c => !Text.isBlank c := by
  have listed (texts : List (List Char)) :
      (", ".toList.intercalate texts).filter (fun c => !Text.isBlank c) =
        (",".toList.intercalate texts).filter fun c => !Text.isBlank c := by
    rw [filter_intercalate, filter_intercalate]
    rfl
  rw [sound.key_eq known, toList_methodName known, toList_identity, toList_identity]
  simp only [List.filter_append, List.filter_cons, listed]

variable (plain : s.Plain)
include plain

/-- The identity of a method without its blanks is the key of the method. -/
theorem key_of_methodName {m : MethodId} (known : s.hasMethod m) :
    String.ofList ((s.methodName m).toList.filter fun c => !Text.isBlank c) =
      (s.methodRow m).key := by
  have types := sound.signature_known known
  have solid : Solid (s.methodRow m).key.toList := by
    rw [sound.key_eq known, solid_identity_iff]
    exact ⟨(plain.type (types _ (List.mem_cons_self ..))).solid, (plain.method known).solid,
      fun t member => (plain.type (types t (.tail _ (List.mem_append_left _ member)))).solid⟩
  have whole : (s.methodRow m).key.toList.filter (fun c => !Text.isBlank c) =
      (s.methodRow m).key.toList :=
    List.filter_eq_self.mpr fun c member => by rw [solid c member]; rfl
  rw [sound.filter_methodName known, whole, String.ofList_toList]

/-- Methods have identities of their own. -/
theorem methodName_inj {m n : MethodId} (known : s.hasMethod m) (known' : s.hasMethod n)
    (same : s.methodName m = s.methodName n) : m = n :=
  sound.method_ext known known' <| by
    rw [← sound.key_of_methodName plain known, ← sound.key_of_methodName plain known', same]

end Sound

end SymbolTable

namespace Arrangement

open SymbolTable

variable {a : Arrangement} {s : SymbolTable} (drawn : a.Over s) (sound : s.Sound)
include drawn sound

/-- A declared field is found by its path. -/
theorem fieldId?_table (plain : s.Plain) {f : FieldId} (declared : f ∈ a.fields) :
    (a.table s).fieldId? (s.fieldName f) = some (a.field f) := by
  obtain ⟨known, ownerMentioned, -⟩ := drawn.fields f declared
  have owner := plain.type (sound.owner_known known)
  have name := plain.field known
  have solid : Solid (s.fieldName f).toList := by
    rw [toList_fieldName known]
    exact owner.solid.append (Solid.append (show Solid [':', ':'] by decide) name.solid)
  have found : (a.table s).fieldOf? (a.type (s.fieldRow f).owner) (s.fieldRow f).name =
      some (a.field f) := by
    have only : ∀ g ∈ a.fields, (a.type (s.fieldRow g).owner == a.type (s.fieldRow f).owner &&
        (s.fieldRow g).name == (s.fieldRow f).name) = true ↔ g = f := by
      intro g member
      obtain ⟨knownG, mentionedG, -⟩ := drawn.fields g member
      rw [Bool.and_eq_true, beq_iff_eq, beq_iff_eq]
      constructor
      · rintro ⟨owned, named⟩
        exact sound.field_ext knownG known (type_inj mentionedG owned) named
      · rintro rfl
        exact ⟨rfl, rfl⟩
    unfold SymbolTable.fieldOf? table
    rw [List.findIdx?_map]
    show Option.map FieldId.mk (a.fields.findIdx? fun g =>
      a.type (s.fieldRow g).owner == a.type (s.fieldRow f).owner &&
        (s.fieldRow g).name == (s.fieldRow f).name) = _
    rw [findIdx?_unique only, if_pos declared]
    rfl
  unfold SymbolTable.fieldId?
  rw [Text.trim_eq_self solid.trimmed, toList_fieldName known,
    Text.splitLastColons_append _ (name.not_mem (by decide))]
  simp only
  rw [Text.trim_eq_self owner.solid.trimmed, Text.trim_eq_self name.solid.trimmed,
    String.ofList_toList, String.ofList_toList, typeId?_table drawn sound (sound.owner_known known),
    if_pos ownerMentioned]
  exact found

/-- A declared method is found by its identity. -/
theorem methodId?_table (plain : s.Plain) {m : MethodId} (declared : m ∈ a.methods) :
    (a.table s).methodId? (s.methodName m) = some (a.method m) := by
  have known := (drawn.methods m declared).1
  have only : ∀ n ∈ a.methods, ((s.methodRow n).key == (s.methodRow m).key) = true ↔ n = m := by
    intro n member
    rw [beq_iff_eq]
    exact ⟨sound.method_ext (drawn.methods n member).1 known, fun same => by rw [same]⟩
  unfold SymbolTable.methodId?
  rw [sound.key_of_methodName plain known]
  unfold SymbolTable.methodOfKey? table
  rw [List.findIdx?_map]
  show Option.map MethodId.mk (a.methods.findIdx? fun n =>
    (s.methodRow n).key == (s.methodRow m).key) = _
  rw [findIdx?_unique only, if_pos declared]
  rfl

end Arrangement

/-! ### Declarations -/

namespace Image

open SymbolTable

/-- What a signature returns is printed as a word, which tells whether it is a type. -/
structure RetWord (s : SymbolTable) (m : MethodDef) (word : List Char) : Prop where
  plain : Text.Plain word
  nonempty : word ≠ []
  unmarked : m.isStatic = false → word ≠ "static".toList
  void : word = "void".toList ↔ m.ret = none

theorem word_retText {s : SymbolTable} (plain : s.Plain) (named : s.TypesNamed) {m : MethodDef}
    (known : ∀ t ∈ m.types, s.hasType t) : Text.Plain (s.retText m) ∧ s.retText m ≠ [] := by
  unfold retText
  cases returned : m.ret with
  | none =>
      show Text.Plain "void".toList ∧ "void".toList ≠ []
      decide
  | some t =>
      have declared : s.hasType t := known t
        (.tail _ (List.mem_append_right _ (by simp [returned])))
      exact ⟨plain.type declared, named.type declared⟩

theorem retWord_retText {s : SymbolTable} (plain : s.Plain) (named : s.TypesNamed) {m : MethodDef}
    (known : ∀ t ∈ m.types, s.hasType t)
    (returns : ∀ t ∈ m.ret, s.typeName t ≠ "void" ∧
      (m.isStatic = false → s.typeName t ≠ "static")) :
    RetWord s m (s.retText m) := by
  obtain ⟨plainly, nonempty⟩ := word_retText plain named known
  cases returned : m.ret with
  | none =>
      have word : s.retText m = "void".toList := by rw [retText, returned]; rfl
      exact ⟨plainly, nonempty, fun _ => by rw [word]; decide, iff_of_true word returned⟩
  | some t =>
      obtain ⟨void, unmarked⟩ := returns t returned
      have word : s.retText m = (s.typeName t).toList := by rw [retText, returned]; rfl
      refine ⟨plainly, nonempty, fun marked same => ?_, iff_of_false (fun same => ?_) ?_⟩
      · exact unmarked marked (String.toList_inj.mp (word.symm.trans same))
      · exact void (String.toList_inj.mp (word.symm.trans same))
      · rw [returned]
        nofun

theorem trimmed_mark {isStatic : Bool} {text : List Char} (trimmed : Trimmed text)
    (nonempty : text ≠ []) : Trimmed (staticMark isStatic ++ text) := by
  cases isStatic with
  | true =>
      have solid : Solid "static".toList := by decide
      exact Trimmed.append solid (by decide) [' '] trimmed nonempty
  | false => exact trimmed

theorem trimmed_words {word rest : List Char} (solid : Solid word) (nonempty : word ≠ [])
    (trimmed : Trimmed rest) (nonempty' : rest ≠ []) : Trimmed (word ++ ' ' :: rest) := by
  have whole := Trimmed.append solid nonempty [' '] trimmed nonempty'
  rwa [List.append_assoc, List.singleton_append] at whole

/-- A word behind the mark of a member is told apart from the mark. -/
theorem stripStatic_mark {isStatic : Bool} {word rest : List Char} (solid : Solid word)
    (nonempty : word ≠ []) (other : isStatic = false → word ≠ "static".toList)
    (trimmed : Trimmed rest) (nonempty' : rest ≠ []) :
    stripStatic (staticMark isStatic ++ (word ++ ' ' :: rest)) =
      (isStatic, word ++ ' ' :: rest) := by
  have behind := trimmed_words solid nonempty trimmed nonempty'
  cases isStatic with
  | true =>
      have mark : staticMark true ++ (word ++ ' ' :: rest) =
          "static".toList ++ ' ' :: (word ++ ' ' :: rest) := rfl
      unfold stripStatic
      rw [mark, Text.splitFirst_append (by decide) behind]
      rfl
  | false =>
      unfold stripStatic
      rw [staticMark, if_neg Bool.false_ne_true, List.nil_append,
        Text.splitFirst_append solid trimmed]
      exact if_neg (other rfl)

/-- The identity of a method comes apart into owner, name and parameters. -/
theorem splitIdentity_toList {s : SymbolTable} (plain : s.Plain) (legible : s.Legible)
    {m : MethodDef} (known : ∀ t ∈ m.types, s.hasType t) (name : Text.Plain m.name.toList)
    (named : m.name ≠ "") :
    splitIdentity (s.identity ", " m).toList =
      .ok ((s.typeName m.owner).toList, m.name.toList, s.paramTexts m) := by
  have owner := plain.type (known m.owner (List.mem_cons_self ..))
  have param : ∀ text ∈ s.paramTexts m, Text.Plain text ∧ text ≠ [] := by
    intro text member
    obtain ⟨t, here, rfl⟩ := List.mem_map.mp member
    have declared := known t (.tail _ (List.mem_append_left _ here))
    exact ⟨plain.type declared, legible.named.type declared⟩
  have path : '(' ∉ (s.typeName m.owner).toList ++ ':' :: ':' :: m.name.toList := by
    rw [List.mem_append, List.mem_cons, List.mem_cons, not_or, not_or, not_or]
    exact ⟨owner.not_mem (by decide), by decide, by decide, name.not_mem (by decide)⟩
  unfold splitIdentity
  rw [toList_identity, Text.splitAtFirst_append path]
  simp only
  rw [Text.dropLast?_append]
  simp only
  rw [Text.splitLastColons_append _ (name.not_mem (by decide))]
  simp only
  rw [if_neg (by simp [legible.types _ (typeName_mem (known m.owner (List.mem_cons_self ..))),
    named])]
  have listed := Text.listed_intercalate
    (fun text member => show ',' ∉ text from (param text member).1.not_mem (by decide))
    (fun text member => (param text member).1.solid.trimmed)
    (fun text member => (param text member).2)
  exact congrArg
    (fun params => Except.ok ((s.typeName m.owner).toList, m.name.toList, params)) listed

theorem trimmed_identity {s : SymbolTable} (plain : s.Plain) (named : s.TypesNamed) {m : MethodDef}
    (known : ∀ t ∈ m.types, s.hasType t) (separator : String) :
    Trimmed (s.identity separator m).toList ∧ (s.identity separator m).toList ≠ [] := by
  have owner := known m.owner (List.mem_cons_self ..)
  have closing : Trimmed [')'] := Solid.trimmed (by decide)
  have joined : (s.identity separator m).toList = (s.typeName m.owner).toList ++
      (':' :: ':' :: m.name.toList ++ '(' :: separator.toList.intercalate (s.paramTexts m)) ++
        [')'] := by
    rw [toList_identity]
    simp
  rw [joined]
  exact ⟨Trimmed.append (plain.type owner).solid (named.type owner) _ closing
    (List.cons_ne_nil _ _), by simp⟩

section Reading

variable {a : Arrangement} {s : SymbolTable} (drawn : a.Over s) (sound : s.Sound) (plain : s.Plain)
  (legible : s.Legible)

include drawn sound in
/-- The type that a signature returns is interned, unless there is none. -/
theorem internRet_table {m : MethodDef} (known : ∀ t ∈ m.types, s.hasType t)
    (ret : RetWord s m (s.retText m)) :
    (if s.retText m = "void".toList then ((none : Option TypeId), a.table s)
      else (some ((a.table s).internType (String.ofList (s.retText m))).1,
        ((a.table s).internType (String.ofList (s.retText m))).2)) =
      (m.ret.map (a.mention m.ret.toList).type, (a.mention m.ret.toList).table s) := by
  cases returned : m.ret with
  | none =>
      rw [if_pos (ret.void.mpr returned), Arrangement.mention, Option.toList_none, List.append_nil]
      rfl
  | some t =>
      have declared : s.hasType t := known t
        (.tail _ (List.mem_append_right _ (by simp [returned])))
      have word : String.ofList (s.retText m) = s.typeName t := by
        rw [retText, returned]
        exact String.ofList_toList
      have present : s.retText m ≠ "void".toList := fun void => by
        have absent := ret.void.mp void
        rw [returned] at absent
        cases absent
      rw [if_neg present, word, Arrangement.internType_table drawn sound declared]
      rfl

include drawn sound plain legible

/-- The printed signature of a method declares it, behind the types that it mentions. -/
theorem readSignature_table {m : MethodId} (known : s.hasMethod m) (new : m ∉ a.methods) :
    readSignature (a.table s) (s.signature m).toList =
      .ok ((a.withMethod m).method m,
        ((a.mention (s.methodRow m).signature.types).withMethod m).table s) := by
  obtain ⟨named, returns⟩ := legible.methods _ (methodRow_mem known)
  have types := sound.signature_known known
  have name := plain.method known
  have key := sound.key_eq known
  generalize signed : (s.methodRow m).signature = signature at types named returns name key ⊢
  have owner := types signature.owner (List.mem_cons_self ..)
  have params : ∀ t ∈ signature.params, s.hasType t := fun t member =>
    types t (.tail _ (List.mem_append_left _ member))
  obtain ⟨trimmed, nonempty⟩ := trimmed_identity plain legible.named types ", "
  have ret := retWord_retText plain legible.named types returns
  unfold readSignature
  rw [toList_signature known, signed,
    stripStatic_mark ret.plain.solid ret.nonempty ret.unmarked trimmed nonempty]
  simp only
  rw [Text.splitFirst_append ret.plain.solid trimmed]
  simp only
  rw [if_neg (by simp [ret.nonempty, nonempty]),
    splitIdentity_toList plain legible types name named, Except.ok_bind]
  have names : (s.paramTexts signature).map String.ofList = signature.params.map s.typeName := by
    unfold paramTexts
    rw [List.map_map]
    exact List.map_congr_left fun t _ => String.ofList_toList
  have over₁ : (a.mention [signature.owner]).Over s := drawn.mention (by simpa using owner)
  have over₂ := over₁.mention params
  have over₃ := drawn.mention types
  have whole : ((a.mention [signature.owner]).mention signature.params).mention
      signature.ret.toList = a.mention signature.types := by
    rw [Arrangement.mention_mention, Arrangement.mention_mention]
    rfl
  have below := ((a.mention [signature.owner]).mention signature.params).below_mention
    signature.ret.toList
  have ownerStays :=
    (((a.mention [signature.owner]).below_mention signature.params).trans below).type
    (List.mem_append_right _ (List.mem_singleton_self signature.owner))
  have paramsStay : signature.params.map
      ((a.mention [signature.owner]).mention signature.params).type =
      signature.params.map (a.mention signature.types).type :=
    List.map_congr_left fun t member => by
      rw [← whole, below.type (List.mem_append_right _ member)]
  have rets := internRet_table over₂ sound types ret
  rw [whole] at rets ownerStays
  simp only
  rw [String.ofList_toList, String.ofList_toList, names,
    Arrangement.internType_table drawn sound owner]
  simp only
  rw [Arrangement.internTypes_table over₁ sound params]
  simp only
  rw [rets, paramsStay, ← ownerStays]
  have declared := Arrangement.declareMethod_table over₃ sound known new (by
    rw [signed]
    exact fun t member => List.mem_append_right _ member)
  rw [signed] at declared
  exact Except.mapError_eq_ok.mpr declared

/-- The printed form of a field declares it, behind its type. -/
theorem readField_table {f : FieldId} (known : s.hasField f) (new : f ∉ a.fields)
    (owner : (s.fieldRow f).owner ∈ a.mentions) :
    readField (a.table s) (a.type (s.fieldRow f).owner) (s.memberText (s.fieldRow f)) =
      .ok (((a.mention [(s.fieldRow f).type]).withField f).table s) := by
  obtain ⟨named, unmarked⟩ := legible.fields _ (fieldRow_mem known)
  have declared := sound.type_known known
  have type := plain.type declared
  have typed := legible.named.type declared
  have name := plain.field known
  have nameless := toList_ne_nil named
  have drawn' : (a.mention [(s.fieldRow f).type]).Over s := drawn.mention (by simpa using declared)
  have noBlank : (s.fieldRow f).name.toList.any Text.isBlank = false := by
    rw [List.any_eq_false]
    intro c member
    rw [name.solid c member]
    exact Bool.false_ne_true
  have row : (⟨a.type (s.fieldRow f).owner, (s.fieldRow f).name,
      (a.mention [(s.fieldRow f).type]).type (s.fieldRow f).type, (s.fieldRow f).isStatic⟩ :
          FieldDef) =
      (a.mention [(s.fieldRow f).type]).fieldDef (s.fieldRow f) := by
    rw [Arrangement.fieldDef, (a.below_mention _).type owner]
  unfold readField memberText
  rw [stripStatic_mark type.solid typed (fun instance_ same =>
    unmarked instance_ (String.toList_inj.mp same)) name.solid.trimmed nameless]
  simp only
  rw [Text.splitFirst_append type.solid name.solid.trimmed]
  simp only
  rw [if_neg (by simp [typed, nameless, noBlank]), String.ofList_toList, String.ofList_toList,
    Arrangement.internType_table drawn sound declared]
  simp only
  rw [row, Arrangement.declareField_table drawn' sound known new (List.mem_append_left _ owner)]
  rfl

end Reading

end Image

end HookSplice
