import HookSplice.Proofs.ReadBodies
import HookSplice.Proofs.SymbolHistory

/-!
# Spellings that find their symbols again

A lookup by a spelling drops the blanks of a method identity, and cuts a field path at its last
double colon, while symbols are declared under their names as they were written.  In a table that
was read from an image a method is found by its printed identity exactly when no name in it holds a
blank, and a field by its printed path exactly when its own name shows no double colon behind the
one in front of it.
-/

namespace HookSplice

open Text (Solid Trimmed isBlank)

/-! ### Cutting at the last double colon -/

namespace Text

/-- Nothing is cut exactly when there is no double colon. -/
theorem splitLastColons_eq_none_iff {text : List Char} :
    splitLastColons text = none ↔ ¬ [':', ':'] <:+: text := by
  constructor
  · rintro uncut ⟨before, after, rfl⟩
    have cut : splitLastColons (':' :: ':' :: after) ≠ none := by
      cases later : splitLastColons (':' :: after) with
      | none => exact splitLastColons_here later ▸ nofun
      | some parts => exact splitLastColons_cons later ▸ nofun
    rw [List.append_assoc] at uncut
    induction before with
    | nil => exact cut uncut
    | cons c rest ih =>
        refine ih ?_
        cases later : splitLastColons (rest ++ ([':', ':'] ++ after)) with
        | none => rfl
        | some parts =>
            rw [List.cons_append, splitLastColons_cons later] at uncut
            cases uncut
  · intro absent
    cases cut : splitLastColons text with
    | none => rfl
    | some parts => exact absurd ⟨parts.1, parts.2, by simp [splitLastColons_eq_some cut]⟩ absent

theorem length_trim_le (text : List Char) : (trim text).length ≤ text.length := by
  unfold trim trimEnd
  rw [List.length_reverse]
  have first := (List.dropWhile_sublist isBlank (l := text)).length_le
  have second := (List.dropWhile_sublist isBlank (l := (text.dropWhile isBlank).reverse)).length_le
  rw [List.length_reverse] at second
  exact second.trans first

/-- Trimmed texts behind one another are trimmed. -/
theorem Trimmed.join {text text' : List Char} (trimmed : Trimmed text) (trimmed' : Trimmed text') :
    Trimmed (text ++ text') := by
  constructor
  · intro c first
    rw [List.head?_append] at first
    cases here : text.head? with
    | some d =>
        rw [here] at first
        exact trimmed.1 c (here ▸ first)
    | none =>
        rw [here] at first
        exact trimmed'.1 c first
  · intro c last
    rw [List.getLast?_append] at last
    cases here : text'.getLast? with
    | some d =>
        rw [here] at last
        exact trimmed'.2 c (here ▸ last)
    | none =>
        rw [here] at last
        exact trimmed.2 c last

end Text

/-! ### Lookups by printed names -/

namespace SymbolTable

variable {s s' : SymbolTable}

/-- A method is found by its printed identity exactly when no name in it holds a blank. -/
theorem Sound.methodId?_methodName (sound : s.Sound) {m : MethodId} (known : s.hasMethod m) :
    s.methodId? (s.methodName m) = some m ↔ s.Unspaced (s.methodRow m).signature := by
  have key := sound.key_eq known
  have row : s.methodOfKey? (s.methodRow m).key = some m :=
    sound.mirrored.methods.mpr ⟨_, method?_eq known, key.symm⟩
  rw [methodId?, sound.filter_methodName known, ← solid_identity_iff, ← key]
  constructor
  · intro found
    obtain ⟨signature, declared, spelled⟩ := sound.mirrored.methods.mp found
    rw [method?_eq known, Option.some.injEq] at declared
    rw [← declared, ← key] at spelled
    intro c member
    rw [spelled, String.toList_ofList] at member
    simpa using (List.mem_filter.mp member).2
  · intro solid
    have whole : (s.methodRow m).key.toList.filter (fun c => !isBlank c) =
        (s.methodRow m).key.toList :=
      List.filter_eq_self.mpr fun c member => by rw [solid c member]; rfl
    rw [whole, String.ofList_toList]
    exact row

/-- A field is found by its printed path exactly when the path is cut in front of its name. -/
theorem Sound.fieldId?_fieldName (sound : s.Sound) {f : FieldId} (known : s.hasField f)
    (owner : Trimmed (s.typeName (s.fieldRow f).owner).toList)
    (name : Trimmed (s.fieldRow f).name.toList) :
    s.fieldId? (s.fieldName f) = some f ↔
      ¬ [':', ':'] <:+: ':' :: (s.fieldRow f).name.toList := by
  have path := toList_fieldName known
  have whole : Text.trim (s.fieldName f).toList = (s.fieldName f).toList := by
    rw [path]
    exact Text.trim_eq_self (owner.join ((show Solid [':', ':'] by decide).trimmed.join name))
  rw [fieldId?, whole, path, ← Text.splitLastColons_eq_none_iff]
  cases later : Text.splitLastColons (':' :: (s.fieldRow f).name.toList) with
  | none =>
      refine iff_of_true ?_ rfl
      have cut := Text.splitLastColons_append_of_some (Text.splitLastColons_here later)
        (s.typeName (s.fieldRow f).owner).toList
      have ownerFound := sound.mirrored.types.mpr (getElem?_typeName (sound.owner_known known))
      rw [cut, List.append_nil]
      simp only
      rw [Text.trim_eq_self owner, Text.trim_eq_self name, String.ofList_toList,
        String.ofList_toList, ownerFound]
      exact sound.mirrored.fields.mpr ⟨_, field?_eq known, rfl, rfl⟩
  | some parts =>
      obtain ⟨before, after⟩ := parts
      refine iff_of_false (fun found => ?_) nofun
      -- what is left behind the cut is shorter than the name of the field
      have cut := Text.splitLastColons_append_of_some (Text.splitLastColons_cons (c := ':') later)
        (s.typeName (s.fieldRow f).owner).toList
      rw [cut] at found
      simp only at found
      split at found
      · cases found
      obtain ⟨d, declared, -, named⟩ := sound.mirrored.fields.mp found
      rw [field?_eq known, Option.some.injEq] at declared
      have shape := congrArg List.length (Text.splitLastColons_eq_some later)
      have trimmed := Text.length_trim_le after
      rw [← declared] at named
      rw [named, String.toList_ofList, List.length_cons, List.length_append, List.length_cons,
        List.length_cons] at shape
      omega

/-! ### Fields that were read -/

/-- The owners of fields are written without blanks around them, and fields without any blanks. -/
def FieldsWritten (s : SymbolTable) : Prop :=
  ∀ d ∈ s.fields, Trimmed (s.typeName d.owner).toList ∧ Solid d.name.toList

theorem FieldsWritten.grow (written : s.FieldsWritten) (sound : s.Sound) (grown : s.Extends s')
    (same : s'.fields = s.fields) : s'.FieldsWritten := by
  intro d member
  rw [same] at member
  rw [grown.typeName (sound.fields d member).1]
  exact written d member

theorem FieldsWritten.declareField (written : s.FieldsWritten) {d : FieldDef} {f : FieldId}
    (owner : Trimmed (s.typeName d.owner).toList) (name : Solid d.name.toList)
    (success : s.declareField d = .ok (f, s')) : s'.FieldsWritten := by
  rcases declareField_cases success with rfl | ⟨-, rfl⟩
  · exact written
  · intro e member
    rcases List.mem_append.mp member with member | member
    · exact written e member
    · rw [List.mem_singleton.mp member]
      exact ⟨owner, name⟩

theorem declareMethod_fields {m : MethodDef} {id : MethodId}
    (success : s.declareMethod m = .ok (id, s')) : s'.fields = s.fields := by
  rcases declareMethod_cases success with rfl | ⟨-, rfl⟩ <;> rfl

end SymbolTable

namespace Image

variable {symbols symbols' : SymbolTable}

/-- A signature declares no fields. -/
theorem readSignature_fields {text : List Char} {m : MethodId}
    (success : readSignature symbols text = .ok (m, symbols')) :
    symbols'.fields = symbols.fields := by
  obtain ⟨s, d, wide, -, declared⟩ := readSignature_steps success
  exact (SymbolTable.declareMethod_fields declared).trans wide.fields

/-- A field that was read is a word. -/
theorem readField_written (written : symbols.FieldsWritten) (sound : symbols.Sound)
    {owner : TypeId} (known : symbols.hasType owner)
    (trimmed : Trimmed (symbols.typeName owner).toList) {text : List Char}
    (success : readField symbols owner text = .ok symbols') : symbols'.FieldsWritten := by
  obtain ⟨s, type, f, wide, -, -, -, solid, declared⟩ := readField_steps success
  refine (written.grow sound wide.grown wide.fields).declareField ?_ ?_ declared
  · rw [wide.grown.typeName known]
    exact trimmed
  · intro c member
    rw [String.toList_ofList] at member
    exact solid c member

/-- The class that is open is written without blanks around it. -/
def Open.Written (symbols : SymbolTable) : Open → Prop
  | .members _ owner => Trimmed (symbols.typeName owner).toList
  | _ => True

/-- The fields read so far, and the class that is open, are written as they will be looked for. -/
structure Outline.Written (o : Outline) : Prop where
  fields : o.symbols.FieldsWritten
  state : o.state.Written o.symbols

theorem Outline.Written.grow {o : Outline} (written : o.Written) (proper : o.Proper)
    (grown : o.symbols.Extends symbols') (same : symbols'.fields = o.symbols.fields)
    {state : Open} (open_ : state.Written symbols') :
    Outline.Written ⟨symbols', o.pending, state⟩ :=
  ⟨written.fields.grow proper.symbols.sound grown same, open_⟩

theorem readLine_written {o o' : Outline} {line : Line} (proper : o.Proper) (written : o.Written)
    (success : readLine o line = .ok o') : o'.Written := by
  have known := proper.state
  have open_ := written.state
  cases readLine_step success with
  | openClass present =>
      refine written.grow proper (SymbolTable.internType_extends _ _).1
        (SymbolTable.internType_fields _ _) ?_
      show Trimmed _
      rw [(SymbolTable.internType_known _ _).2, String.toList_ofList]
      exact Text.trimmed_trim _
  | declareMethod read =>
      exact written.grow proper (readSignature_eq_ok proper.symbols read).2.1
        (readSignature_fields read) trivial
  | openMethod read first =>
      exact written.grow proper (readSignature_eq_ok proper.symbols read).2.1
        (readSignature_fields read) trivial
  | declareField read =>
      refine ⟨readField_written written.fields proper.symbols.sound known open_ read, ?_⟩
      show Trimmed _
      rw [(readField_eq_ok proper.symbols known read).2.typeName known]
      exact open_
  | closeClass => exact ⟨written.fields, trivial⟩
  | bodyLine => exact ⟨written.fields, trivial⟩
  | closeMethod => exact ⟨written.fields, trivial⟩

theorem readLines_written {lines : List Line} {o o' : Outline} (proper : o.Proper)
    (written : o.Written) (success : lines.foldlM readLine o = .ok o') : o'.Written := by
  refine (Except.foldlM_induction (P := fun next => next.Proper ∧ next.Written)
    (fun state read => ?_) ⟨proper, written⟩ success).2
  exact ⟨readLine_proper state.1 read, readLine_written state.1 state.2 read⟩

theorem readOutline_written {lines : List Line} {pending : List PendingBody}
    (success : readOutline lines = .ok (symbols, pending)) : symbols.FieldsWritten := by
  have start : Outline.Written ⟨.empty, [], .directive⟩ :=
    ⟨fun _ member => absurd member List.not_mem_nil, trivial⟩
  exact (readLines_written Outline.proper_empty start (readOutline_eq_ok success)).fields

theorem read_fieldsWritten {image : String} {h : Host} (success : read image = .ok h) :
    h.symbols.FieldsWritten := by
  obtain ⟨symbols, pending, outline, bodies⟩ := read_eq_ok success
  obtain ⟨proper, known⟩ := readOutline_proper outline
  have wide := readBodies_widens (h := .ofSymbols symbols) known bodies
  exact (readOutline_written outline).grow proper.sound wide.grown wide.fields

/-- In a table that was read from an image a method is found by its printed identity exactly when
    no name in the identity holds a blank, and a field by its printed path exactly when the path is
    cut in front of the field's name. -/
theorem read_spellings {image : String} {h : Host} (success : read image = .ok h) :
    (∀ m, h.symbols.hasMethod m → (h.symbols.methodId? (h.symbols.methodName m) = some m ↔
      h.symbols.Unspaced (h.symbols.methodRow m).signature)) ∧
    ∀ f, h.symbols.hasField f → (h.symbols.fieldId? (h.symbols.fieldName f) = some f ↔
      ¬ [':', ':'] <:+: ':' :: (h.symbols.fieldRow f).name.toList) := by
  have sound := (read_sound success).symbols
  refine ⟨fun m known => sound.methodId?_methodName known, fun f known => ?_⟩
  obtain ⟨owner, name⟩ := read_fieldsWritten success _ (SymbolTable.fieldRow_mem known)
  exact sound.fieldId?_fieldName known owner name.trimmed

/-- A class with a field, and a method of it. -/
def bellImage : String :=
  ".class Bell\n  .field int rung\n.end\n\n.extern static int Bell::ring(int, Bell)\n"

/-- The host that the image of the bell gives. -/
def bellHost : Host :=
  .ofSymbols {
    typeNames := ["Bell", "int"]
    fields := [⟨⟨0⟩, "rung", ⟨1⟩, false⟩]
    methods := [⟨⟨⟨0⟩, "ring", [⟨1⟩, ⟨0⟩], some ⟨1⟩, true⟩, "Bell::ring(int,Bell)"⟩] }

theorem bellHost_spellings : read bellImage = .ok bellHost ∧
    bellHost.symbols.methodId? (bellHost.symbols.methodName ⟨0⟩) = some ⟨0⟩ ∧
    bellHost.symbols.fieldId? (bellHost.symbols.fieldName ⟨0⟩) = some ⟨0⟩ := by
  have success : read bellImage = .ok bellHost := by rfl
  obtain ⟨methods, fields⟩ := read_spellings success
  exact ⟨success, (methods ⟨0⟩ (by decide)).mpr (by decide), (fields ⟨0⟩ (by decide)).mpr (by decide)⟩

/-- A field whose name holds a double colon, and a method of a class whose name holds a blank. -/
def spacedImage : String :=
  ".class A\n  .field int a::b\n.end\n\n.extern static void A B::f()\n"

/-- The host that this image gives. -/
def spacedHost : Host :=
  .ofSymbols {
    typeNames := ["A", "int", "A B"]
    fields := [⟨⟨0⟩, "a::b", ⟨1⟩, false⟩]
    methods := [⟨⟨⟨2⟩, "f", [], none, true⟩, "A B::f()"⟩] }

/-- The reader takes symbols that their printed names do not find. -/
theorem spacedHost_unnamed : read spacedImage = .ok spacedHost ∧
    spacedHost.symbols.hasMethod ⟨0⟩ ∧
    spacedHost.symbols.methodId? (spacedHost.symbols.methodName ⟨0⟩) = none ∧
    spacedHost.symbols.hasField ⟨0⟩ ∧
    spacedHost.symbols.fieldId? (spacedHost.symbols.fieldName ⟨0⟩) = none :=
  ⟨rfl, by decide, by decide, by decide, by decide⟩

end Image

end HookSplice
