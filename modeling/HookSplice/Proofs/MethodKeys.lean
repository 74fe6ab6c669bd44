import HookSplice.Proofs.ReadBodies

/-!
# The keys of methods

A method is found by its key, whatever signature stands there.  In a table that was read from an
image, and in one to which the event contract has been added, every key comes apart into the name of
its method and as many parameters as the method takes.  So the handles of an event contract name
methods of the right shape, also where the image has declared them before.
-/

namespace HookSplice

namespace Text

theorem mem_of_mem_trim {c : Char} {text : List Char} (member : c ∈ trim text) : c ∈ text := by
  unfold trim trimEnd at member
  have inside := (List.dropWhile_sublist _).subset (List.mem_reverse.mp member)
  exact (List.dropWhile_sublist _).subset (List.mem_reverse.mp inside)

theorem trimmed_trim (text : List Char) : Trimmed (trim text) := by
  have stops (text : List Char) : ∀ c ∈ (text.dropWhile isBlank).head?, isBlank c = false := by
    intro c first
    have found := List.head?_dropWhile_not isBlank text
    rw [first] at found
    exact found
  constructor
  · intro c first
    -- Taking blanks off at the end leaves the first character where it is.
    obtain ⟨rest, whole⟩ :=
      List.reverse_prefix.mpr (List.dropWhile_suffix isBlank
        (l := (text.dropWhile isBlank).reverse))
    rw [List.reverse_reverse] at whole
    have kept : ((text.dropWhile isBlank).reverse.dropWhile isBlank).reverse.head? = some c := first
    refine stops text c ?_
    rw [← whole, List.head?_append, kept]
    rfl
  · intro c last
    unfold trim trimEnd at last
    rw [List.getLast?_reverse] at last
    exact stops _ c last

theorem splitAtFirst_eq_some {mark : Char} {text before after : List Char}
    (found : splitAtFirst mark text = some (before, after)) :
    mark ∉ before ∧ text = before ++ mark :: after := by
  induction text generalizing before with
  | nil => cases found
  | cons c rest ih =>
      unfold splitAtFirst at found
      split at found
      · next same =>
          cases found
          exact ⟨List.not_mem_nil, by rw [eq_of_beq same]; rfl⟩
      · next other =>
          obtain ⟨⟨before', after'⟩, later, same⟩ := Option.map_eq_some_iff.mp found
          cases same
          obtain ⟨absent, rfl⟩ := ih later
          refine ⟨?_, rfl⟩
          rw [List.mem_cons, not_or]
          exact ⟨fun equal => other (beq_iff_eq.mpr equal.symm), absent⟩

theorem splitLastColons_eq_some {text before after : List Char}
    (found : splitLastColons text = some (before, after)) :
    text = before ++ ':' :: ':' :: after := by
  induction text generalizing before with
  | nil => cases found
  | cons c rest ih =>
      unfold splitLastColons at found
      split at found
      · next later =>
          cases found
          rw [ih later]
          rfl
      · split at found
        · cases found
          rfl
        · cases found

theorem not_mem_of_mem_pieces {cut : Char → Bool} {text piece : List Char}
    (member : piece ∈ pieces cut text) : ∀ c ∈ piece, cut c = false := by
  induction text generalizing piece with
  | nil =>
      obtain rfl := List.mem_singleton.mp member
      exact fun c inside => by cases inside
  | cons c rest ih =>
      unfold pieces at member
      split at member
      · rcases List.mem_cons.mp member with rfl | later
        · exact fun c inside => by cases inside
        · exact ih later
      · next kept =>
          have single : cut c = false := Bool.eq_false_iff.mpr kept
          split at member
          · obtain rfl := List.mem_singleton.mp member
            intro d inside
            rw [List.mem_singleton.mp inside]
            exact single
          · next first others split =>
              rw [split] at ih
              rcases List.mem_cons.mp member with rfl | later
              · intro d inside
                rcases List.mem_cons.mp inside with rfl | inside
                · exact single
                · exact ih (List.mem_cons_self ..) d inside
              · exact ih (List.mem_cons_of_mem _ later)

end Text

namespace Image

/-- Parameters that are put together again come apart as before. -/
theorem splitParams_intercalate (inner : List Char) :
    splitParams ([','].intercalate (splitParams inner)) = splitParams inner := by
  have part (p : List Char) (member : p ∈ splitParams inner) :
      (∀ c ∈ p, (c == ',') = false) ∧ Text.Trimmed p ∧ p ≠ [] := by
    obtain ⟨listed, some⟩ := List.mem_filter.mp member
    obtain ⟨piece, inPieces, rfl⟩ := List.mem_map.mp listed
    exact ⟨fun c inside => Text.not_mem_of_mem_pieces inPieces c (Text.mem_of_mem_trim inside),
      Text.trimmed_trim piece, by simpa using some⟩
  generalize splitParams inner = params at part
  cases params with
  | nil => rfl
  | cons first others =>
      unfold splitParams
      rw [Text.pieces_intercalate (by decide) (List.cons_ne_nil _ _) fun p member =>
        (part p member).1]
      have trims : (first :: others).map Text.trim = first :: others :=
        (List.map_congr_left fun p member => Text.trim_eq_self (part p member).2.1).trans
          (List.map_id _)
      rw [trims, List.filter_eq_self]
      exact fun p member => by simpa using (part p member).2.2

/-- An identity that is put together again from its parts comes apart as before. -/
theorem splitIdentity_rejoined {identity owner name : List Char} {params : List (List Char)}
    (success : splitIdentity identity = .ok (owner, name, params)) :
    splitIdentity (owner ++ ':' :: ':' :: name ++ '(' :: ([','].intercalate params ++ [')'])) =
      .ok (owner, name, params) := by
  obtain ⟨path, rest, inner, found, -, split, ownerSome, nameSome, rfl⟩ :=
    splitIdentity_steps.mp success
  obtain ⟨absent, -⟩ := Text.splitAtFirst_eq_some found
  rw [← Text.splitLastColons_eq_some split]
  exact splitIdentity_steps.mpr ⟨path, _, _, Text.splitAtFirst_append absent _,
    Text.dropLast?_append ..,
    split, ownerSome, nameSome, (splitParams_intercalate inner).symm⟩

end Image

/-! ### Keys that come apart -/

/-- The key of a method comes apart into some owner, the name of the method, and as many parameters
    as the method has. -/
def MethodEntry.Splits (e : MethodEntry) : Prop :=
  ∃ owner params, Image.splitIdentity e.key.toList = .ok (owner, e.signature.name.toList, params) ∧
    params.length = e.signature.params.length

namespace SymbolTable

/-- Every method is found by a key that comes apart into its name and its parameters. -/
def KeysSplit (s : SymbolTable) : Prop :=
  ∀ e ∈ s.methods, e.Splits

variable {s s' : SymbolTable}

theorem KeysSplit.of_methods_eq (split : s.KeysSplit) (same : s'.methods = s.methods) :
    s'.KeysSplit := by
  intro e member
  rw [same] at member
  exact split e member

theorem declareField_methods {d : FieldDef} {f : FieldId}
    (success : s.declareField d = .ok (f, s')) : s'.methods = s.methods := by
  rcases declareField_cases success with rfl | ⟨-, rfl⟩ <;> rfl

theorem KeysSplit.declareMethod (split : s.KeysSplit) {m : MethodDef} {id : MethodId}
    (new : MethodEntry.Splits ⟨m, s.identity "," m⟩) (success : s.declareMethod m = .ok (id, s')) :
    s'.KeysSplit := by
  rcases declareMethod_cases success with rfl | ⟨-, rfl⟩
  · exact split
  · intro e member
    rcases List.mem_append.mp member with old | added
    · exact split e old
    · rw [List.mem_singleton.mp added]
      exact new

/-- The key of a signature whose owner, name and parameters are the parts of an identity. -/
theorem splits_identity {identity owner : List Char} {params : List (List Char)} {m : MethodDef}
    (split : Image.splitIdentity identity = .ok (owner, m.name.toList, params))
    (ownerName : (s.typeName m.owner).toList = owner) (paramNames : s.paramTexts m = params) :
    MethodEntry.Splits ⟨m, s.identity "," m⟩ := by
  refine ⟨owner, params, ?_, ?_⟩
  · rw [toList_identity, ownerName, paramNames]
    exact Image.splitIdentity_rejoined split
  · rw [← paramNames]
    exact List.length_map _

end SymbolTable

namespace Image

variable {symbols symbols' : SymbolTable}

/-! ### Tables that were read -/

/-- A signature that was read is declared under a key that comes apart. -/
theorem readSignature_keysSplit (split : symbols.KeysSplit) {text : List Char} {m : MethodId}
    (success : readSignature symbols text = .ok (m, symbols')) : symbols'.KeysSplit := by
  obtain ⟨s, d, wide, named, declared⟩ := readSignature_steps success
  exact (split.of_methods_eq wide.methods).declareMethod
    (SymbolTable.splits_identity named.parts rfl rfl) declared

theorem readField_methods {owner : TypeId} {text : List Char}
    (success : readField symbols owner text = .ok symbols') :
    symbols'.methods = symbols.methods := by
  obtain ⟨s, type, f, wide, -, -, -, -, declared⟩ := readField_steps success
  exact (SymbolTable.declareField_methods declared).trans wide.methods

theorem readLine_keysSplit {o o' : Outline} {line : Line} (split : o.symbols.KeysSplit)
    (success : readLine o line = .ok o') : o'.symbols.KeysSplit := by
  cases readLine_step success with
  | openClass present => exact split.of_methods_eq (SymbolTable.internType_methods _ _)
  | declareMethod read => exact readSignature_keysSplit split read
  | openMethod read first => exact readSignature_keysSplit split read
  | declareField read => exact split.of_methods_eq (readField_methods read)
  | closeClass => exact split
  | bodyLine => exact split
  | closeMethod => exact split

theorem readLines_keysSplit {lines : List Line} {o o' : Outline} (split : o.symbols.KeysSplit)
    (success : lines.foldlM readLine o = .ok o') : o'.symbols.KeysSplit :=
  Except.foldlM_induction (P := fun next => next.symbols.KeysSplit) readLine_keysSplit split success

theorem readOutline_keysSplit {lines : List Line} {pending : List PendingBody}
    (success : readOutline lines = .ok (symbols, pending)) : symbols.KeysSplit :=
  readLines_keysSplit (fun _ member => absurd member List.not_mem_nil) (readOutline_eq_ok success)

/-- The table of a host that was read from an image has keys that come apart. -/
theorem read_keysSplit {image : String} {h : Host} (success : read image = .ok h) :
    h.symbols.KeysSplit := by
  obtain ⟨symbols, pending, outline, bodies⟩ := read_eq_ok success
  have wide := readBodies_widens (h := .ofSymbols symbols) (readOutline_proper outline).2 bodies
  exact (readOutline_keysSplit outline).of_methods_eq wide.methods

end Image

/-! ### The event contract -/

namespace Declaring

variable {ε α β : Type} {s s' : SymbolTable}

theorem runOn_type_methods {name : String} {id : TypeId}
    (success : (type name : Declaring ε TypeId).runOn s = (.ok id, s')) :
    s'.methods = s.methods := by
  cases success
  exact s.internType_methods name

theorem runOn_types_methods {names : List String} {ids : List TypeId}
    (success : (types names : Declaring ε (List TypeId)).runOn s = (.ok ids, s')) :
    s'.methods = s.methods := by
  cases success
  exact s.internTypes_methods names

theorem runOn_mapM_methods {step : α → Declaring ε β}
    (keeps : ∀ {s s' a b}, (step a).runOn s = (.ok b, s') → s'.methods = s.methods)
    {as : List α} {bs : List β} (success : (as.mapM step).runOn s = (.ok bs, s')) :
    s'.methods = s.methods := by
  exact runOn_mapM_induction (fun s _ _ s' => s'.methods = s.methods) (fun _ => rfl)
    (fun first later => later.trans (keeps first)) success

end Declaring

namespace EventContract

open Event (PayloadField PayloadKind)

variable {s s' : SymbolTable}

/-- The names of the types of a constructor's parameters. -/
def constructorTypes (kind : PayloadKind) : List String :=
  kind.constructorFields.map PayloadField.typeName

theorem splitIdentity_constructor (kind : PayloadKind) :
    Image.splitIdentity (identityOf kind.className ".ctor" (constructorTypes kind)).toList =
      .ok (kind.className.toList, ".ctor".toList, (constructorTypes kind).map String.toList) := by
  cases kind <;> decide +kernel

theorem splitIdentity_dispatch :
    Image.splitIdentity (identityOf busName dispatchName ["string", "object"]).toList =
      .ok (busName.toList, dispatchName.toList, ["string".toList, "object".toList]) := by
  decide +kernel

theorem declareField_methods {owner : TypeId} {f : PayloadField} {e : PayloadField × FieldId}
    (success : (declareField owner f).runOn s = (.ok e, s')) : s'.methods = s.methods := by
  obtain ⟨-, type, s₁, typed, declared⟩ := declareField_steps success
  exact (SymbolTable.declareField_methods declared).trans (Declaring.runOn_type_methods typed)

theorem declareClass_keysSplit {kind : PayloadKind} {c : EventClass}
    (success : (declareClass kind).runOn s = (.ok c, s')) (split : s.KeysSplit) : s'.KeysSplit := by
  obtain ⟨rfl, params, s₁, s₂, s₃, typed, mapped, listed, declared⟩ := declareClass_steps success
  obtain ⟨-, here⟩ := Declaring.runOn_type_eq_ok typed
  obtain ⟨toParams, -⟩ := Declaring.runOn_mapM_eq_ok (fun _ _ => True) (fun _ _ => trivial)
    (fun success => ⟨(declareField_runOn success).1, trivial⟩) mapped
  obtain ⟨toMethod, types⟩ := Declaring.runOn_types_eq_ok listed
  have owner := SymbolTable.typeName_eq (toMethod.types (toParams.types here))
  have kept := split.of_methods_eq (((Declaring.runOn_types_methods listed).trans
    (Declaring.runOn_mapM_methods declareField_methods mapped)).trans
      (Declaring.runOn_type_methods typed))
  refine kept.declareMethod (SymbolTable.splits_identity (splitIdentity_constructor c.kind) ?_ ?_)
    declared
  · rw [owner]
  · have texts := congrArg (List.map String.toList) types
    rw [List.map_map] at texts
    exact texts

/-- Declaring the contract leaves a table in which every key comes apart, if it was so before. -/
theorem declare_keysSplit {contract : EventContract}
    (success : declare.runOn s = (.ok contract, s')) (split : s.KeysSplit) : s'.KeysSplit := by
  obtain ⟨string, object, s₁, s₂, s₃, s₄, s₅, s₆, s₇, first, second, third, fourth, fifth, sixth,
    seventh, declared⟩ := declare_steps success
  have start := split.of_methods_eq ((Declaring.runOn_type_methods second).trans
    (Declaring.runOn_type_methods first))
  have classes := declareClass_keysSplit sixth (declareClass_keysSplit fifth
    (declareClass_keysSplit fourth (declareClass_keysSplit third start)))
  obtain ⟨-, stringHere⟩ := Declaring.runOn_type_eq_ok first
  obtain ⟨toObject, objectHere⟩ := Declaring.runOn_type_eq_ok second
  obtain ⟨toBus, busHere⟩ := Declaring.runOn_type_eq_ok seventh
  have later := (declareClass_runOn third).1.trans ((declareClass_runOn fourth).1.trans
    ((declareClass_runOn fifth).1.trans ((declareClass_runOn sixth).1.trans toBus)))
  have stringName := SymbolTable.typeName_eq (later.types (toObject.types stringHere))
  have objectName := SymbolTable.typeName_eq (later.types objectHere)
  refine (classes.of_methods_eq (Declaring.runOn_type_methods seventh)).declareMethod
    (SymbolTable.splits_identity splitIdentity_dispatch ?_ ?_) declared
  · rw [SymbolTable.typeName_eq busHere]
  · simp only [SymbolTable.paramTexts, List.map_cons, List.map_nil, stringName, objectName]

/-- What the handles of a contract stand for where control comes to them: fields of instances, a
    constructor that takes the captured values, and a method without a result that takes the hook
    and the event. -/
structure Shaped (contract : EventContract) (s : SymbolTable) : Prop where
  fields : ∀ kind, ∀ e ∈ (contract.eventClass kind).fields, ∃ d, s.field? e.2 = some d ∧
    d.isStatic = false
  constructor : ∀ kind, ∃ m, s.method? (contract.eventClass kind).constructor = some m ∧
    m.isConstructor ∧ m.params.length = kind.constructorFields.length
  dispatch : ∃ m, s.method? contract.dispatch = some m ∧ m.argCount = 2 ∧ m.ret = none

theorem DeclaredIn.shaped {contract : EventContract} (declared : contract.DeclaredIn s)
    (split : s.KeysSplit) : contract.Shaped s where
  fields := fun kind e member => by
    obtain ⟨d, here, -, instanced⟩ := (declared.classes kind).fields e member
    exact ⟨d, here, instanced⟩
  constructor := fun kind => by
    obtain ⟨e, here, key, -⟩ := (declared.classes kind).constructor
    obtain ⟨owner, params, parts, length⟩ := split e (List.mem_of_getElem? here)
    rw [declared.kinds kind] at key
    rw [key] at parts
    have known := parts.symm.trans (splitIdentity_constructor kind)
    simp only [Except.ok.injEq, Prod.mk.injEq] at known
    obtain ⟨-, name, rfl⟩ := known
    refine ⟨e.signature, congrArg (Option.map MethodEntry.signature) here, ?_, ?_⟩
    · exact beq_iff_eq.mpr (String.toList_inj.mp name)
    · rw [← length, constructorTypes, List.length_map, List.length_map]
  dispatch := by
    obtain ⟨e, here, key, void, static⟩ := declared.dispatch
    obtain ⟨owner, params, parts, length⟩ := split e (List.mem_of_getElem? here)
    rw [key] at parts
    have known := parts.symm.trans splitIdentity_dispatch
    simp only [Except.ok.injEq, Prod.mk.injEq] at known
    obtain ⟨-, -, rfl⟩ := known
    refine ⟨e.signature, congrArg (Option.map MethodEntry.signature) here, ?_, void⟩
    rw [MethodDef.argCount, ← length, static]
    rfl

theorem Shaped.grow {contract : EventContract} (shaped : contract.Shaped s)
    (grown : s.Extends s') : contract.Shaped s' where
  fields := fun kind e member => by
    obtain ⟨d, here, instanced⟩ := shaped.fields kind e member
    exact ⟨d, grown.field? here, instanced⟩
  constructor := fun kind => by
    obtain ⟨m, here, shape⟩ := shaped.constructor kind
    exact ⟨m, grown.method? here, shape⟩
  dispatch := by
    obtain ⟨m, here, shape⟩ := shaped.dispatch
    exact ⟨m, grown.method? here, shape⟩

end EventContract

end HookSplice
