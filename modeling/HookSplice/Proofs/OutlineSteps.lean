import HookSplice.Proofs.SoundSymbols

/-!
# The steps of the first pass

What reading one line in the first pass over an image can do: it opens a class or a body, declares a
field or a method, or closes what is open.  A declaration adds types to the table first, and then
declares what its text says with handles of these types.
-/

namespace HookSplice

namespace Image

variable {symbols symbols' : SymbolTable}

theorem ofList_ne_empty {text : List Char} (nonempty : text ≠ []) : String.ofList text ≠ "" :=
  fun same => nonempty (String.ofList_inj.mp same)

/-! ### Members -/

/-- Behind an absent mark the first word is not the mark. -/
theorem stripStatic_unmarked {text : List Char} (unmarked : (stripStatic text).1 = false) :
    (Text.splitFirst (stripStatic text).2).1 ≠ "static".toList := by
  unfold stripStatic at unmarked ⊢
  simp only at unmarked ⊢
  split at unmarked
  · cases unmarked
  · next other =>
      rw [if_neg other]
      exact other

/-- The parameters between the parentheses of an identity. -/
def splitParams (inner : List Char) : List (List Char) :=
  ((Text.pieces (· == ',') inner).map Text.trim).filter fun p => !p.isEmpty

/-- How an identity comes apart: at the first opening parenthesis, at the closing one at its end,
    and in front of these at the last double colon. -/
theorem splitIdentity_steps {identity owner name : List Char} {params : List (List Char)} :
    splitIdentity identity = .ok (owner, name, params) ↔
      ∃ path rest inner, Text.splitAtFirst '(' identity = some (path, rest) ∧
        Text.dropLast? ')' rest = some inner ∧
        Text.splitLastColons path = some (owner, name) ∧ owner ≠ [] ∧ name ≠ [] ∧
        params = splitParams inner := by
  unfold splitIdentity
  constructor
  · intro success
    split at success
    · cases success
    next path rest found =>
    split at success
    · cases success
    next inner closed =>
    split at success
    · cases success
    next split =>
    split at success
    · cases success
    next present =>
    cases success
    rw [Bool.or_eq_true, not_or, List.isEmpty_iff, List.isEmpty_iff] at present
    exact ⟨path, rest, inner, found, closed, split, present.1, present.2, rfl⟩
  · rintro ⟨path, rest, inner, found, closed, split, ownerSome, nameSome, rfl⟩
    simp only [found, closed, split]
    exact if_neg (by simp [ownerSome, nameSome])

/-- The parts of an identity are not empty. -/
theorem splitIdentity_eq_ok {identity owner name : List Char} {params : List (List Char)}
    (success : splitIdentity identity = .ok (owner, name, params)) :
    owner ≠ [] ∧ name ≠ [] ∧ ∀ p ∈ params, p ≠ [] := by
  obtain ⟨path, rest, inner, -, -, -, ownerSome, nameSome, rfl⟩ := splitIdentity_steps.mp success
  refine ⟨ownerSome, nameSome, fun p member => ?_⟩
  simpa using (List.mem_filter.mp member).2

/-- The result that a word names: nothing for `void`, and otherwise the type of that name. -/
inductive ResultNamed (s : SymbolTable) (word : List Char) : Option TypeId → Prop
  | nothing (void : word = "void".toList) : ResultNamed s word none
  | type {t : TypeId} (notVoid : word ≠ "void".toList) (known : s.hasType t)
      (named : s.typeName t = String.ofList word) : ResultNamed s word (some t)

theorem ResultNamed.known {s : SymbolTable} {word : List Char} {ret : Option TypeId}
    (named : ResultNamed s word ret) : ∀ t ∈ ret, s.hasType t := by
  intro t returned
  cases named with
  | nothing void => cases returned
  | type notVoid known named =>
      cases returned
      exact known

/-- A method says what the text of a signature says, with types of the table. -/
structure SignatureNamed (s : SymbolTable) (text : List Char) (m : MethodDef) : Prop where
  known : ∀ t ∈ m.owner :: m.params, s.hasType t
  parts : splitIdentity (Text.splitFirst (stripStatic text).2).2 =
    .ok ((s.typeName m.owner).toList, m.name.toList, m.params.map fun t => (s.typeName t).toList)
  result : ResultNamed s (Text.splitFirst (stripStatic text).2).1 m.ret
  static : m.isStatic = (stripStatic text).1

theorem SignatureNamed.types {s : SymbolTable} {text : List Char} {m : MethodDef}
    (named : SignatureNamed s text m) : ∀ t ∈ m.types, s.hasType t := by
  intro t mentioned
  rw [MethodDef.types, ← List.cons_append] at mentioned
  rcases List.mem_append.mp mentioned with member | member
  · exact named.known t member
  · exact named.result.known t (Option.mem_toList.mp member)

/-- A signature is named in full when its identity is, and its result behind that. -/
theorem SignatureNamed.of_identity {s s' : SymbolTable} {text owner name : List Char}
    {params : List (List Char)} {ownerId : TypeId} {paramIds : List TypeId} {ret : Option TypeId}
    (parts : splitIdentity (Text.splitFirst (stripStatic text).2).2 = .ok (owner, name, params))
    (known : ∀ t ∈ ownerId :: paramIds, s.hasType t)
    (named : (ownerId :: paramIds).map s.typeName = (owner :: params).map String.ofList)
    (grown : s.Extends s') (result : ResultNamed s' (Text.splitFirst (stripStatic text).2).1 ret) :
    SignatureNamed s' text
      ⟨ownerId, String.ofList name, paramIds, ret, (stripStatic text).1⟩ where
  known := fun t member => grown.hasType (known t member)
  parts := by
    have stays : (ownerId :: paramIds).map s'.typeName = (ownerId :: paramIds).map s.typeName :=
      List.map_congr_left fun t member => grown.typeName (known t member)
    have texts := congrArg (List.map String.toList) (stays.trans named)
    simp only [List.map_map, List.map_cons, Function.comp_def, String.toList_ofList, List.map_id',
      List.cons.injEq] at texts
    rw [parts]
    simp only [texts.1, texts.2, String.toList_ofList]
  result := result
  static := rfl

/-- A signature that is read adds the types that it mentions and is then declared. -/
theorem readSignature_steps {text : List Char} {m : MethodId}
    (success : readSignature symbols text = .ok (m, symbols')) :
    ∃ s d, symbols.Widens s ∧ SignatureNamed s text d ∧ s.declareMethod d = .ok (m, symbols') := by
  unfold readSignature at success
  simp only at success
  split at success
  · cases success
  next present =>
  rw [Bool.or_eq_true, not_or, List.isEmpty_iff, List.isEmpty_iff] at present
  obtain ⟨⟨owner, name, params⟩, parts, success⟩ := Except.bind_eq_ok success
  obtain ⟨ownerSome, -, paramsSome⟩ := splitIdentity_eq_ok parts
  have declared := Except.mapError_eq_ok.mp success
  have nonempty : ∀ word ∈ (owner :: params).map String.ofList, word ≠ "" := by
    intro _ member
    obtain ⟨word, here, rfl⟩ := List.mem_map.mp member
    rcases List.mem_cons.mp here with rfl | here
    · exact ofList_ne_empty ownerSome
    · exact ofList_ne_empty (paramsSome word here)
  have wide := symbols.internTypes_widens nonempty
  have known := symbols.internTypes_known ((owner :: params).map String.ofList)
  have named := (symbols.internTypes_extends ((owner :: params).map String.ofList)).2
  simp only [List.map_cons, SymbolTable.internTypes] at wide known named declared
  split at declared
  · next void =>
      exact ⟨_, _, wide, .of_identity parts known named (.refl _) (.nothing void), declared⟩
  · next notVoid =>
      have wider (s : SymbolTable) := s.internType_widens (ofList_ne_empty present.1)
      have result (s : SymbolTable) :=
        s.internType_known (String.ofList (Text.splitFirst (stripStatic text).2).1)
      exact ⟨_, _, wide.trans (wider _), .of_identity parts known named (wider _).grown
        (.type notVoid (result _).1 (result _).2), declared⟩

/-- A field that is read adds its type and is then declared. -/
theorem readField_steps {owner : TypeId} {text : List Char}
    (success : readField symbols owner text = .ok symbols') :
    ∃ s type f, symbols.Widens s ∧ s.hasType type ∧
      s.typeName type = String.ofList (Text.splitFirst (stripStatic text).2).1 ∧
      (Text.splitFirst (stripStatic text).2).2 ≠ [] ∧
      (∀ c ∈ (Text.splitFirst (stripStatic text).2).2, Text.isBlank c = false) ∧
      s.declareField ⟨owner, String.ofList (Text.splitFirst (stripStatic text).2).2, type,
        (stripStatic text).1⟩ = .ok (f, symbols') := by
  unfold readField at success
  simp only at success
  split at success
  · cases success
  next present =>
  simp only [Bool.or_eq_true, not_or, List.isEmpty_iff, List.any_eq_true] at present
  obtain ⟨⟨typeSome, nameSome⟩, solid⟩ := present
  obtain ⟨⟨f, table⟩, declared, success⟩ := Except.bind_eq_ok success
  cases success
  obtain ⟨known, named⟩ :=
    symbols.internType_known (String.ofList (Text.splitFirst (stripStatic text).2).1)
  exact ⟨_, _, f, symbols.internType_widens (ofList_ne_empty typeSome), known, named, nameSome,
    fun c member => Bool.eq_false_iff.mpr fun blank => solid ⟨c, member, blank⟩,
    Except.mapError_eq_ok.mp declared⟩

/-! ### Lines -/

/-- What reading one line in the first pass can do. -/
inductive LineStep (line : Line) : Outline → Outline → Prop
  | openClass {symbols pending} (present : (Text.splitFirst line.text).2 ≠ []) :
      LineStep line ⟨symbols, pending, .directive⟩
        ⟨(symbols.internType (String.ofList (Text.splitFirst line.text).2)).2, pending,
          .members line (symbols.internType (String.ofList (Text.splitFirst line.text).2)).1⟩
  | declareMethod {symbols symbols' pending m}
      (read : readSignature symbols (Text.splitFirst line.text).2 = .ok (m, symbols')) :
      LineStep line ⟨symbols, pending, .directive⟩ ⟨symbols', pending, .directive⟩
  | openMethod {symbols symbols' pending m}
      (read : readSignature symbols (Text.splitFirst line.text).2 = .ok (m, symbols'))
      (first : ∀ p ∈ pending, p.method ≠ m) :
      LineStep line ⟨symbols, pending, .directive⟩ ⟨symbols', pending, .body ⟨m, line, []⟩⟩
  | declareField {symbols symbols' pending header owner}
      (read : readField symbols owner (Text.splitFirst line.text).2 = .ok symbols') :
      LineStep line ⟨symbols, pending, .members header owner⟩
        ⟨symbols', pending, .members header owner⟩
  | closeClass {symbols pending header owner} :
      LineStep line ⟨symbols, pending, .members header owner⟩ ⟨symbols, pending, .directive⟩
  | bodyLine {symbols pending p} : LineStep line ⟨symbols, pending, .body p⟩
      ⟨symbols, pending, .body { p with lines := p.lines ++ [line] }⟩
  | closeMethod {symbols pending p} :
      LineStep line ⟨symbols, pending, .body p⟩ ⟨symbols, pending ++ [p], .directive⟩

theorem readDirective_step {o' : Outline} {line : Line} {pending : List PendingBody}
    (success : readDirective ⟨symbols, pending, .directive⟩ line = .ok o') :
    LineStep line ⟨symbols, pending, .directive⟩ o' := by
  unfold readDirective at success
  simp only at success
  split at success
  · split at success
    · cases success
    · next present =>
        cases success
        exact .openClass (mt List.isEmpty_iff.mpr present)
  split at success
  · split at success
    · cases success
    · next read =>
        cases success
        exact .declareMethod read
  split at success
  · split at success
    · cases success
    · next read =>
        split at success
        · cases success
        · next other =>
            cases success
            exact .openMethod read fun p member same =>
              other (List.any_eq_true.mpr ⟨p, member, beq_iff_eq.mpr same⟩)
  · cases success

theorem readLine_step {o o' : Outline} {line : Line} (success : readLine o line = .ok o') :
    LineStep line o o' := by
  obtain ⟨symbols, pending, state⟩ := o
  cases state with
  | directive => exact readDirective_step success
  | members header owner =>
      unfold readLine at success
      simp only at success
      split at success
      · cases success
        exact .closeClass
      split at success
      · split at success
        · cases success
        · next read =>
            cases success
            exact .declareField read
      · cases success
  | body p =>
      unfold readLine at success
      simp only at success
      split at success
      · cases success
        exact .closeMethod
      · cases success
        exact .bodyLine

/-- The first pass ends between directives. -/
theorem readOutline_eq_ok {lines : List Line} {pending : List PendingBody}
    (success : readOutline lines = .ok (symbols, pending)) :
    lines.foldlM readLine ⟨.empty, [], .directive⟩ = .ok ⟨symbols, pending, .directive⟩ := by
  obtain ⟨⟨found, bodies, state⟩, read, success⟩ := Except.bind_eq_ok success
  cases state with
  | directive =>
      cases success
      exact read
  | members header owner => cases success
  | body p => cases success

end Image

end HookSplice
