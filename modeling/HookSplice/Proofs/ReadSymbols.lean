import HookSplice.Proofs.OutlineSteps
import HookSplice.Proofs.PrintedSymbols

/-!
# Symbols that were read

Every table that the first pass over an image leaves behind is sound and legible, and the methods
whose bodies are still to be read are declared in it.
-/

namespace HookSplice

namespace SymbolTable

variable {s s' : SymbolTable}

/-- A table whose symbols have names of their own that can be written down. -/
structure Proper (s : SymbolTable) : Prop where
  sound : s.Sound
  legible : s.Legible

theorem proper_empty : empty.Proper :=
  ⟨sound_empty, fun _ member => absurd member List.not_mem_nil,
    fun _ member => absurd member List.not_mem_nil, fun _ member => absurd member List.not_mem_nil⟩

theorem Extends.typeName_ret (grown : s.Extends s') {m : MethodDef}
    (known : ∀ t ∈ m.types, s.hasType t) {t : TypeId} (returned : t ∈ m.ret) :
    s'.typeName t = s.typeName t :=
  grown.typeName (known t (.tail _ (List.mem_append_right _ (Option.mem_toList.mpr returned))))

/-- New types leave a table proper. -/
theorem Proper.widen (proper : s.Proper) (wider : s.Widens s') : s'.Proper where
  sound := proper.sound.widen wider
  legible := {
    types := fun name member => (wider.named name member).elim (proper.legible.types name) id
    fields := fun d member => by
      rw [wider.fields] at member
      rw [wider.grown.typeName (proper.sound.fields d member).2]
      exact proper.legible.fields d member
    methods := fun e member => by
      rw [wider.methods] at member
      refine ⟨(proper.legible.methods e member).1, fun t returned => ?_⟩
      rw [wider.grown.typeName_ret (proper.sound.signatures e member) returned]
      exact (proper.legible.methods e member).2 t returned }

/-- A field with a name and a type that can be written down leaves a table proper. -/
theorem Proper.declareField (proper : s.Proper) {d : FieldDef} {f : FieldId}
    (owner : s.hasType d.owner) (type : s.hasType d.type)
    (written : d.name ≠ "" ∧ (d.isStatic = false → s.typeName d.type ≠ "static"))
    (success : s.declareField d = .ok (f, s')) : s'.Proper := by
  refine ⟨proper.sound.declareField owner type success, ?_⟩
  rcases declareField_cases success with rfl | ⟨-, rfl⟩
  · exact proper.legible
  refine ⟨proper.legible.types, fun e member => ?_, proper.legible.methods⟩
  rcases List.mem_append.mp member with member | member
  · exact proper.legible.fields e member
  · rw [List.mem_singleton.mp member]
    exact written

/-- A method with a name and a result that can be written down leaves a table proper. -/
theorem Proper.declareMethod (proper : s.Proper) {m : MethodDef} {id : MethodId}
    (known : ∀ t ∈ m.types, s.hasType t) (written : m.name ≠ "" ∧ ∀ t ∈ m.ret,
      s.typeName t ≠ "void" ∧ (m.isStatic = false → s.typeName t ≠ "static"))
    (success : s.declareMethod m = .ok (id, s')) : s'.Proper := by
  refine ⟨proper.sound.declareMethod known success, ?_⟩
  rcases declareMethod_cases success with rfl | ⟨-, rfl⟩
  · exact proper.legible
  refine ⟨proper.legible.types, proper.legible.fields, fun e member => ?_⟩
  rcases List.mem_append.mp member with member | member
  · exact proper.legible.methods e member
  · rw [List.mem_singleton.mp member]
    exact written

end SymbolTable

namespace Image

open SymbolTable (Proper)

/-! ### Members -/

variable {symbols symbols' : SymbolTable}

/-- What a signature names can be written down again. -/
theorem SignatureNamed.legible {text : List Char} {d : MethodDef}
    (named : SignatureNamed symbols text d) : d.name ≠ "" ∧ ∀ t ∈ d.ret,
      symbols.typeName t ≠ "void" ∧ (d.isStatic = false → symbols.typeName t ≠ "static") := by
  obtain ⟨-, nameSome, -⟩ := splitIdentity_eq_ok named.parts
  refine ⟨fun same => nameSome (by rw [same]; rfl), fun t returned => ?_⟩
  have result := named.result
  rw [Option.mem_def.mp returned] at result
  cases result with
  | type notVoid known ret =>
      rw [ret, named.static]
      exact ⟨fun void => notVoid (String.ofList_inj.mp void),
        fun unmarked static => stripStatic_unmarked unmarked (String.ofList_inj.mp static)⟩

/-- A signature that was read is declared. -/
theorem readSignature_eq_ok (proper : symbols.Proper) {text : List Char} {m : MethodId}
    (success : readSignature symbols text = .ok (m, symbols')) :
    symbols'.Proper ∧ symbols.Extends symbols' ∧ symbols'.hasMethod m := by
  obtain ⟨s, d, wide, named, declared⟩ := readSignature_steps success
  obtain ⟨grown, e, here, -⟩ := SymbolTable.declareMethod_eq_ok declared
  exact ⟨(proper.widen wide).declareMethod named.types named.legible declared,
    wide.grown.trans grown, decide_eq_true (List.getElem?_eq_some_iff.mp here).1⟩

/-- A field that was read is declared. -/
theorem readField_eq_ok (proper : symbols.Proper) {owner : TypeId} (known : symbols.hasType owner)
    {text : List Char} (success : readField symbols owner text = .ok symbols') :
    symbols'.Proper ∧ symbols.Extends symbols' := by
  obtain ⟨s, type, f, wide, typeKnown, named, nameSome, -, declared⟩ := readField_steps success
  refine ⟨(proper.widen wide).declareField (wide.grown.hasType known) typeKnown
    ⟨ofList_ne_empty nameSome, fun unmarked static => ?_⟩ declared,
    wide.grown.trans (SymbolTable.declareField_eq_ok declared).1⟩
  rw [named] at static
  exact stripStatic_unmarked unmarked (String.ofList_inj.mp static)

/-! ### The first pass -/

/-- What is open belongs to a type or a method of the table. -/
def Open.Known (symbols : SymbolTable) : Open → Prop
  | .directive => True
  | .members _ owner => symbols.hasType owner
  | .body p => symbols.hasMethod p.method

/-- The symbols read so far are proper, and what is pending or open belongs to them. -/
structure Outline.Proper (o : Outline) : Prop where
  symbols : o.symbols.Proper
  pending : ∀ p ∈ o.pending, o.symbols.hasMethod p.method
  state : o.state.Known o.symbols

theorem Outline.Proper.grow {o : Outline} (proper : o.Proper) (better : symbols'.Proper)
    (grown : o.symbols.Extends symbols') {state : Open} (known : state.Known symbols') :
    Outline.Proper ⟨symbols', o.pending, state⟩ :=
  ⟨better, fun p member => grown.hasMethod (proper.pending p member), known⟩

theorem readLine_proper {o o' : Outline} {line : Line} (proper : o.Proper)
    (success : readLine o line = .ok o') : o'.Proper := by
  have open_ := proper.state
  cases readLine_step success with
  | @openClass symbols pending present =>
      have wide := symbols.internType_widens (ofList_ne_empty present)
      exact proper.grow (proper.symbols.widen wide) wide.grown (SymbolTable.internType_known _ _).1
  | declareMethod read =>
      obtain ⟨better, grown, -⟩ := readSignature_eq_ok proper.symbols read
      exact proper.grow better grown trivial
  | openMethod read first =>
      obtain ⟨better, grown, known⟩ := readSignature_eq_ok proper.symbols read
      exact proper.grow better grown known
  | declareField read =>
      obtain ⟨better, grown⟩ := readField_eq_ok proper.symbols open_ read
      exact proper.grow better grown (grown.hasType open_)
  | closeClass => exact ⟨proper.symbols, proper.pending, trivial⟩
  | bodyLine => exact ⟨proper.symbols, proper.pending, open_⟩
  | closeMethod =>
      refine ⟨proper.symbols, fun q member => ?_, trivial⟩
      rcases List.mem_append.mp member with member | member
      · exact proper.pending q member
      · rw [List.mem_singleton.mp member]
        exact open_

theorem readLines_proper {lines : List Line} {o o' : Outline} (proper : o.Proper)
    (success : lines.foldlM readLine o = .ok o') : o'.Proper :=
  Except.foldlM_induction readLine_proper proper success

theorem Outline.proper_empty : Outline.Proper ⟨.empty, [], .directive⟩ :=
  ⟨SymbolTable.proper_empty, fun _ member => absurd member List.not_mem_nil, trivial⟩

/-- What the first pass leaves for the second one. -/
theorem readOutline_proper {lines : List Line} {pending : List PendingBody}
    (success : readOutline lines = .ok (symbols, pending)) :
    symbols.Proper ∧ ∀ p ∈ pending, symbols.hasMethod p.method := by
  have proper := readLines_proper Outline.proper_empty (readOutline_eq_ok success)
  exact ⟨proper.symbols, proper.pending⟩

end Image

end HookSplice
