import HookSplice.Proofs.PrintedBody
import HookSplice.Proofs.PrintedOutline

/-!
# The lines of a printed image

What the reader finds in each of the lines that are printed: a line without a string literal shows
its words, and a line with one shows the literal as it was encoded.
-/

namespace HookSplice

open Text (Bare Plain Solid Trimmed)
open SymbolTable (staticMark memberText)

namespace SymbolTable

/-! ### Bare words -/

theorem bare_staticMark (isStatic : Bool) : Bare (staticMark isStatic) := by
  cases isStatic with
  | true =>
      show Bare "static ".toList
      decide
  | false => exact fun c member => absurd member List.not_mem_nil

section Names

variable {s : SymbolTable} (plain : s.Plain)
include plain

theorem bare_memberText (sound : s.Sound) {f : FieldId} (known : s.hasField f) :
    Bare (s.memberText (s.fieldRow f)) :=
  (bare_staticMark _).append ((plain.type (sound.type_known known)).bare.append
    (Bare.cons (by decide) (plain.field known).bare))

theorem bare_identity {m : MethodDef} (known : ∀ t ∈ m.types, s.hasType t)
    (name : Text.Plain m.name.toList) : Bare (s.identity ", " m).toList := by
  have owner := (plain.type (known m.owner (List.mem_cons_self ..))).bare
  have separator : Bare ", ".toList := by decide
  have params : Bare (", ".toList.intercalate (s.paramTexts m)) := by
    refine separator.intercalate fun text member => ?_
    obtain ⟨t, here, rfl⟩ := List.mem_map.mp member
    exact (plain.type (known t (.tail _ (List.mem_append_left _ here)))).bare
  rw [toList_identity]
  exact (owner.append (Bare.cons (by decide) (Bare.cons (by decide) name.bare))).append
    (Bare.cons (by decide) (params.append (by decide)))

theorem bare_methodName (sound : s.Sound) {m : MethodId} (known : s.hasMethod m) :
    Bare (s.methodName m).toList := by
  rw [toList_methodName known]
  exact bare_identity plain (sound.signature_known known) (plain.method known)

theorem bare_signature (sound : s.Sound) {m : MethodId} (known : s.hasMethod m) :
    Bare (s.signature m).toList := by
  have types := sound.signature_known known
  have ret : Bare (s.retText (s.methodRow m).signature) := by
    unfold retText
    cases returned : (s.methodRow m).signature.ret with
    | none =>
        show Bare "void".toList
        decide
    | some t =>
        exact (plain.type (types t (.tail _ (List.mem_append_right _ (by simp [returned]))))).bare
  rw [toList_signature known]
  exact (bare_staticMark _).append
    (ret.append (Bare.cons (by decide) (bare_identity plain types (plain.method known))))

end Names

end SymbolTable

theorem intercalate_append {α : Type} (separator : List α) {xs ys : List (List α)} (some_ : xs ≠ [])
    (some_' : ys ≠ []) : separator.intercalate (xs ++ ys) =
      separator.intercalate xs ++ separator ++ separator.intercalate ys := by
  induction xs with
  | nil => exact absurd rfl some_
  | cons x rest ih =>
      cases rest with
      | nil =>
          obtain ⟨y, more, rfl⟩ := List.exists_cons_of_ne_nil some_'
          rw [List.singleton_append, List.intercalate_cons_cons, List.intercalate_singleton]
      | cons next rest =>
          have later := ih (List.cons_ne_nil _ _)
          rw [List.cons_append] at later
          rw [List.cons_append, List.cons_append, List.intercalate_cons_cons, later,
            List.intercalate_cons_cons]
          simp only [List.append_assoc]

namespace Image

theorem Shows.bare_words {line : String} {word text : List Char} (words : Bare word)
    (solid : Solid word) (nonempty : word ≠ []) (bare : Bare text) (trimmed : Trimmed text)
    (nonempty' : text ≠ []) (shape : line.toList = word ++ ' ' :: text ∨
      line.toList = ' ' :: ' ' :: (word ++ ' ' :: text)) : Shows line (word ++ ' ' :: text) :=
  shows_bare (words.append (Bare.cons (by decide) bare))
    (trimmed_words solid nonempty trimmed nonempty') shape

/-- The line behind every declaration that spans several lines. -/
theorem shows_end : Shows ".end" ".end".toList :=
  shows_bare (by decide) (Solid.trimmed (by decide)) (Or.inl rfl)

section Classes

variable {s : SymbolTable} (sound : s.Sound) (plain : s.Plain) (legible : s.Legible)
include sound plain legible

/-! ### Declarations -/

theorem shows_member {f : FieldId} (known : s.hasField f) :
    Shows ("  .field " ++ (if (s.fieldRow f).isStatic then "static " else "") ++
        s.typeName (s.fieldRow f).type ++ " " ++ (s.fieldRow f).name)
      (".field".toList ++ ' ' :: s.memberText (s.fieldRow f)) := by
  have name := SymbolTable.toList_ne_nil (legible.fields _ (SymbolTable.fieldRow_mem known)).1
  refine Shows.bare_words (by decide) (by decide) (by decide)
    (SymbolTable.bare_memberText plain sound known) (trimmed_memberText sound plain legible known)
    (by simp [memberText]) (Or.inr ?_)
  simp only [String.toList_append, memberText, staticMark]
  cases (s.fieldRow f).isStatic <;> simp

/-- The lines of a class. -/
theorem reads_class {t : TypeId} (known : s.hasType t) :
    Reads (classLines s t) (s.classTexts t) := by
  have members : (s.fieldsOf t).filterMap (fun f => (s.field? f).map fun d =>
      "  .field " ++ (if d.isStatic then "static " else "") ++ s.typeName d.type ++ " " ++ d.name) =
      (s.fieldsOf t).map fun f =>
        "  .field " ++ (if (s.fieldRow f).isStatic then "static " else "") ++ s.typeName (s.fieldRow f).type ++ " " ++ (s.fieldRow f).name := by
    rw [← List.filterMap_eq_map]
    refine List.filterMap_congr fun f member => ?_
    rw [SymbolTable.field?_eq (SymbolTable.mem_fieldsOf.mp member).1]
    rfl
  have header : Shows (".class " ++ s.typeName t)
      (".class".toList ++ ' ' :: (s.typeName t).toList) := by
    have name := plain.type known
    refine Shows.bare_words (by decide) (by decide) (by decide) name.bare name.solid.trimmed
      (legible.named.type known) (Or.inl ?_)
    rw [String.toList_append]
    rfl
  unfold classLines SymbolTable.classTexts
  split
  · next none_ => rw [if_pos none_]; exact .nil
  · next fields =>
      rw [if_neg (by simpa using fields)]
      simp only
      rw [members]
      refine Reads.cons header (List.cons_ne_nil _ _)
        (Reads.append (Reads.map fun f member => ?_) ?_)
      · exact ⟨shows_member sound plain legible (SymbolTable.mem_fieldsOf.mp member).1,
          List.cons_ne_nil _ _⟩
      · exact Reads.append (Reads.one shows_end (by decide)) Reads.blank

end Classes

section Bodies

variable {s : SymbolTable} (sound : s.Sound) (plain : s.Plain) (named : s.TypesNamed)
include sound plain named

/-- A line that declares a method. -/
theorem shows_header {word : List Char} {line : String} (bare : Bare word) (solid : Solid word)
    (nonempty : word ≠ []) {m : MethodId} (known : s.hasMethod m)
    (shape : line.toList = word ++ ' ' :: (s.signature m).toList) :
    Shows line (word ++ ' ' :: (s.signature m).toList) := by
  have written : (s.signature m).toList ≠ [] := by
    rw [SymbolTable.toList_signature known]
    simp
  exact Shows.bare_words bare solid nonempty (SymbolTable.bare_signature plain sound known)
    (trimmed_signature sound plain named known) written (Or.inl shape)

/-! ### Bodies -/

section Body

variable {b : Body} (whole : b.Printable s)
include whole

omit named in
/-- An operand other than a string literal is bare. -/
theorem bare_operandChars {ins : Instruction} (member : ins ∈ b.code)
    (noText : ∀ t, ins.operand ≠ .text t) : Bare (operandChars s b ins) := by
  have known := whole.known ins member
  have digits (n : Nat) : Bare (toString n).toList := by
    rw [Nat.toString_eq_repr, Nat.toList_repr]
    exact Plain.bare fun c inside => isPlain_of_mem_toDigits inside
  unfold operandChars
  cases shape : ins.operand with
  | none => exact fun c inside => absurd inside List.not_mem_nil
  | int n =>
      show Bare (toString n.toInt).toList
      rw [Int.toString_eq_repr, Int.repr_eq_if, ← Nat.toString_eq_repr, ← Nat.toString_eq_repr]
      split
      · exact digits _
      · rw [String.toList_append]
        exact Bare.append (by decide) (digits _)
  | text t => exact absurd shape (noText t)
  | arg i => exact digits i.toNat
  | slot i => exact digits i.toNat
  | label l =>
      have attached : l ∈ Code.labels b.code :=
        whole.targets ins member l (by rw [Instruction.target?, shape]; rfl)
      simp only [operandText, labelName_eq whole.attached attached]
      exact (plain_rankName _).bare
  | field f =>
      rw [shape] at known
      simp only [operandText, SymbolTable.toList_fieldName known]
      exact (plain.type (sound.owner_known known)).bare.append
        (Bare.cons (by decide) (Bare.cons (by decide) (plain.field known).bare))
  | method m =>
      rw [shape] at known
      exact SymbolTable.bare_methodName plain sound known
  | type t =>
      rw [shape] at known
      exact (plain.type known).bare

/-- The line of an instruction. -/
theorem shows_instruction {ins : Instruction} (member : ins ∈ b.code) :
    Shows ("  " ++ instructionText s (labelName (rankedLabels b.code)) ins)
      (instructionText s (labelName (rankedLabels b.code)) ins).toList := by
  have mnemonic := plain_mnemonic ins.opcode
  have nonempty := mnemonic_ne_nil ins.opcode
  have indented : ("  " ++ instructionText s (labelName (rankedLabels b.code)) ins).toList =
      ' ' :: ' ' :: (instructionText s (labelName (rankedLabels b.code)) ins).toList := by
    rw [String.toList_append]
    rfl
  by_cases literal : ∃ t, ins.operand = .text t
  · obtain ⟨t, operand⟩ := literal
    have text : (instructionText s (labelName (rankedLabels b.code)) ins).toList =
        ins.opcode.mnemonic.toList ++ ' ' :: Text.Quoted.encode t.toList := by
      rw [toList_instructionText, operand]
      simp [operandText]
    rw [text] at indented ⊢
    exact shows_literal t.toList mnemonic.bare mnemonic.solid nonempty indented
  · have bare := bare_operandChars sound plain whole member fun t same => literal ⟨t, same⟩
    obtain ⟨trimmed, written⟩ := trimmed_operandChars sound plain named whole member
    rw [toList_instructionText] at indented ⊢
    split at indented
    · next none_ =>
        rw [if_pos none_]
        exact shows_bare mnemonic.bare mnemonic.solid.trimmed (Or.inr indented)
    · next some_ =>
        rw [if_neg some_]
        exact Shows.bare_words mnemonic.bare mnemonic.solid nonempty bare trimmed (written some_)
          (Or.inr indented)

omit sound plain named in
/-- The line of a marker. -/
theorem shows_marker {i : Nat} {ins : Instruction} (here : b.code[i]? = some ins) {name : String}
    (marked : name ∈ markersAt b (rankedLabels b.code) i ins) :
    Shows (name ++ ":") (name.toList ++ [':']) := by
  have isPlain := (plain_marker whole.attached here marked).1
  refine shows_bare (isPlain.bare.append (by decide))
    (Solid.trimmed (isPlain.solid.append (by decide))) (Or.inl ?_)
  rw [String.toList_append]
  rfl

omit sound in
/-- The line of a region. -/
theorem shows_region {r : Region} {i : Nat} (member : r ∈ b.regions) :
    Shows (regionLine s b.size i r)
      (".try".toList ++ ' ' :: [' '].intercalate (boundWords b.size i r ++ kindWords s r)) := by
  have caught := whole.caught r member
  have words := fun word (member : word ∈ boundWords b.size i r ++ kindWords s r) =>
    regionWord plain named caught member
  obtain ⟨trimmed, written⟩ := trimmed_intercalate fun word member => (words word member).2
  have bounded : ((boundNames i r).map fun entry =>
      if b.size ≤ entry.1 then "@end" else entry.2).map String.toList = boundWords b.size i r := by
    unfold boundWords
    rw [List.map_map]
    exact List.map_congr_left fun entry _ => apply_ite String.toList ..
  have nonempty : boundWords b.size i r ≠ [] := List.cons_ne_nil _ _
  refine Shows.bare_words (by decide) (by decide) (by decide)
    (Bare.intercalate (by decide) fun word member => (words word member).1) trimmed
    (written (by simp [nonempty])) (Or.inr ?_)
  have kind : kindWords s r ≠ [] := by
    unfold kindWords
    split <;> exact List.cons_ne_nil _ _
  rw [intercalate_append _ nonempty kind, ← bounded]
  show ("  .try " ++ String.intercalate " " ((boundNames i r).map fun entry =>
    if b.size ≤ entry.1 then "@end" else entry.2) ++ " " ++ _).toList = _
  unfold kindWords Region.caught?
  simp only [String.toList_append, String.toList_intercalate]
  cases r.kind with
  | catching t => simp [List.intercalate]
  | finalizing => simp [List.intercalate]

/-- The lines of a body, with its header and its end. -/
theorem reads_body :
    Reads (bodyLines s b) (methodTexts s (b.method, bodyTexts s b)) := by
  have header : Shows (".method " ++ s.signature b.method)
      (".method".toList ++ ' ' :: (s.signature b.method).toList) := by
    refine shows_header sound plain named (by decide) (by decide) (by decide) whole.method ?_
    rw [String.toList_append]
    rfl
  have locals : Reads (if b.locals.isEmpty then []
      else ["  .locals " ++ String.intercalate " " (b.locals.map s.typeName)])
      (localsTexts s b) := by
    unfold localsTexts
    by_cases none_ : b.locals = []
    · rw [if_pos none_, none_]
      exact .nil
    have word : ∀ text ∈ b.locals.map fun t => (s.typeName t).toList, Plain text ∧ text ≠ [] := by
      intro text member
      obtain ⟨t, here, rfl⟩ := List.mem_map.mp member
      exact ⟨plain.type (whole.locals t here), named.type (whole.locals t here)⟩
    obtain ⟨trimmed, written⟩ := trimmed_intercalate fun text member =>
      ⟨(word text member).1.solid, (word text member).2⟩
    rw [if_neg none_, if_neg (by simpa using none_)]
    refine Reads.one ?_ (List.cons_ne_nil _ _)
    refine Shows.bare_words (by decide) (by decide) (by decide)
      (Bare.intercalate (by decide) fun text member => (word text member).1.bare) trimmed
      (written (by simpa using none_)) (Or.inr ?_)
    simp only [String.toList_append, String.toList_intercalate, List.map_map, Function.comp_def]
    rfl
  have code : Reads (b.code.zipIdx.flatMap fun row =>
      (markersAt b (rankedLabels b.code) row.2 row.1).map (· ++ ":") ++
        ["  " ++ instructionText s (labelName (rankedLabels b.code)) row.1]) (codeTexts s b) := by
    refine Reads.flatMap fun row member => ?_
    have here := List.mem_zipIdx_iff_getElem?.mp member
    have inCode := List.mem_of_getElem? here
    refine Reads.append (Reads.map fun name marked => ?_) (Reads.one ?_ ?_)
    · exact ⟨shows_marker whole here marked, by simp⟩
    · exact shows_instruction sound plain named whole inCode
    · exact (splitFirst_instructionText sound plain named whole inCode).2
  have regions : Reads (b.regions.zipIdx.map fun row => regionLine s b.size row.2 row.1)
      (regionTexts s b) :=
    Reads.map fun row member => ⟨shows_region plain named whole
      (List.mem_of_getElem? (List.mem_zipIdx_iff_getElem?.mp member)), List.cons_ne_nil _ _⟩
  exact Reads.cons header (List.cons_ne_nil _ _)
    (((locals.append code).append regions).append (Reads.one shows_end (by decide)))

end Body

end Bodies

end Image

/-! ### Hosts -/

/-- A host whose symbols and bodies are sound. -/
structure Host.Sound (h : Host) : Prop where
  symbols : h.symbols.Sound
  legible : h.symbols.Legible
  bodies : ∀ b ∈ h.bodies, b.Sound h.symbols

/-- Plain names, and no integer that is out of range when it is read: the least one, whose
    magnitude is no signed integer. -/
structure Host.Plain (h : Host) : Prop where
  names : h.symbols.Plain
  integers : ∀ b ∈ h.bodies, ∀ ins ∈ b.code, ins.operand ≠ .int Int64.minValue

/-- The methods without a body. -/
def Host.missing (h : Host) : List MethodId :=
  h.symbols.methodIds.filter fun m => (h.body? m).isNone

namespace Image

/-- The lines of an image, as the reader sees them. -/
def imageTexts (h : Host) : List (List Char) :=
  h.symbols.typeIds.flatMap h.symbols.classTexts ++
    (h.missing.map fun m => ".extern".toList ++ ' ' :: (h.symbols.signature m).toList) ++
      (h.bodies.toList.map fun b => (b.method, bodyTexts h.symbols b)).flatMap
        (methodTexts h.symbols)

theorem bodilessLines_eq (h : Host) : bodilessLines h = if h.missing = [] then []
    else (h.missing.map fun m => ".extern " ++ h.symbols.signature m) ++ [""] := by
  unfold bodilessLines
  simp only
  split
  · next none_ => exact (if_pos none_).symm
  · next some_ => exact (if_neg some_).symm

/-- The reader finds these lines in the printed image. -/
theorem texts_print {h : Host} (sound : h.Sound) (plain : h.Plain) :
    (linesOf (print h)).map Line.text = imageTexts h := by
  refine texts_linesOf ?_
  have names := plain.names
  have classes : Reads (h.symbols.typeIds.flatMap (classLines h.symbols))
      (h.symbols.typeIds.flatMap h.symbols.classTexts) :=
    Reads.flatMap fun t member =>
      reads_class sound.symbols names sound.legible (SymbolTable.mem_typeIds.mp member)
  have externs : Reads (bodilessLines h)
      (h.missing.map fun m => ".extern".toList ++ ' ' :: (h.symbols.signature m).toList) := by
    rw [bodilessLines_eq]
    split
    · next none_ => rw [none_]; exact .nil
    · have lines : Reads (h.missing.map fun m => ".extern " ++ h.symbols.signature m)
          (h.missing.map fun m => ".extern".toList ++ ' ' :: (h.symbols.signature m).toList) := by
        refine Reads.map fun m member => ⟨?_, List.cons_ne_nil _ _⟩
        have known := SymbolTable.mem_methodIds.mp (List.mem_of_mem_filter member)
        refine shows_header sound.symbols names sound.legible.named (by decide) (by decide)
          (by decide) known ?_
        rw [String.toList_append]
        rfl
      have whole := lines.append Reads.blank
      rwa [List.append_nil] at whole
  have bodies : Reads (h.bodies.toList.flatMap fun b => bodyLines h.symbols b ++ [""])
      ((h.bodies.toList.map fun b => (b.method, bodyTexts h.symbols b)).flatMap
        (methodTexts h.symbols)) := by
    rw [List.flatMap_map]
    refine Reads.flatMap fun b member => ?_
    have read :=
      reads_body sound.symbols names sound.legible.named (sound.bodies b member).printable
    rw [← List.append_nil (methodTexts h.symbols (b.method, bodyTexts h.symbols b))]
    exact read.append Reads.blank
  exact (classes.append externs).append bodies

end Image

end HookSplice
