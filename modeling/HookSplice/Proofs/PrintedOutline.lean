import HookSplice.Proofs.PrintedSymbols

/-!
# The first pass over a printed image

A printed image declares its classes, then its methods without a body, then the others.  Each
declaration takes the reader from one point between two directives to the next: the table of an
arrangement becomes the table of the arrangement in which the declaration was made as well.
-/

namespace HookSplice

open Text (Solid Trimmed)
open SymbolTable (memberText)

namespace SymbolTable

variable {s : SymbolTable}

theorem mem_fieldsOf {t : TypeId} {f : FieldId} :
    f ∈ s.fieldsOf t ↔ s.hasField f ∧ (s.fieldRow f).owner = t := by
  unfold fieldsOf
  rw [List.mem_map]
  constructor
  · rintro ⟨⟨d, i⟩, member, rfl⟩
    obtain ⟨inside, owned⟩ := List.mem_filter.mp member
    have here := List.mem_zipIdx_iff_getElem?.mp inside
    have known : s.hasField ⟨i⟩ := decide_eq_true (List.getElem?_eq_some_iff.mp here).1
    have row := getElem?_fieldRow known
    rw [here, Option.some.injEq] at row
    exact ⟨known, by rw [← row]; exact eq_of_beq owned⟩
  · rintro ⟨known, rfl⟩
    refine ⟨(s.fieldRow f, f.index), List.mem_filter.mpr ⟨?_, beq_self_eq_true _⟩, rfl⟩
    exact List.mem_zipIdx_iff_getElem?.mpr (getElem?_fieldRow known)

theorem nodup_fieldsOf (s : SymbolTable) (t : TypeId) : (s.fieldsOf t).Nodup := by
  have positions : (s.fields.zipIdx.map Prod.snd).Nodup := by
    rw [List.zipIdx_map_snd]
    exact List.nodup_range'
  have some_ := positions.sublist ((List.filter_sublist (p := fun e => e.1.owner == t)).map
    Prod.snd)
  have handles := some_.map (f := FieldId.mk) fun i j same => congrArg FieldId.index same
  rwa [List.map_map] at handles

/-- The types that the declaration of a class mentions; a class without fields is not declared. -/
def classMentions (s : SymbolTable) (t : TypeId) : List TypeId :=
  if s.fieldsOf t = [] then [] else t :: (s.fieldsOf t).map fun f => (s.fieldRow f).type

/-- The lines that declare a class, as the reader sees them. -/
def classTexts (s : SymbolTable) (t : TypeId) : List (List Char) :=
  if s.fieldsOf t = [] then []
  else (".class".toList ++ ' ' :: (s.typeName t).toList) ::
    (((s.fieldsOf t).map fun f => ".field".toList ++ ' ' :: s.memberText (s.fieldRow f)) ++
      [".end".toList])

end SymbolTable

namespace Image

/-! ### Between directives -/

/-- What is known of a pending body: its method, and what its lines say. -/
def PendingBody.content (p : PendingBody) : MethodId × List (List Char) :=
  (p.method, p.lines.map Line.text)

/-- The reader expects a directive. -/
structure Outline.At (o : Outline) (symbols : SymbolTable)
    (pending : List (MethodId × List (List Char))) : Prop where
  symbols : o.symbols = symbols
  pending : o.pending.map PendingBody.content = pending
  state : o.state = .directive

/-- The lines with these texts take the reader from one directive to another. -/
def Advances (texts : List (List Char)) (symbols : SymbolTable)
    (pending : List (MethodId × List (List Char))) (symbols' : SymbolTable)
    (pending' : List (MethodId × List (List Char))) : Prop :=
  ∀ (o : Outline) (lines : List Line), o.At symbols pending → lines.map Line.text = texts →
    ∃ o', lines.foldlM readLine o = .ok o' ∧ o'.At symbols' pending'

section Advances

variable {symbols symbols' symbols'' : SymbolTable}
  {pending pending' pending'' : List (MethodId × List (List Char))}
  {texts texts' : List (List Char)}

theorem Advances.nil : Advances [] symbols pending symbols pending := by
  intro o lines at_ shape
  rw [List.map_eq_nil_iff] at shape
  exact ⟨o, by rw [shape]; rfl, at_⟩

theorem Advances.append (first : Advances texts symbols pending symbols' pending')
    (second : Advances texts' symbols' pending' symbols'' pending'') :
    Advances (texts ++ texts') symbols pending symbols'' pending'' := by
  intro o lines at_ shape
  obtain ⟨front, back, rfl, frontShape, backShape⟩ := List.map_eq_append_iff.mp shape
  obtain ⟨middle, reads, at_'⟩ := first o front at_ frontShape
  obtain ⟨last, reads', at_''⟩ := second middle back at_' backShape
  refine ⟨last, ?_, at_''⟩
  rw [List.foldlM_append, reads]
  exact reads'

end Advances

theorem Line.isEnd_eq_false {line : Line} (other : (Text.splitFirst line.text).1 ≠ ".end".toList) :
    line.isEnd = false := by
  refine beq_false_of_ne fun same => other ?_
  rw [same]
  decide

theorem Line.isEnd_eq_true {line : Line} (same : line.text = ".end".toList) : line.isEnd = true :=
  beq_iff_eq.mpr same

/-! ### Single lines -/

section Lines

variable {symbols symbols' : SymbolTable} {pending : List PendingBody} {line : Line}
  {rest : List Char}

theorem readLine_class (symbols : SymbolTable) (pending : List PendingBody)
    (split : Text.splitFirst line.text = (".class".toList, rest))
    (nonempty : rest ≠ []) : readLine ⟨symbols, pending, .directive⟩ line =
      .ok ⟨(symbols.internType (String.ofList rest)).2, pending,
        .members line (symbols.internType (String.ofList rest)).1⟩ := by
  unfold readLine readDirective
  dsimp only
  rw [split]
  exact (if_pos rfl).trans (if_neg (by simpa using nonempty))

theorem readLine_field {header : Line} {owner : TypeId}
    (split : Text.splitFirst line.text = (".field".toList, rest))
    (read : readField symbols owner rest = .ok symbols') :
    readLine ⟨symbols, pending, .members header owner⟩ line =
      .ok ⟨symbols', pending, .members header owner⟩ := by
  unfold readLine
  rw [Line.isEnd_eq_false (split ▸ (by decide : ".field".toList ≠ ".end".toList))]
  dsimp only
  rw [split]
  refine (if_neg Bool.false_ne_true).trans ((if_pos rfl).trans ?_)
  rw [read]

theorem readLine_closeClass {header : Line} {owner : TypeId} (text : line.text = ".end".toList) :
    readLine ⟨symbols, pending, .members header owner⟩ line =
      .ok ⟨symbols, pending, .directive⟩ := by
  unfold readLine
  rw [Line.isEnd_eq_true text]
  rfl

theorem readLine_extern {m : MethodId}
    (split : Text.splitFirst line.text = (".extern".toList, rest))
    (read : readSignature symbols rest = .ok (m, symbols')) :
    readLine ⟨symbols, pending, .directive⟩ line = .ok ⟨symbols', pending, .directive⟩ := by
  unfold readLine readDirective
  dsimp only
  rw [split]
  have notClass : ".extern".toList ≠ ".class".toList := by decide
  refine (if_neg notClass).trans ((if_pos rfl).trans ?_)
  rw [read]

theorem readLine_method {m : MethodId}
    (split : Text.splitFirst line.text = (".method".toList, rest))
    (read : readSignature symbols rest = .ok (m, symbols'))
    (first : ∀ p ∈ pending, p.method ≠ m) :
    readLine ⟨symbols, pending, .directive⟩ line =
      .ok ⟨symbols', pending, .body ⟨m, line, []⟩⟩ := by
  have fresh : (pending.any fun p => p.method == m) = false := by
    rw [List.any_eq_false]
    exact fun p member => by simpa using first p member
  unfold readLine readDirective
  dsimp only
  rw [split]
  have notClass : ".method".toList ≠ ".class".toList := by decide
  have notExtern : ".method".toList ≠ ".extern".toList := by decide
  refine (if_neg notClass).trans ((if_neg notExtern).trans ((if_pos rfl).trans ?_))
  rw [read]
  dsimp only
  rw [fresh]
  rfl

/-- The lines of a body are collected. -/
theorem readLines_body {p : PendingBody} {lines : List Line}
    (inner : ∀ line ∈ lines, line.text ≠ ".end".toList) :
    lines.foldlM readLine ⟨symbols, pending, .body p⟩ =
      .ok ⟨symbols, pending, .body { p with lines := p.lines ++ lines }⟩ := by
  induction lines generalizing p with
  | nil => rw [List.append_nil]; rfl
  | cons line rest ih =>
      have open_ : line.isEnd = false := beq_false_of_ne (inner line (List.mem_cons_self ..))
      have first : readLine ⟨symbols, pending, .body p⟩ line =
          .ok ⟨symbols, pending, .body { p with lines := p.lines ++ [line] }⟩ := by
        unfold readLine
        rw [open_]
        rfl
      rw [List.foldlM_cons, first, Except.ok_bind,
        ih fun next member => inner next (.tail _ member)]
      simp

theorem readLine_closeBody {p : PendingBody} (text : line.text = ".end".toList) :
    readLine ⟨symbols, pending, .body p⟩ line = .ok ⟨symbols, pending ++ [p], .directive⟩ := by
  unfold readLine
  rw [Line.isEnd_eq_true text]
  rfl

end Lines

section Declarations

variable {a : Arrangement} {s : SymbolTable} (sound : s.Sound) (plain : s.Plain)
  (legible : s.Legible)
include sound plain legible

theorem trimmed_memberText {f : FieldId} (known : s.hasField f) :
    Trimmed (s.memberText (s.fieldRow f)) := by
  have type := sound.type_known known
  have name := SymbolTable.toList_ne_nil (legible.fields _ (SymbolTable.fieldRow_mem known)).1
  exact trimmed_mark (trimmed_words (plain.type type).solid (legible.named.type type)
    (plain.field known).solid.trimmed name) (by simp)

omit legible in
theorem trimmed_signature (named : s.TypesNamed) {m : MethodId} (known : s.hasMethod m) :
    Trimmed (s.signature m).toList := by
  have types := sound.signature_known known
  obtain ⟨word, written⟩ := word_retText plain named types
  obtain ⟨trimmed, nonempty⟩ := trimmed_identity plain named types ", "
  rw [SymbolTable.toList_signature known]
  exact trimmed_mark (trimmed_words word.solid written trimmed nonempty) (by simp)

/-- The fields of one class are declared one behind the other. -/
theorem readMembers {t : TypeId} {fs : List FieldId} (drawn : a.Over s) (mentioned : t ∈ a.mentions)
    (owned : ∀ f ∈ fs, s.hasField f ∧ (s.fieldRow f).owner = t) (distinct : fs.Nodup)
    (new : ∀ f ∈ fs, f ∉ a.fields) (pending : List PendingBody) (header : Line) {lines : List Line}
    (shape : lines.map Line.text =
      fs.map fun f => ".field".toList ++ ' ' :: s.memberText (s.fieldRow f)) :
    lines.foldlM readLine ⟨a.table s, pending, .members header (a.type t)⟩ =
      .ok ⟨(a.adding (fs.map fun f => (s.fieldRow f).type) fs []).table s, pending,
        .members header (a.type t)⟩ := by
  induction fs generalizing a lines with
  | nil =>
      rw [List.map_eq_nil_iff.mp shape, List.map_nil, Arrangement.adding_nil]
      rfl
  | cons f rest ih =>
      obtain ⟨line, more, rfl, text, shape'⟩ := List.map_eq_cons_iff.mp shape
      obtain ⟨known, owner⟩ := owned f (List.mem_cons_self ..)
      obtain ⟨absent, distinct'⟩ := List.nodup_cons.mp distinct
      have split : Text.splitFirst line.text = (".field".toList, s.memberText (s.fieldRow f)) := by
        rw [text]
        exact Text.splitFirst_append (by decide) (trimmed_memberText sound plain legible known)
      have declared := readField_table drawn sound plain legible known
        (new f (List.mem_cons_self ..)) (owner ▸ mentioned)
      rw [owner] at declared
      have first : readLine ⟨a.table s, pending, .members header (a.type t)⟩ line = _ :=
        readLine_field split declared
      have typeKnown := sound.type_known known
      have drawn' : ((a.mention [(s.fieldRow f).type]).withField f).Over s := by
        rw [Arrangement.mention_withField]
        refine drawn.adding (by simpa using typeKnown) (fun g member => ?_)
          (fun _ member => absurd member List.not_mem_nil)
        rw [List.mem_singleton.mp member]
        exact ⟨known, List.mem_append_left _ (owner ▸ mentioned), List.mem_append_right _ (by simp)⟩
      have stays : ((a.mention [(s.fieldRow f).type]).withField f).type t = a.type t :=
        (a.below_mention _).type mentioned
      have later := ih drawn' (List.mem_append_left _ mentioned)
        (fun g member => owned g (.tail _ member)) distinct' (fun g member inside => by
          rcases List.mem_append.mp inside with old | this
          · exact new g (.tail _ member) old
          · rw [List.mem_singleton.mp this] at member
            exact absent member) shape'
      rw [stays, Arrangement.mention_withField, Arrangement.adding_adding] at later
      rw [List.foldlM_cons, first, Except.ok_bind, Arrangement.mention_withField]
      exact later

/-- A class with its fields is declared, unless it has none. -/
theorem advances_class (drawn : a.Over s) {t : TypeId} (known : s.hasType t)
    (new : ∀ f ∈ a.fields, (s.fieldRow f).owner ≠ t)
    (pending : List (MethodId × List (List Char))) :
    Advances (s.classTexts t) (a.table s) pending
      ((a.adding (s.classMentions t) (s.fieldsOf t) []).table s) pending := by
  unfold SymbolTable.classTexts SymbolTable.classMentions
  by_cases fieldless : s.fieldsOf t = []
  · rw [if_pos fieldless, if_pos fieldless, fieldless, Arrangement.adding_nil]
    exact .nil
  rw [if_neg fieldless, if_neg fieldless]
  intro o lines at_ shape
  obtain ⟨header, rest, rfl, headerText, restShape⟩ := List.map_eq_cons_iff.mp shape
  obtain ⟨members, closing, rfl, membersShape, closingShape⟩ := List.map_eq_append_iff.mp restShape
  obtain ⟨last, none_, rfl, lastText, noneShape⟩ := List.map_eq_cons_iff.mp closingShape
  obtain rfl := List.map_eq_nil_iff.mp noneShape
  have name := plain.type known
  have split : Text.splitFirst header.text = (".class".toList, (s.typeName t).toList) := by
    rw [headerText]
    exact Text.splitFirst_append (by decide) name.solid.trimmed
  have opened : o = ⟨a.table s, o.pending, .directive⟩ := by
    rw [← at_.symbols, ← at_.state]
  have first := readLine_class (a.table s) o.pending split
    (legible.named.type known)
  rw [String.ofList_toList, Arrangement.internType_table drawn sound known] at first
  have drawn' : (a.mention [t]).Over s := drawn.mention (by simpa using known)
  have declared := readMembers sound plain legible drawn'
    (List.mem_append_right _ (List.mem_singleton_self t))
    (fun f member => SymbolTable.mem_fieldsOf.mp member) (s.nodup_fieldsOf t)
    (fun f member old => new f old (SymbolTable.mem_fieldsOf.mp member).2) o.pending header
    membersShape
  rw [Arrangement.mention_eq, Arrangement.adding_adding] at declared
  refine ⟨⟨(a.adding (t :: (s.fieldsOf t).map fun f => (s.fieldRow f).type)
      (s.fieldsOf t) []).table s,
    o.pending, .directive⟩, ?_, ⟨rfl, at_.pending, rfl⟩⟩
  rw [opened, List.foldlM_cons, first, Except.ok_bind, List.foldlM_append, Arrangement.mention_eq,
    declared, Except.ok_bind, List.foldlM_cons, readLine_closeClass lastText]
  rfl

/-- A method without a body is declared. -/
theorem advances_extern (drawn : a.Over s) {m : MethodId} (known : s.hasMethod m)
    (new : m ∉ a.methods)
    (pending : List (MethodId × List (List Char))) :
    Advances [".extern".toList ++ ' ' :: (s.signature m).toList] (a.table s) pending
      ((a.adding (s.methodRow m).signature.types [] [m]).table s) pending := by
  intro o lines at_ shape
  obtain ⟨line, rest, rfl, text, restShape⟩ := List.map_eq_cons_iff.mp shape
  obtain rfl := List.map_eq_nil_iff.mp restShape
  have opened : o = ⟨a.table s, o.pending, .directive⟩ := by
    rw [← at_.symbols, ← at_.state]
  have split : Text.splitFirst line.text = (".extern".toList, (s.signature m).toList) := by
    rw [text]
    exact Text.splitFirst_append (by decide) (trimmed_signature sound plain legible.named known)
  have declared := readSignature_table drawn sound plain legible known new
  rw [Arrangement.mention_withMethod] at declared
  refine ⟨⟨_, o.pending, .directive⟩, ?_, ⟨rfl, at_.pending, rfl⟩⟩
  rw [opened, List.foldlM_cons, readLine_extern split declared]
  rfl

/-- A method with a body is declared, and the lines of its body are kept for later. -/
theorem advances_method (drawn : a.Over s) {m : MethodId} (known : s.hasMethod m)
    (new : m ∉ a.methods)
    {inner : List (List Char)} (open_ : ∀ text ∈ inner, text ≠ ".end".toList)
    {pending : List (MethodId × List (List Char))}
    (first : ∀ p ∈ pending, p.1 ≠ (a.withMethod m).method m) :
    Advances ((".method".toList ++ ' ' :: (s.signature m).toList) :: (inner ++ [".end".toList]))
      (a.table s) pending ((a.adding (s.methodRow m).signature.types [] [m]).table s)
      (pending ++ [((a.withMethod m).method m, inner)]) := by
  intro o lines at_ shape
  obtain ⟨header, rest, rfl, text, restShape⟩ := List.map_eq_cons_iff.mp shape
  obtain ⟨body, closing, rfl, bodyShape, closingShape⟩ := List.map_eq_append_iff.mp restShape
  obtain ⟨last, none_, rfl, lastText, noneShape⟩ := List.map_eq_cons_iff.mp closingShape
  obtain rfl := List.map_eq_nil_iff.mp noneShape
  have opened : o = ⟨a.table s, o.pending, .directive⟩ := by
    rw [← at_.symbols, ← at_.state]
  have split : Text.splitFirst header.text = (".method".toList, (s.signature m).toList) := by
    rw [text]
    exact Text.splitFirst_append (by decide) (trimmed_signature sound plain legible.named known)
  have declared := readSignature_table drawn sound plain legible known new
  rw [Arrangement.mention_withMethod] at declared
  have fresh : ∀ p ∈ o.pending, p.method ≠ (a.withMethod m).method m := by
    intro p member
    refine first (PendingBody.content p) ?_
    rw [← at_.pending]
    exact List.mem_map_of_mem member
  have inside : ∀ line ∈ body, line.text ≠ ".end".toList := by
    intro line member
    refine open_ line.text ?_
    rw [← bodyShape]
    exact List.mem_map_of_mem member
  refine ⟨⟨_, o.pending ++ [⟨(a.withMethod m).method m, header, body⟩], .directive⟩, ?_,
    ⟨rfl, ?_, rfl⟩⟩
  · rw [opened, List.foldlM_cons, readLine_method split declared fresh, Except.ok_bind,
      List.foldlM_append, readLines_body inside, Except.ok_bind, List.foldlM_cons,
      readLine_closeBody lastText]
    rfl
  · rw [List.map_append, at_.pending, List.map_singleton, PendingBody.content, bodyShape]

omit plain legible in
theorem over_class (drawn : a.Over s) {t : TypeId} (known : s.hasType t) :
    (a.adding (s.classMentions t) (s.fieldsOf t) []).Over s := by
  have mentioned : ∀ f ∈ s.fieldsOf t, (s.fieldRow f).owner ∈ s.classMentions t ∧
      (s.fieldRow f).type ∈ s.classMentions t := by
    intro f member
    unfold SymbolTable.classMentions
    rw [if_neg (List.ne_nil_of_mem member), (SymbolTable.mem_fieldsOf.mp member).2]
    exact ⟨List.mem_cons_self .., .tail _ (List.mem_map.mpr ⟨f, member, rfl⟩)⟩
  refine drawn.adding ?_ (fun f member => ?_) (fun _ member => absurd member List.not_mem_nil)
  · intro u member
    unfold SymbolTable.classMentions at member
    split at member
    · cases member
    rcases List.mem_cons.mp member with rfl | member
    · exact known
    · obtain ⟨f, here, rfl⟩ := List.mem_map.mp member
      exact sound.type_known (SymbolTable.mem_fieldsOf.mp here).1
  · exact ⟨(SymbolTable.mem_fieldsOf.mp member).1, List.mem_append_right _ (mentioned f member).1,
      List.mem_append_right _ (mentioned f member).2⟩

omit plain legible in
theorem over_method (drawn : a.Over s) {m : MethodId} (known : s.hasMethod m) :
    (a.adding (s.methodRow m).signature.types [] [m]).Over s := by
  refine drawn.adding (sound.signature_known known) (fun _ member => absurd member List.not_mem_nil)
    (fun n member => ?_)
  rw [List.mem_singleton.mp member]
  exact ⟨known, fun t here => List.mem_append_right _ here⟩

theorem advances_classes (drawn : a.Over s) {ts : List TypeId} (known : ∀ t ∈ ts, s.hasType t)
    (distinct : ts.Nodup) (new : ∀ f ∈ a.fields, (s.fieldRow f).owner ∉ ts)
    (pending : List (MethodId × List (List Char))) :
    Advances (ts.flatMap s.classTexts) (a.table s) pending
      ((a.adding (ts.flatMap s.classMentions) (ts.flatMap s.fieldsOf) []).table s) pending ∧
      (a.adding (ts.flatMap s.classMentions) (ts.flatMap s.fieldsOf) []).Over s := by
  induction ts generalizing a with
  | nil =>
      simp only [List.flatMap_nil, Arrangement.adding_nil]
      exact ⟨.nil, drawn⟩
  | cons t rest ih =>
      obtain ⟨absent, distinct'⟩ := List.nodup_cons.mp distinct
      have here := known t (List.mem_cons_self ..)
      have first := advances_class sound plain legible drawn here
        (fun f member same => new f member (same ▸ List.mem_cons_self ..)) pending
      obtain ⟨later, drawn'⟩ := ih (over_class sound drawn here)
        (fun u member => known u (.tail _ member)) distinct' (fun f member inside => by
          rcases List.mem_append.mp member with old | this
          · exact new f old (.tail _ inside)
          · rw [(SymbolTable.mem_fieldsOf.mp this).2] at inside
            exact absent inside)
      rw [Arrangement.adding_adding] at later drawn'
      exact ⟨first.append later, drawn'⟩

theorem advances_externs (drawn : a.Over s) {ms : List MethodId} (known : ∀ m ∈ ms, s.hasMethod m)
    (distinct : ms.Nodup) (new : ∀ m ∈ a.methods, m ∉ ms)
    (pending : List (MethodId × List (List Char))) :
    Advances (ms.map fun m => ".extern".toList ++ ' ' :: (s.signature m).toList) (a.table s) pending
      ((a.adding (ms.flatMap fun m => (s.methodRow m).signature.types) [] ms).table s) pending ∧
      (a.adding (ms.flatMap fun m => (s.methodRow m).signature.types) [] ms).Over s := by
  induction ms generalizing a with
  | nil =>
      simp only [List.flatMap_nil, Arrangement.adding_nil]
      exact ⟨.nil, drawn⟩
  | cons m rest ih =>
      obtain ⟨absent, distinct'⟩ := List.nodup_cons.mp distinct
      have here := known m (List.mem_cons_self ..)
      have first := advances_extern sound plain legible drawn here
        (fun old => new m old (List.mem_cons_self ..)) pending
      obtain ⟨later, drawn'⟩ := ih (over_method sound drawn here)
        (fun n member => known n (.tail _ member)) distinct' (fun n member inside => by
          rcases List.mem_append.mp member with old | this
          · exact new n old (.tail _ inside)
          · rw [List.mem_singleton.mp this] at inside
            exact absent inside)
      rw [Arrangement.adding_adding] at later drawn'
      exact ⟨first.append later, drawn'⟩

/-- The lines of a method with its body, as the reader sees them. -/
def methodTexts (s : SymbolTable) (p : MethodId × List (List Char)) : List (List Char) :=
  (".method".toList ++ ' ' :: (s.signature p.1).toList) :: (p.2 ++ [".end".toList])

/-- Methods with their bodies; `z` is any later arrangement. -/
theorem advances_methods (drawn : a.Over s) {ps : List (MethodId × List (List Char))}
    (known : ∀ p ∈ ps, s.hasMethod p.1 ∧ ∀ text ∈ p.2, text ≠ ".end".toList)
    (distinct : (ps.map Prod.fst).Nodup) (new : ∀ m ∈ a.methods, m ∉ ps.map Prod.fst)
    {pending : List (MethodId × List (List Char))}
    (earlier : ∀ p ∈ pending, p.1.index < a.methods.length) {z : Arrangement}
    (below : (a.adding ((ps.map Prod.fst).flatMap fun m => (s.methodRow m).signature.types) []
      (ps.map Prod.fst)).Below z) :
    Advances (ps.flatMap (methodTexts s)) (a.table s) pending
      ((a.adding ((ps.map Prod.fst).flatMap fun m => (s.methodRow m).signature.types) []
        (ps.map Prod.fst)).table s) (pending ++ ps.map fun p => (z.method p.1, p.2)) ∧
      (a.adding ((ps.map Prod.fst).flatMap fun m => (s.methodRow m).signature.types) []
        (ps.map Prod.fst)).Over s := by
  induction ps generalizing a pending with
  | nil =>
      simp only [List.flatMap_nil, List.map_nil, Arrangement.adding_nil, List.append_nil]
      exact ⟨.nil, drawn⟩
  | cons p rest ih =>
      obtain ⟨absent, distinct'⟩ := List.nodup_cons.mp distinct
      obtain ⟨here, open_⟩ := known p (List.mem_cons_self ..)
      have fresh : p.1 ∉ a.methods := fun old => new p.1 old (List.mem_cons_self ..)
      have index : ((a.withMethod p.1).method p.1).index = a.methods.length := by
        rw [Arrangement.method, Arrangement.withMethod, List.idxOf_append, if_neg fresh]
        simp
      have first := advances_method sound plain legible drawn here fresh open_
        (fun q (member : q ∈ pending) same => by
          have := earlier q member
          rw [same, index] at this
          omega)
      rw [List.map_cons, List.flatMap_cons, ← Arrangement.adding_method] at below
      have stays : z.method p.1 = (a.withMethod p.1).method p.1 := by
        have declared : p.1 ∈ (a.adding (s.methodRow p.1).signature.types [] [p.1]).methods :=
          List.mem_append_right _ (List.mem_singleton_self p.1)
        exact (((a.adding (s.methodRow p.1).signature.types [] [p.1]).below_adding _ _ _).trans
          below).method declared
      obtain ⟨later, drawn'⟩ := ih (over_method sound drawn here)
        (fun q member => known q (.tail _ member)) distinct' (fun n member inside => by
          rcases List.mem_append.mp member with old | this
          · exact new n old (.tail _ inside)
          · rw [List.mem_singleton.mp this] at inside
            exact absent inside)
        (fun q (member : q ∈ pending ++ [((a.withMethod p.1).method p.1, p.2)]) => by
          have grown : (a.adding (s.methodRow p.1).signature.types [] [p.1]).methods.length =
              a.methods.length + 1 := by simp [Arrangement.adding]
          rw [grown]
          rcases List.mem_append.mp member with old | this
          · have := earlier q old
            omega
          · rw [List.mem_singleton.mp this]
            simp only [index]
            omega) below
      rw [Arrangement.adding_adding] at later drawn'
      refine ⟨?_, drawn'⟩
      have joined := first.append later
      rw [← stays, List.append_assoc, List.singleton_append] at joined
      exact joined

/-- The first pass over the lines of an image in which each method of `ms` has no body, and each
    one of `ps` has the lines that go with it. -/
theorem readOutline_printed {ms : List MethodId} {ps : List (MethodId × List (List Char))}
    (known : ∀ m ∈ ms, s.hasMethod m)
    (known' : ∀ p ∈ ps, s.hasMethod p.1 ∧ ∀ text ∈ p.2, text ≠ ".end".toList)
    (distinct : (ms ++ ps.map Prod.fst).Nodup) {z : Arrangement}
    (mentions : z.mentions = s.typeIds.flatMap s.classMentions ++
      (ms ++ ps.map Prod.fst).flatMap fun m => (s.methodRow m).signature.types)
    (fields : z.fields = s.typeIds.flatMap s.fieldsOf) (methods : z.methods = ms ++ ps.map Prod.fst)
    {lines : List Line} (shape : lines.map Line.text = s.typeIds.flatMap s.classTexts ++
      (ms.map fun m => ".extern".toList ++ ' ' :: (s.signature m).toList) ++
      ps.flatMap (methodTexts s)) :
    z.Over s ∧ ∃ pending, readOutline lines = .ok (z.table s, pending) ∧
      pending.map PendingBody.content = ps.map fun p => (z.method p.1, p.2) := by
  obtain ⟨distinctMs, distinctPs, apart⟩ := List.nodup_append'.mp distinct
  obtain ⟨classes, drawn⟩ := advances_classes sound plain legible (Arrangement.over_empty s)
    (fun _ member => SymbolTable.mem_typeIds.mp member) s.nodup_typeIds
    (fun _ member => absurd member List.not_mem_nil) []
  obtain ⟨externs, drawn'⟩ := advances_externs sound plain legible drawn known distinctMs
    (fun _ member => absurd member List.not_mem_nil) []
  rw [Arrangement.adding_adding] at externs drawn'
  have whole : ((Arrangement.empty.adding (s.typeIds.flatMap s.classMentions ++
      ms.flatMap fun m => (s.methodRow m).signature.types) (s.typeIds.flatMap s.fieldsOf ++ [])
      ([] ++ ms)).adding ((ps.map Prod.fst).flatMap fun m => (s.methodRow m).signature.types) []
      (ps.map Prod.fst)) = z := by
    obtain ⟨zMentions, zFields, zMethods⟩ := z
    dsimp only at mentions fields methods
    rw [mentions, fields, methods]
    simp [Arrangement.adding, Arrangement.empty]
  obtain ⟨bodies, drawn''⟩ := advances_methods sound plain legible drawn' known' distinctPs
    (fun m member inside => apart member inside)
    (fun p (member : p ∈ []) => absurd member List.not_mem_nil) (z := z)
    (whole ▸ Arrangement.Below.refl _)
  rw [whole] at bodies drawn''
  have start : Outline.At ⟨.empty, [], .directive⟩ (Arrangement.empty.table s) [] := ⟨rfl, rfl, rfl⟩
  obtain ⟨o, reads, at_⟩ := ((classes.append externs).append bodies) _ lines start shape
  refine ⟨drawn'', o.pending, ?_, at_.pending⟩
  unfold readOutline
  rw [reads, Except.ok_bind, at_.state, at_.symbols]
  rfl

end Declarations

end Image

end HookSplice
