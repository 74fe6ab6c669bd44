import HookSplice.Proofs.SoundSymbols

/-!
# Symbols in another order

A printed image declares the symbols of a host in an order of its own: types as they are first
mentioned, fields class by class, methods without a body before the others.  An arrangement is such
an order, and `table` is the symbol table that results from it; its handles are positions in the
order.  Each declaration of the reader takes the table of one arrangement to the table of the next.
-/

namespace HookSplice

theorem findIdx?_unique {α : Type} [DecidableEq α] {p : α → Bool} {xs : List α} {x : α}
    (only : ∀ y ∈ xs, p y = true ↔ y = x) :
    xs.findIdx? p = if x ∈ xs then some (xs.idxOf x) else none := by
  induction xs with
  | nil => rfl
  | cons y rest ih =>
      have first := only y (List.mem_cons_self ..)
      rw [List.findIdx?_cons, ih fun z member => only z (.tail _ member)]
      by_cases equal : y = x
      · rw [if_pos (first.mpr equal), equal, if_pos (List.mem_cons_self ..), List.idxOf_cons_self]
      · rw [if_neg (mt first.mp equal), List.idxOf_cons, beq_false_of_ne equal]
        by_cases member : x ∈ rest
        · rw [if_pos member, if_pos (.tail _ member)]
          rfl
        · rw [if_neg member, if_neg (by simp [Ne.symm equal, member])]
          rfl

/-- An order of declaration; a type may be mentioned many times. -/
structure Arrangement where
  mentions : List TypeId
  fields : List FieldId
  methods : List MethodId

namespace Arrangement

/-! ### Handles -/

/-- The types in the order of their first mention. -/
def types (a : Arrangement) : List TypeId :=
  a.mentions.eraseDups

/-- The new handle of a type. -/
def type (a : Arrangement) (t : TypeId) : TypeId :=
  ⟨a.types.idxOf t⟩

/-- The new handle of a field. -/
def field (a : Arrangement) (f : FieldId) : FieldId :=
  ⟨a.fields.idxOf f⟩

/-- The new handle of a method. -/
def method (a : Arrangement) (m : MethodId) : MethodId :=
  ⟨a.methods.idxOf m⟩

/-- A field definition with new handles. -/
def fieldDef (a : Arrangement) (d : FieldDef) : FieldDef :=
  ⟨a.type d.owner, d.name, a.type d.type, d.isStatic⟩

/-- A signature with new handles. -/
def methodDef (a : Arrangement) (m : MethodDef) : MethodDef :=
  ⟨a.type m.owner, m.name, m.params.map a.type, m.ret.map a.type, m.isStatic⟩

/-- An entry of the method table with new handles; the key stays. -/
def entry (a : Arrangement) (e : MethodEntry) : MethodEntry :=
  ⟨a.methodDef e.signature, e.key⟩

/-- The symbols of `s`, declared in this order. -/
def table (a : Arrangement) (s : SymbolTable) : SymbolTable where
  typeNames := a.types.map s.typeName
  fields := a.fields.map fun f => a.fieldDef (s.fieldRow f)
  methods := a.methods.map fun m => a.entry (s.methodRow m)

/-- The arrangement in which some types have been mentioned as well. -/
def mention (a : Arrangement) (ts : List TypeId) : Arrangement :=
  { a with mentions := a.mentions ++ ts }

/-- The arrangement in which a field has been declared as well. -/
def withField (a : Arrangement) (f : FieldId) : Arrangement :=
  { a with fields := a.fields ++ [f] }

/-- The arrangement in which a method has been declared as well. -/
def withMethod (a : Arrangement) (m : MethodId) : Arrangement :=
  { a with methods := a.methods ++ [m] }

/-- The arrangement with some mentions, fields and methods behind its own. -/
def adding (a : Arrangement) (ts : List TypeId) (fs : List FieldId) (ms : List MethodId) :
    Arrangement :=
  ⟨a.mentions ++ ts, a.fields ++ fs, a.methods ++ ms⟩

/-- The arrangement in which nothing is declared. -/
def empty : Arrangement :=
  ⟨[], [], []⟩

theorem mention_mention (a : Arrangement) (ts ts' : List TypeId) :
    (a.mention ts).mention ts' = a.mention (ts ++ ts') := by
  rw [mention, mention, mention, List.append_assoc]

theorem adding_adding (a : Arrangement) (ts ts' : List TypeId) (fs fs' : List FieldId)
    (ms ms' : List MethodId) :
    (a.adding ts fs ms).adding ts' fs' ms' = a.adding (ts ++ ts') (fs ++ fs') (ms ++ ms') := by
  simp only [adding, List.append_assoc]

theorem adding_method (a : Arrangement) (ts ts' : List TypeId) (m : MethodId)
    (ms : List MethodId) :
    (a.adding ts [] [m]).adding ts' [] ms = a.adding (ts ++ ts') [] (m :: ms) :=
  adding_adding ..

theorem adding_nil (a : Arrangement) : a.adding [] [] [] = a := by
  simp only [adding, List.append_nil]

theorem mention_eq (a : Arrangement) (ts : List TypeId) : a.mention ts = a.adding ts [] [] := by
  simp only [mention, adding, List.append_nil]

theorem mention_withField (a : Arrangement) (ts : List TypeId) (f : FieldId) :
    (a.mention ts).withField f = a.adding ts [f] [] := by
  simp only [mention, withField, adding, List.append_nil]

theorem mention_withMethod (a : Arrangement) (ts : List TypeId) (m : MethodId) :
    (a.mention ts).withMethod m = a.adding ts [] [m] := by
  simp only [mention, withMethod, adding, List.append_nil]

theorem mem_types {a : Arrangement} {t : TypeId} : t ∈ a.types ↔ t ∈ a.mentions :=
  List.mem_eraseDups

theorem type_inj {a : Arrangement} {t t' : TypeId} (mentioned : t ∈ a.mentions)
    (same : a.type t = a.type t') : t = t' :=
  List.idxOf_inj (mem_types.mpr mentioned) |>.mp (congrArg TypeId.index same)

/-- The second arrangement goes on where the first one ends. -/
structure Below (a z : Arrangement) : Prop where
  mentions : a.mentions <+: z.mentions
  fields : a.fields <+: z.fields
  methods : a.methods <+: z.methods

theorem Below.refl (a : Arrangement) : a.Below a :=
  ⟨List.prefix_rfl, List.prefix_rfl, List.prefix_rfl⟩

theorem Below.trans {a b z : Arrangement} (first : a.Below b) (second : b.Below z) : a.Below z :=
  ⟨first.mentions.trans second.mentions, first.fields.trans second.fields,
    first.methods.trans second.methods⟩

theorem below_mention (a : Arrangement) (ts : List TypeId) : a.Below (a.mention ts) :=
  ⟨List.prefix_append _ _, List.prefix_rfl, List.prefix_rfl⟩

theorem below_adding (a : Arrangement) (ts : List TypeId) (fs : List FieldId)
    (ms : List MethodId) : a.Below (a.adding ts fs ms) :=
  ⟨List.prefix_append _ _, List.prefix_append _ _, List.prefix_append _ _⟩

section Below

variable {a z : Arrangement} (below : a.Below z)
include below

/-- A handle that has been given out stays. -/
theorem Below.type {t : TypeId} (mentioned : t ∈ a.mentions) : z.type t = a.type t := by
  obtain ⟨more, longer⟩ := below.mentions
  have first : t ∈ a.mentions.eraseDups := List.mem_eraseDups.mpr mentioned
  rw [Arrangement.type, Arrangement.type, types, types, ← longer, List.eraseDups_append,
    List.idxOf_append, if_pos first]

theorem Below.field {f : FieldId} (declared : f ∈ a.fields) : z.field f = a.field f := by
  obtain ⟨more, longer⟩ := below.fields
  rw [Arrangement.field, Arrangement.field, ← longer, List.idxOf_append, if_pos declared]

theorem Below.method {m : MethodId} (declared : m ∈ a.methods) : z.method m = a.method m := by
  obtain ⟨more, longer⟩ := below.methods
  rw [Arrangement.method, Arrangement.method, ← longer, List.idxOf_append, if_pos declared]

theorem Below.fieldDef {d : FieldDef} (owner : d.owner ∈ a.mentions) (type : d.type ∈ a.mentions) :
    z.fieldDef d = a.fieldDef d := by
  rw [Arrangement.fieldDef, Arrangement.fieldDef, below.type owner, below.type type]

theorem Below.methodDef {m : MethodDef} (mentioned : ∀ t ∈ m.types, t ∈ a.mentions) :
    z.methodDef m = a.methodDef m := by
  have owner := below.type (mentioned m.owner (List.mem_cons_self ..))
  have params : m.params.map z.type = m.params.map a.type :=
    List.map_congr_left fun t member =>
      below.type (mentioned t (.tail _ (List.mem_append_left _ member)))
  have ret : m.ret.map z.type = m.ret.map a.type :=
    Option.map_congr fun t member =>
      below.type (mentioned t (.tail _ (List.mem_append_right _ (Option.mem_toList.mpr member))))
  rw [Arrangement.methodDef, Arrangement.methodDef, owner, params, ret]

end Below

/-! ### Tables -/

/-- The arrangement is one of symbols of `s`, and mentions the types of what it declares. -/
structure Over (a : Arrangement) (s : SymbolTable) : Prop where
  types : ∀ t ∈ a.mentions, s.hasType t
  fields : ∀ f ∈ a.fields, s.hasField f ∧ (s.fieldRow f).owner ∈ a.mentions ∧
    (s.fieldRow f).type ∈ a.mentions
  methods : ∀ m ∈ a.methods, s.hasMethod m ∧
    ∀ t ∈ (s.methodRow m).signature.types, t ∈ a.mentions

theorem over_empty (s : SymbolTable) : empty.Over s :=
  ⟨fun _ member => absurd member List.not_mem_nil, fun _ member => absurd member List.not_mem_nil,
    fun _ member => absurd member List.not_mem_nil⟩

section Over

variable {a : Arrangement} {s : SymbolTable} (drawn : a.Over s)
include drawn

theorem Over.adding {ts : List TypeId} {fs : List FieldId} {ms : List MethodId}
    (types : ∀ t ∈ ts, s.hasType t)
    (fields : ∀ f ∈ fs, s.hasField f ∧ (s.fieldRow f).owner ∈ a.mentions ++ ts ∧
      (s.fieldRow f).type ∈ a.mentions ++ ts)
    (methods : ∀ m ∈ ms, s.hasMethod m ∧
      ∀ t ∈ (s.methodRow m).signature.types, t ∈ a.mentions ++ ts) :
    (a.adding ts fs ms).Over s where
  types := fun t member => (List.mem_append.mp member).elim (drawn.types t) (types t)
  fields := fun f member => by
    rcases List.mem_append.mp member with member | member
    · obtain ⟨declared, owner, type⟩ := drawn.fields f member
      exact ⟨declared, List.mem_append_left _ owner, List.mem_append_left _ type⟩
    · exact fields f member
  methods := fun m member => by
    rcases List.mem_append.mp member with member | member
    · obtain ⟨declared, mentioned⟩ := drawn.methods m member
      exact ⟨declared, fun t here => List.mem_append_left _ (mentioned t here)⟩
    · exact methods m member

theorem Over.mention {ts : List TypeId} (known : ∀ t ∈ ts, s.hasType t) :
    (a.mention ts).Over s := by
  rw [mention_eq]
  exact drawn.adding known (fun _ member => absurd member List.not_mem_nil)
    (fun _ member => absurd member List.not_mem_nil)

omit drawn in
theorem getElem?_types {t : TypeId} (mentioned : t ∈ a.mentions) :
    a.types[(a.type t).index]? = some t := by
  have below := List.idxOf_lt_length_of_mem (mem_types.mpr mentioned)
  rw [type, List.getElem?_eq_getElem below, List.getElem_idxOf]

omit drawn in
/-- A mentioned type keeps its name under its new handle. -/
theorem typeName_table {t : TypeId} (mentioned : t ∈ a.mentions) :
    (a.table s).typeName (a.type t) = s.typeName t := by
  refine SymbolTable.typeName_eq ?_
  rw [table, List.getElem?_map, getElem?_types mentioned, Option.map_some]

omit drawn in
theorem hasType_table {t : TypeId} (mentioned : t ∈ a.mentions) :
    (a.table s).hasType (a.type t) := by
  rw [SymbolTable.hasType_iff, table, List.length_map]
  exact List.idxOf_lt_length_of_mem (mem_types.mpr mentioned)

omit drawn in
theorem identity_table {m : MethodDef} (mentioned : ∀ t ∈ m.types, t ∈ a.mentions)
    (separator : String) :
    (a.table s).identity separator (a.methodDef m) = s.identity separator m := by
  have owner := typeName_table (s := s) (mentioned m.owner (List.mem_cons_self ..))
  have params : (m.params.map a.type).map (a.table s).typeName = m.params.map s.typeName := by
    rw [List.map_map]
    exact List.map_congr_left fun t member =>
      typeName_table (mentioned t (.tail _ (List.mem_append_left _ member)))
  rw [SymbolTable.identity, SymbolTable.identity, methodDef]
  simp only [owner, params]

theorem typeId?_table (sound : s.Sound) {t : TypeId} (known : s.hasType t) :
    (a.table s).typeId? (s.typeName t) = if t ∈ a.mentions then some (a.type t) else none := by
  have only : ∀ u ∈ a.types, (s.typeName u == s.typeName t) = true ↔ u = t := by
    intro u member
    rw [beq_iff_eq]
    exact ⟨sound.type_ext (drawn.types u (mem_types.mp member)) known, congrArg _⟩
  unfold SymbolTable.typeId? table
  rw [List.findIdx?_map]
  show Option.map TypeId.mk (a.types.findIdx? fun u => s.typeName u == s.typeName t) = _
  rw [findIdx?_unique only]
  simp only [mem_types]
  split <;> rfl

omit drawn in
theorem types_mention (t : TypeId) :
    (a.mention [t]).types = if t ∈ a.mentions then a.types else a.types ++ [t] := by
  have single : [t].eraseDups = [t] := by rw [List.eraseDups_cons]; rfl
  rw [types, mention, List.eraseDups_append]
  by_cases mentioned : t ∈ a.mentions <;> simp [List.removeAll, mentioned, types, single]

/-- Mentioning a type that is new puts it behind the others; the rows stay. -/
theorem table_mention (t : TypeId) : (a.mention [t]).table s =
    if t ∈ a.mentions then a.table s
    else { a.table s with typeNames := (a.table s).typeNames ++ [s.typeName t] } := by
  have below := a.below_mention [t]
  have fields : a.fields.map (fun f => (a.mention [t]).fieldDef (s.fieldRow f)) =
      a.fields.map fun f => a.fieldDef (s.fieldRow f) :=
    List.map_congr_left fun f member =>
      below.fieldDef (drawn.fields f member).2.1 (drawn.fields f member).2.2
  have methods : a.methods.map (fun m => (a.mention [t]).entry (s.methodRow m)) =
      a.methods.map fun m => a.entry (s.methodRow m) :=
    List.map_congr_left fun m member => by
      rw [entry, entry, below.methodDef (drawn.methods m member).2]
  unfold table
  rw [types_mention]
  show SymbolTable.mk _ (a.fields.map _) (a.methods.map _) = _
  rw [fields, methods]
  split <;> simp

/-- Interning the name of a type mentions it. -/
theorem internType_table (sound : s.Sound) {t : TypeId} (known : s.hasType t) :
    (a.table s).internType (s.typeName t) = ((a.mention [t]).type t, (a.mention [t]).table s) := by
  unfold SymbolTable.internType
  rw [typeId?_table drawn sound known, table_mention drawn]
  by_cases mentioned : t ∈ a.mentions
  · rw [if_pos mentioned, if_pos mentioned, (a.below_mention [t]).type mentioned]
  · rw [if_neg mentioned, if_neg mentioned]
    refine Prod.ext ?_ rfl
    show (⟨(a.table s).typeNames.length⟩ : TypeId) = (a.mention [t]).type t
    rw [type, types_mention, if_neg mentioned, List.idxOf_append,
      if_neg (mt mem_types.mp mentioned), table]
    simp

theorem internTypes_table (sound : s.Sound) {ts : List TypeId} (known : ∀ t ∈ ts, s.hasType t) :
    (a.table s).internTypes (ts.map s.typeName) =
      (ts.map (a.mention ts).type, (a.mention ts).table s) := by
  induction ts generalizing a with
  | nil =>
      rw [mention, List.append_nil]
      rfl
  | cons t rest ih =>
      have first := known t (List.mem_cons_self ..)
      have others : ∀ u ∈ rest, s.hasType u := fun u member => known u (.tail _ member)
      have drawn' : (a.mention [t]).Over s := drawn.mention fun u member => by
        rwa [List.mem_singleton.mp member]
      have stays : (a.mention (t :: rest)).type t = (a.mention [t]).type t := by
        have below := (a.mention [t]).below_mention rest
        rw [mention_mention] at below
        exact below.type (List.mem_append_right _ (List.mem_singleton_self t))
      rw [List.map_cons, SymbolTable.internTypes, internType_table drawn sound first]
      simp only
      rw [ih drawn' others, mention_mention, List.singleton_append, List.map_cons, stays]

/-- Declaring a field anew puts it behind the others. -/
theorem declareField_table (sound : s.Sound) {f : FieldId} (known : s.hasField f)
    (new : f ∉ a.fields) (owner : (s.fieldRow f).owner ∈ a.mentions) :
    (a.table s).declareField (a.fieldDef (s.fieldRow f)) =
      .ok ((a.withField f).field f, (a.withField f).table s) := by
  have absent : (a.table s).fieldOf? (a.type (s.fieldRow f).owner) (s.fieldRow f).name = none := by
    unfold SymbolTable.fieldOf? table
    rw [List.findIdx?_map, Option.map_eq_none_iff, List.findIdx?_eq_none_iff]
    intro g member
    obtain ⟨declared, ownerG, -⟩ := drawn.fields g member
    show (a.type (s.fieldRow g).owner == a.type (s.fieldRow f).owner &&
      (s.fieldRow g).name == (s.fieldRow f).name) = false
    rw [Bool.and_eq_false_imp, beq_iff_eq]
    intro owned
    refine beq_false_of_ne fun named => new ?_
    rwa [← sound.field_ext declared known (type_inj ownerG owned) named]
  have index : (a.withField f).field f = ⟨a.fields.length⟩ := by
    rw [field, Arrangement.withField, List.idxOf_append, if_neg new]
    simp
  rw [SymbolTable.declareField_new absent (hasType_table owner), index, table, table,
    List.length_map]
  refine congrArg Except.ok (Prod.ext rfl ?_)
  simp only [Arrangement.withField, List.map_append, List.map_singleton]
  rfl

/-- Declaring a method anew puts it behind the others. -/
theorem declareMethod_table (sound : s.Sound) {m : MethodId} (known : s.hasMethod m)
    (new : m ∉ a.methods) (mentioned : ∀ t ∈ (s.methodRow m).signature.types, t ∈ a.mentions) :
    (a.table s).declareMethod (a.methodDef (s.methodRow m).signature) =
      .ok ((a.withMethod m).method m, (a.withMethod m).table s) := by
  have key : (a.table s).identity "," (a.methodDef (s.methodRow m).signature) =
      (s.methodRow m).key := by
    rw [identity_table mentioned, sound.key_eq known]
  have absent : (a.table s).methodOfKey? (s.methodRow m).key = none := by
    unfold SymbolTable.methodOfKey? table
    rw [List.findIdx?_map, Option.map_eq_none_iff, List.findIdx?_eq_none_iff]
    intro n member
    refine beq_false_of_ne fun same => new ?_
    rwa [← sound.method_ext (drawn.methods n member).1 known same]
  have owner : (a.table s).hasType (a.methodDef (s.methodRow m).signature).owner :=
    hasType_table (mentioned _ (List.mem_cons_self ..))
  have index : (a.withMethod m).method m = ⟨a.methods.length⟩ := by
    rw [method, Arrangement.withMethod, List.idxOf_append, if_neg new]
    simp
  rw [← key] at absent
  rw [SymbolTable.declareMethod_new absent owner, key, index, table, table, List.length_map]
  refine congrArg Except.ok (Prod.ext rfl ?_)
  simp only [Arrangement.withMethod, List.map_append, List.map_singleton]
  rfl

end Over

/-! ### Rows of the new table -/

section Rows

variable {a : Arrangement} {s : SymbolTable}

theorem field?_table {f : FieldId} (declared : f ∈ a.fields) :
    (a.table s).field? (a.field f) = some (a.fieldDef (s.fieldRow f)) := by
  have below := List.idxOf_lt_length_of_mem declared
  rw [SymbolTable.field?, table, List.getElem?_map, field, List.getElem?_eq_getElem below,
    List.getElem_idxOf, Option.map_some]

theorem methods_table {m : MethodId} (declared : m ∈ a.methods) :
    (a.table s).methods[(a.method m).index]? = some (a.entry (s.methodRow m)) := by
  have below := List.idxOf_lt_length_of_mem declared
  rw [table, List.getElem?_map, method, List.getElem?_eq_getElem below,
    List.getElem_idxOf, Option.map_some]

theorem method?_table {m : MethodId} (declared : m ∈ a.methods) :
    (a.table s).method? (a.method m) = some (a.methodDef (s.methodRow m).signature) := by
  rw [SymbolTable.method?, methods_table declared]
  rfl

end Rows

end Arrangement

end HookSplice
