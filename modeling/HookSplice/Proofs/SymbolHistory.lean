import HookSplice.Proofs.MethodKeys

/-!
# What a symbol table owes to the calls that built it

A table is built by three calls, each with handles that earlier calls gave.  It remembers them
exactly: a handle denotes what was declared by the calls that gave it, and goes on denoting it; two
calls give one handle when they declare one type, one field of a type, or one method with its
parameters, and a call that cannot have such a handle changes nothing.  Methods are found by their
keys, so all this rests on keys that can be read in one way only.
-/

namespace HookSplice

open Text (isBlank)

/-! ### Lookups -/

/-- A search by a property that no two rows share finds the row that has it. -/
theorem findIdx?_eq_some_iff_of_nodup {α β : Type} {xs : List α} {f : α → β}
    (nodup : (xs.map f).Nodup) {p : α → Bool} {y : β} (decides : ∀ x, p x = true ↔ f x = y)
    {i : Nat} : xs.findIdx? p = some i ↔ ∃ x, xs[i]? = some x ∧ f x = y := by
  rw [List.findIdx?_eq_some_iff_getElem]
  constructor
  · rintro ⟨below, here, -⟩
    exact ⟨xs[i], List.getElem?_eq_getElem below, (decides _).mp here⟩
  · rintro ⟨x, here, rfl⟩
    obtain ⟨below, rfl⟩ := List.getElem?_eq_some_iff.mp here
    refine ⟨below, (decides _).mpr rfl, fun j less satisfied => ?_⟩
    have same : (xs.map f)[j]? = (xs.map f)[i]? := by
      rw [List.getElem?_map, List.getElem?_map, here, List.getElem?_eq_getElem (less.trans below),
        Option.map_some, Option.map_some, (decides _).mp satisfied]
    have := (List.getElem?_inj (by rw [List.length_map]; exact less.trans below) nodup).mp same
    omega

namespace SymbolTable

variable {s s' : SymbolTable}

/-- The three lookups find exactly the rows of the three arenas. -/
structure Mirrored (s : SymbolTable) : Prop where
  types : ∀ {name : String} {t : TypeId},
    s.typeId? name = some t ↔ s.typeNames[t.index]? = some name
  fields : ∀ {owner : TypeId} {name : String} {f : FieldId},
    s.fieldOf? owner name = some f ↔ ∃ d, s.field? f = some d ∧ d.owner = owner ∧ d.name = name
  methods : ∀ {key : String} {id : MethodId},
    s.methodOfKey? key = some id ↔ ∃ m, s.method? id = some m ∧ s.identity "," m = key

/-- What a lookup gives as a handle, by its position. -/
theorem map_handle_eq_some {Handle : Type} {mk : Nat → Handle} {index : Handle → Nat}
    (mk_index : ∀ h, mk (index h) = h) (index_mk : ∀ i, index (mk i) = i) {found : Option Nat}
    {h : Handle} : found.map mk = some h ↔ found = some (index h) := by
  rw [Option.map_eq_some_iff]
  constructor
  · rintro ⟨i, rfl, rfl⟩
    rw [index_mk]
  · exact fun same => ⟨index h, same, mk_index h⟩

theorem Sound.mirrored (sound : s.Sound) : s.Mirrored where
  types := by
    intro name t
    have found := findIdx?_eq_some_iff_of_nodup ((List.map_id s.typeNames).symm ▸ sound.names)
      (p := fun other => other == name) (y := name) (fun _ => beq_iff_eq) (i := t.index)
    rw [typeId?, map_handle_eq_some (fun _ => rfl) (fun _ => rfl), found]
    exact ⟨fun ⟨_, here, same⟩ => same ▸ here, fun here => ⟨name, here, rfl⟩⟩
  fields := by
    intro owner name f
    rw [fieldOf?, map_handle_eq_some (fun _ => rfl) (fun _ => rfl),
      findIdx?_eq_some_iff_of_nodup sound.paths (y := (owner, name))
        (fun d => by rw [Bool.and_eq_true, beq_iff_eq, beq_iff_eq, Prod.mk.injEq])]
    exact exists_congr fun d => and_congr_right fun _ => Prod.mk.injEq .. ▸ Iff.rfl
  methods := by
    intro key id
    rw [methodOfKey?, map_handle_eq_some (fun _ => rfl) (fun _ => rfl),
      findIdx?_eq_some_iff_of_nodup sound.keys (fun e => beq_iff_eq)]
    constructor
    · rintro ⟨e, here, rfl⟩
      exact ⟨e.signature, by rw [method?, here]; rfl,
        (sound.spelled e (List.mem_of_getElem? here)).symm⟩
    · rintro ⟨m, declared, rfl⟩
      obtain ⟨e, here, rfl⟩ := Option.map_eq_some_iff.mp declared
      exact ⟨e, here, sound.spelled e (List.mem_of_getElem? here)⟩

/-! ### Keys -/

/-- Whether a key can be cut at its punctuation to find the name again. -/
def IsSymbolName (name : String) : Prop :=
  name ≠ "" ∧ ∀ c ∈ name.toList, isBlank c = false ∧ c ∉ [',', '(', ')', ':']

instance (name : String) : Decidable (IsSymbolName name) :=
  @instDecidableAnd _ _ inferInstance
    (List.decidableBAll (fun c => isBlank c = false ∧ c ∉ [',', '(', ')', ':']) name.toList)

theorem IsSymbolName.not_mem {name : String} (word : IsSymbolName name) {mark : Char}
    (punctuation : mark ∈ [',', '(', ')', ':']) : mark ∉ name.toList :=
  fun member => (word.2 mark member).2 punctuation

/-- All names of the table can stand in keys. -/
structure Named (s : SymbolTable) : Prop where
  types : ∀ name ∈ s.typeNames, IsSymbolName name
  fields : ∀ d ∈ s.fields, IsSymbolName d.name
  methods : ∀ e ∈ s.methods, IsSymbolName e.signature.name

theorem Named.type (named : s.Named) {t : TypeId} (known : s.hasType t) :
    IsSymbolName (s.typeName t) :=
  named.types _ (typeName_mem known)

theorem Sound.types_ext (sound : s.Sound) {ts us : List TypeId} (known : ∀ t ∈ ts, s.hasType t)
    (known' : ∀ t ∈ us, s.hasType t)
    (same : (ts.map fun t => (s.typeName t).toList) = us.map fun t => (s.typeName t).toList) :
    ts = us := by
  induction ts generalizing us with
  | nil => exact (List.map_eq_nil_iff.mp same.symm).symm
  | cons t rest ih =>
      cases us with
      | nil => cases same
      | cons u others =>
          rw [List.map_cons, List.map_cons, List.cons.injEq] at same
          rw [sound.type_ext (known t (List.mem_cons_self ..)) (known' u (List.mem_cons_self ..))
              (String.toList_inj.mp same.1),
            ih (fun x member => known x (.tail _ member))
              (fun x member => known' x (.tail _ member)) same.2]

/-- The parameters of a key stand between commas, and none of them is empty. -/
theorem Named.fieldsBetween_params (named : s.Named) {m : MethodDef}
    (known : ∀ t ∈ m.params, s.hasType t) :
    Text.fieldsBetween (· == ',') (",".toList.intercalate (s.paramTexts m)) = s.paramTexts m := by
  refine Text.fieldsBetween_intercalate (by decide) ?_ ?_
  · intro text member c inside
    obtain ⟨t, here, rfl⟩ := List.mem_map.mp member
    exact beq_false_of_ne fun equal =>
      (named.type (known t here)).not_mem (by decide) (equal ▸ inside)
  · intro text member
    obtain ⟨t, here, rfl⟩ := List.mem_map.mp member
    exact toList_ne_nil (named.type (known t here)).1

/-- A key spells one owner, one name and one list of parameters. -/
theorem Sound.identity_inj (sound : s.Sound) (named : s.Named) {m m' : MethodDef}
    (known : ∀ t ∈ m.types, s.hasType t) (known' : ∀ t ∈ m'.types, s.hasType t)
    (word : IsSymbolName m.name) (word' : IsSymbolName m'.name)
    (same : s.identity "," m = s.identity "," m') :
    m.owner = m'.owner ∧ m.name = m'.name ∧ m.params = m'.params := by
  have owner := known m.owner (List.mem_cons_self ..)
  have owner' := known' m'.owner (List.mem_cons_self ..)
  have params : ∀ t ∈ m.params, s.hasType t := fun t member =>
    known t (.tail _ (List.mem_append_left _ member))
  have params' : ∀ t ∈ m'.params, s.hasType t := fun t member =>
    known' t (.tail _ (List.mem_append_left _ member))
  have texts := congrArg String.toList same
  simp only [toList_identity, List.append_assoc, List.cons_append] at texts
  -- the owner ends at the first colon, the name at the first parenthesis
  obtain ⟨owners, rest⟩ := Text.append_cons_inj ((named.type owner).not_mem (by decide))
    ((named.type owner').not_mem (by decide)) texts
  obtain ⟨names, listed⟩ := Text.append_cons_inj (word.not_mem (by decide))
    (word'.not_mem (by decide)) (List.cons.inj rest).2
  have lists := congrArg (Text.fieldsBetween (· == ',')) (List.append_cancel_right listed)
  rw [named.fieldsBetween_params params, named.fieldsBetween_params params'] at lists
  exact ⟨sound.type_ext owner owner' (String.toList_inj.mp owners), String.toList_inj.mp names,
    sound.types_ext params params' lists⟩

end SymbolTable

/-! ### Calls -/

/-- A declaration with the steps after it. -/
theorem Declaring.runOn_bind_lift {ε α β : Type} (wrap : SymbolError → ε)
    (declare : SymbolTable → Except SymbolError (α × SymbolTable)) (next : α → Declaring ε β)
    (s : SymbolTable) : (Declaring.lift wrap declare >>= next).runOn s =
      match declare s with
      | .ok (a, s') => (next a).runOn s'
      | .error e => (.error (wrap e), s) := by
  have unfolded : (Declaring.lift wrap declare >>= next).runOn s = Declaring.runOn
      ((match declare s with
        | .ok (a, s') => do set s'; return a
        | .error e => throw (wrap e)) >>= next) s := rfl
  rw [unfolded]
  cases declare s with
  | error e => rfl
  | ok declared => rfl

/-- A call that declares a symbol. -/
inductive Declaration where
  | type (name : String)
  | field (d : FieldDef)
  | method (m : MethodDef)
  deriving DecidableEq

/-- A handle of one of the three arenas. -/
inductive SymbolHandle where
  | type (t : TypeId)
  | field (f : FieldId)
  | method (m : MethodId)
  deriving DecidableEq

namespace Declaration

/-- The name that the call declares. -/
def name : Declaration → String
  | type name => name
  | field d => d.name
  | method m => m.name

/-- What the call does. -/
def run : Declaration → Declaring SymbolError SymbolHandle
  | type name => return .type (← Declaring.type name)
  | field d => return .field (← Declaring.lift id (·.declareField d))
  | method m => return .method (← Declaring.lift id (·.declareMethod m))

/-- The handles that the call passes are handles of the table. -/
def Uses (s : SymbolTable) : Declaration → Prop
  | type _ => True
  | field d => s.hasType d.owner ∧ s.hasType d.type
  | method m => ∀ t ∈ m.types, s.hasType t

instance (s : SymbolTable) : (c : Declaration) → Decidable (c.Uses s)
  | type _ => inferInstanceAs (Decidable True)
  | field _ => inferInstanceAs (Decidable (_ ∧ _))
  | method m => List.decidableBAll (fun t => s.hasType t = true) m.types

/-- The two calls declare one type, one field of a type, or one method with its parameters. -/
def SameKey : Declaration → Declaration → Prop
  | type name, type name' => name = name'
  | field d, field d' => d.owner = d'.owner ∧ d.name = d'.name
  | method m, method m' => m.owner = m'.owner ∧ m.name = m'.name ∧ m.params = m'.params
  | _, _ => False

theorem SameKey.refl (c : Declaration) : c.SameKey c := by
  cases c with
  | type name => rfl
  | field d => exact ⟨rfl, rfl⟩
  | method m => exact ⟨rfl, rfl, rfl⟩

end Declaration

/-- A call with what it gave. -/
abbrev Declared := Declaration × Except SymbolError SymbolHandle

/-- The field that a call gave, if it declared one on this type. -/
def Declared.fieldOn (t : TypeId) : Declared → Option FieldId
  | (.field d, .ok (.field f)) => if d.owner = t then some f else none
  | _ => none

namespace SymbolTable

variable {s s' : SymbolTable}

/-- The handle denotes what the call declares. -/
def Denotes (s : SymbolTable) : SymbolHandle → Declaration → Prop
  | .type t, .type name => s.typeNames[t.index]? = some name
  | .field f, .field d => s.field? f = some d
  | .method id, .method m => s.method? id = some m
  | _, _ => False

/-- Calls with handles of the table, one after the other, and the table after them. -/
inductive History : SymbolTable → List Declared → SymbolTable → Prop where
  | nil (s : SymbolTable) : History s [] s
  | cons {s s' s'' : SymbolTable} {c : Declaration} {result : Except SymbolError SymbolHandle}
      {later : List Declared} (own : c.Uses s) (step : c.run.runOn s = (result, s'))
      (rest : History s' later s'') : History s ((c, result) :: later) s''

/-- What the table remembers of the calls. -/
structure Records (s : SymbolTable) (entries : List Declared) : Prop where
  /-- The handles of the table are those that calls gave, and denote what the calls declared. -/
  given : ∀ {c h}, (c, .ok h) ∈ entries ↔ s.Denotes h c
  /-- Handles are equal exactly when the calls declared the same symbol. -/
  handles : ∀ {c h c' h'}, (c, .ok h) ∈ entries → (c', .ok h') ∈ entries → (h = h' ↔ c.SameKey c')
  /-- A call fails only if an earlier one declared the same symbol in another shape. -/
  refused : ∀ {i : Nat} {c : Declaration} {e : SymbolError}, entries[i]? = some (c, .error e) →
    e.tag = "SymbolConflict" ∧
      ∃ j < i, ∃ c' h, entries[j]? = some (c', .ok h) ∧ c'.SameKey c ∧ c' ≠ c
  /-- A type lists the fields declared on it, each once, in the order of their declaration. -/
  fieldLists : ∀ t, s.fieldsOf t = (entries.filterMap (Declared.fieldOn t)).eraseDups

/-! ### What one call does -/

/-- The handle of a symbol that is new. -/
def fresh (s : SymbolTable) : Declaration → SymbolHandle
  | .type _ => .type ⟨s.typeNames.length⟩
  | .field _ => .field ⟨s.fields.length⟩
  | .method _ => .method ⟨s.methods.length⟩

/-- The table with a symbol that is new. -/
def adding (s : SymbolTable) : Declaration → SymbolTable
  | .type name => { s with typeNames := s.typeNames ++ [name] }
  | .field d => { s with fields := s.fields ++ [d] }
  | .method m => { s with methods := s.methods ++ [⟨m, s.identity "," m⟩] }

/-- A call gives the handle that the table has for its symbol, fails because that handle denotes
    the symbol in another shape, or adds the symbol. -/
inductive Answers (s : SymbolTable) (c : Declaration) :
    Except SymbolError SymbolHandle × SymbolTable → Prop where
  | known {h : SymbolHandle} (denotes : s.Denotes h c) : s.Answers c (.ok h, s)
  | refused {e : SymbolError} {h : SymbolHandle} {c' : Declaration} (denotes : s.Denotes h c')
      (key : c'.SameKey c) (differs : c' ≠ c) (conflict : e.tag = "SymbolConflict") :
      s.Answers c (.error e, s)
  | new (absent : ∀ {h c'}, s.Denotes h c' → ¬ c'.SameKey c) : s.Answers c (.ok (s.fresh c), s.adding c)

section Step

variable (sound : s.Sound)
include sound

theorem answers_type (name : String) :
    s.Answers (.type name) ((Declaration.type name).run.runOn s) := by
  have unfolded : (Declaration.type name).run.runOn s =
      (.ok (.type (s.internType name).1), (s.internType name).2) := rfl
  rw [unfolded, internType]
  cases found : s.typeId? name with
  | some t => exact .known (h := .type t) (sound.mirrored.types.mp found)
  | none =>
      refine .new fun {h c'} denotes same => ?_
      match h, c', denotes, same with
      | .type t, .type _, denotes, rfl => cases found.symm.trans (sound.mirrored.types.mpr denotes)

theorem answers_field {d : FieldDef} (own : s.hasType d.owner) :
    s.Answers (.field d) ((Declaration.field d).run.runOn s) := by
  rw [Declaration.run, Declaring.runOn_bind_lift, declareField]
  cases found : s.fieldOf? d.owner d.name with
  | some f =>
      obtain ⟨d', declared, owner, name⟩ := sound.mirrored.fields.mp found
      simp only
      by_cases same : s.field? f = some d
      · rw [if_pos same]
        exact .known (h := .field f) same
      · rw [if_neg same]
        have denotes : s.Denotes (.field f) (.field d') := declared
        refine .refused denotes ⟨owner, name⟩ ?_ rfl
        rintro ⟨⟩
        exact same declared
  | none =>
      simp only [if_pos own]
      refine .new fun {h c'} denotes same => ?_
      match h, c', denotes, same with
      | .field f, .field d', denotes, ⟨owner, name⟩ =>
          cases found.symm.trans (sound.mirrored.fields.mpr ⟨d', denotes, owner, name⟩)

theorem answers_method (named : s.Named) {m : MethodDef} (own : ∀ t ∈ m.types, s.hasType t)
    (word : IsSymbolName m.name) : s.Answers (.method m) ((Declaration.method m).run.runOn s) := by
  have owner := own m.owner (List.mem_cons_self ..)
  rw [Declaration.run, Declaring.runOn_bind_lift, declareMethod, if_pos owner]
  cases found : s.methodOfKey? (s.identity "," m) with
  | some id =>
      obtain ⟨m', declared, key⟩ := sound.mirrored.methods.mp found
      obtain ⟨e, here, rfl⟩ := Option.map_eq_some_iff.mp declared
      have row := List.mem_of_getElem? here
      obtain ⟨owners, names, params⟩ := sound.identity_inj named (sound.signatures e row) own
        (named.methods e row) word key
      simp only [found, declared]
      by_cases same : e.signature.ret = m.ret ∧ e.signature.isStatic = m.isStatic
      · rw [if_pos same]
        refine .known (h := .method id) ?_
        have equal : e.signature = m := by
          rw [MethodDef.mk.injEq]
          exact ⟨owners, names, params, same.1, same.2⟩
        exact equal ▸ declared
      · rw [if_neg same]
        have denotes : s.Denotes (.method id) (.method e.signature) := declared
        refine .refused denotes ⟨owners, names, params⟩ ?_ rfl
        rintro equal
        cases Declaration.method.inj equal
        exact same ⟨rfl, rfl⟩
  | none =>
      simp only [found]
      refine .new fun {h c'} denotes same => ?_
      match h, c', denotes, same with
      | .method id, .method m', denotes, ⟨owners, names, params⟩ =>
          have spelled : s.identity "," m' = s.identity "," m := by
            rw [identity, identity, owners, names, params]
          cases found.symm.trans (sound.mirrored.methods.mpr ⟨m', denotes, spelled⟩)

/-- What a call with handles of the table does. -/
theorem answers (named : s.Named) {c : Declaration} (own : c.Uses s) (word : IsSymbolName c.name) :
    s.Answers c (c.run.runOn s) := by
  cases c with
  | type name => exact answers_type sound name
  | field d => exact answers_field sound own.1
  | method m => exact answers_method sound named own word

end Step

/-! ### Growing tables -/

theorem getElem?_snoc_eq_some {α : Type} {xs : List α} {x y : α} {i : Nat} :
    (xs ++ [x])[i]? = some y ↔ xs[i]? = some y ∨ i = xs.length ∧ y = x := by
  rcases Nat.lt_trichotomy i xs.length with less | rfl | greater
  · rw [List.getElem?_append_left less]
    exact ⟨Or.inl, fun this => this.resolve_right fun last => absurd last.1 less.ne⟩
  · simp [eq_comm]
  · have beyond : ∀ zs : List α, zs.length ≤ i → zs[i]? ≠ some y := fun zs long here => by
      rw [List.getElem?_eq_none long] at here
      cases here
    refine iff_of_false (beyond _ (by rw [List.length_append]; exact greater)) ?_
    rintro (here | ⟨rfl, -⟩)
    · exact beyond _ greater.le here
    · exact absurd greater (Nat.lt_irrefl _)

/-- A new symbol is denoted by its handle, and the other handles denote what they did. -/
theorem denotes_adding {c c' : Declaration} {h : SymbolHandle} :
    (s.adding c).Denotes h c' ↔ s.Denotes h c' ∨ h = s.fresh c ∧ c' = c := by
  have signatures (s : SymbolTable) (id : MethodId) :
      s.method? id = (s.methods.map MethodEntry.signature)[id.index]? := List.getElem?_map.symm
  rcases h with ⟨⟨i⟩⟩ | ⟨⟨i⟩⟩ | ⟨⟨i⟩⟩ <;> cases c <;> cases c' <;>
    simp only [Denotes, adding, fresh, field?, signatures, List.map_append, List.map_singleton,
      getElem?_snoc_eq_some, List.length_map, SymbolHandle.type.injEq, TypeId.mk.injEq,
      SymbolHandle.field.injEq, FieldId.mk.injEq, SymbolHandle.method.injEq, MethodId.mk.injEq,
      Declaration.type.injEq, Declaration.field.injEq, Declaration.method.injEq, reduceCtorEq,
      false_and, and_false, or_false]

theorem adding_extends (s : SymbolTable) (c : Declaration) : s.Extends (s.adding c) := by
  cases c with
  | type name => exact ⟨fun here => getElem?_append_of_eq_some here _, id, id⟩
  | field d => exact ⟨id, fun here => getElem?_append_of_eq_some here _, id⟩
  | method m => exact ⟨id, id, fun here => getElem?_append_of_eq_some here _⟩

theorem Named.adding (named : s.Named) {c : Declaration} (word : IsSymbolName c.name) :
    (s.adding c).Named := by
  cases c with
  | type name =>
      refine ⟨fun other member => ?_, named.fields, named.methods⟩
      rcases List.mem_append.mp member with member | member
      · exact named.types other member
      · exact List.mem_singleton.mp member ▸ word
  | field d =>
      refine ⟨named.types, fun other member => ?_, named.methods⟩
      rcases List.mem_append.mp member with member | member
      · exact named.fields other member
      · exact List.mem_singleton.mp member ▸ word
  | method m =>
      refine ⟨named.types, named.fields, fun other member => ?_⟩
      rcases List.mem_append.mp member with member | member
      · exact named.methods other member
      · exact List.mem_singleton.mp member ▸ word

/-- A new field goes to the end of the list of its owner. -/
theorem fieldsOf_adding (s : SymbolTable) (c : Declaration) (t : TypeId) :
    (s.adding c).fieldsOf t =
      s.fieldsOf t ++ (Declared.fieldOn t (c, .ok (s.fresh c))).toList := by
  cases c with
  | type name => exact (List.append_nil _).symm
  | method m => exact (List.append_nil _).symm
  | field d =>
      simp only [fieldsOf, adding, fresh, Declared.fieldOn]
      rw [List.zipIdx_append, List.filter_append, List.map_append, Nat.zero_add]
      by_cases owned : d.owner = t
      · simp [owned]
      · simp [owned]

/-- Calls keep a table sound, whatever they name. -/
theorem Sound.runOn (sound : s.Sound) {c : Declaration}
    {result : Except SymbolError SymbolHandle} (own : c.Uses s)
    (step : c.run.runOn s = (result, s')) : s'.Sound := by
  obtain rfl : (c.run.runOn s).2 = s' := congrArg Prod.snd step
  cases c with
  | type name =>
      have names : (s.internType name).2.typeNames.Nodup := by
        rcases s.internType_cases name with ⟨-, same⟩ | ⟨absent, longer⟩
        · rw [same]
          exact sound.names
        · rw [longer]
          exact sound.names.append (List.nodup_singleton name) (List.disjoint_singleton.mpr absent)
      exact sound.retype (s.internType_extends name).1 (s.internType_fields name)
        (s.internType_methods name) names
  | field d =>
      rw [Declaration.run, Declaring.runOn_bind_lift]
      cases declared : s.declareField d with
      | error e => exact sound
      | ok result => exact sound.declareField own.1 own.2 declared
  | method m =>
      rw [Declaration.run, Declaring.runOn_bind_lift]
      cases declared : s.declareMethod m with
      | error e => exact sound
      | ok result => exact sound.declareMethod own declared

/-! ### Handles and what they denote -/

/-- A handle denotes one symbol. -/
theorem Denotes.eq {h : SymbolHandle} {c c' : Declaration} (denotes : s.Denotes h c)
    (denotes' : s.Denotes h c') : c = c' := by
  match h, c, c', denotes, denotes' with
  | .type _, .type _, .type _, here, here' => rw [Option.some.inj (here.symm.trans here')]
  | .field _, .field _, .field _, here, here' => rw [Option.some.inj (here.symm.trans here')]
  | .method _, .method _, .method _, here, here' => rw [Option.some.inj (here.symm.trans here')]

/-- The handle of a symbol that is new denotes nothing yet. -/
theorem not_denotes_fresh {c c' : Declaration} : ¬ s.Denotes (s.fresh c) c' := by
  cases c <;> cases c' <;> simp [Denotes, fresh, field?, method?]

/-- A symbol has one handle, whatever its shape. -/
theorem Sound.handle_ext (sound : s.Sound) {h h' : SymbolHandle} {c c' : Declaration}
    (denotes : s.Denotes h c) (denotes' : s.Denotes h' c') (key : c.SameKey c') : h = h' := by
  match h, c, h', c', denotes, denotes', key with
  | .type _, .type _, .type _, .type _, here, here', rfl =>
      rw [Option.some.inj ((sound.mirrored.types.mpr here).symm.trans
        (sound.mirrored.types.mpr here'))]
  | .field _, .field d, .field _, .field _, here, here', ⟨owner, name⟩ =>
      have found := sound.mirrored.fields.mpr ⟨d, here, owner, name⟩
      rw [Option.some.inj (found.symm.trans (sound.mirrored.fields.mpr ⟨_, here', rfl, rfl⟩))]
  | .method _, .method m, .method _, .method m', here, here', ⟨owner, name, params⟩ =>
      have spelled : s.identity "," m = s.identity "," m' := by
        rw [identity, identity, owner, name, params]
      have found := sound.mirrored.methods.mpr ⟨m, here, spelled⟩
      rw [Option.some.inj (found.symm.trans (sound.mirrored.methods.mpr ⟨m', here', rfl⟩))]

theorem Sound.handle_eq_iff (sound : s.Sound) {h h' : SymbolHandle} {c c' : Declaration}
    (denotes : s.Denotes h c) (denotes' : s.Denotes h' c') : h = h' ↔ c.SameKey c' := by
  constructor
  · rintro rfl
    exact denotes.eq denotes' ▸ .refl c
  · exact sound.handle_ext denotes denotes'

/-- Handles that were given for what they denote are one exactly if the calls declare one symbol. -/
theorem Sound.handles_of_given (sound : s.Sound) {entries : List Declared}
    (given : ∀ {c h}, (c, .ok h) ∈ entries ↔ s.Denotes h c) {c c' : Declaration}
    {h h' : SymbolHandle} (member : (c, .ok h) ∈ entries) (member' : (c', .ok h') ∈ entries) :
    h = h' ↔ c.SameKey c' :=
  sound.handle_eq_iff (given.mp member) (given.mp member')

/-- The fields on the list of a type are handles of fields that it owns. -/
theorem fieldOn_eq_some {t : TypeId} {c : Declaration} {h : SymbolHandle} {f : FieldId} :
    Declared.fieldOn t (c, .ok h) = some f ↔ ∃ d, c = .field d ∧ h = .field f ∧ d.owner = t := by
  match c, h with
  | .field d, .field f' => simp [Declared.fieldOn, and_comm]
  | .type _, _ | .method _, _ | .field _, .type _ | .field _, .method _ =>
      simp [Declared.fieldOn]

/-! ### The history of a table -/

theorem eraseDups_snoc {α : Type} [DecidableEq α] (xs : List α) (x : α) :
    (xs ++ [x]).eraseDups = if x ∈ xs then xs.eraseDups else xs.eraseDups ++ [x] := by
  have single : [x].eraseDups = [x] := by rw [List.eraseDups_cons]; rfl
  rw [List.eraseDups_append]
  by_cases member : x ∈ xs <;> simp [List.removeAll, member, single]

namespace Records

variable {entries : List Declared}

theorem empty : empty.Records [] where
  given := by
    rintro c h
    refine iff_of_false List.not_mem_nil fun denotes => ?_
    match h, c, denotes with
    | .type _, .type _, denotes => cases denotes
    | .field _, .field _, denotes => cases denotes
    | .method _, .method _, denotes => cases denotes
  handles := fun member => absurd member List.not_mem_nil
  refused := nofun
  fieldLists := fun _ => rfl

/-- A call that failed had an earlier one to fail for, and a call behind it is no other reason. -/
theorem refused_snoc (records : s.Records entries) {c : Declaration}
    {result : Except SymbolError SymbolHandle}
    (last : ∀ e, result = .error e → e.tag = "SymbolConflict" ∧
      ∃ h c', s.Denotes h c' ∧ c'.SameKey c ∧ c' ≠ c)
    {i : Nat} {c' : Declaration} {e : SymbolError}
    (here : (entries ++ [(c, result)])[i]? = some (c', .error e)) : e.tag = "SymbolConflict" ∧
      ∃ j < i, ∃ c'' h, (entries ++ [(c, result)])[j]? = some (c'', .ok h) ∧ c''.SameKey c' ∧
        c'' ≠ c' := by
  rcases getElem?_snoc_eq_some.mp here with here | ⟨rfl, equal⟩
  · obtain ⟨conflict, j, earlier, c'', h, there, rest⟩ := records.refused here
    exact ⟨conflict, j, earlier, c'', h, getElem?_append_of_eq_some there _, rest⟩
  · obtain ⟨rfl, rfl⟩ := Prod.mk.inj equal
    obtain ⟨conflict, h, c'', denotes, rest⟩ := last _ rfl
    obtain ⟨j, there⟩ := List.getElem?_of_mem (records.given.mpr denotes)
    have earlier := (List.getElem?_eq_some_iff.mp there).1
    exact ⟨conflict, j, earlier, c'', h, getElem?_append_of_eq_some there _, rest⟩

/-- A call that gives a known handle, or fails, leaves the field lists alone. -/
theorem fieldLists_snoc (records : s.Records entries) {c : Declaration}
    {result : Except SymbolError SymbolHandle} (denotes : ∀ h, result = .ok h → s.Denotes h c)
    (t : TypeId) :
    s.fieldsOf t = ((entries ++ [(c, result)]).filterMap (Declared.fieldOn t)).eraseDups := by
  rw [List.filterMap_append]
  cases field : Declared.fieldOn t (c, result) with
  | none =>
      rw [List.filterMap_cons_none field, List.filterMap_nil, List.append_nil, records.fieldLists]
  | some f =>
      rw [List.filterMap_cons_some field, List.filterMap_nil, eraseDups_snoc, if_pos,
        records.fieldLists]
      cases result with
      | error e => cases c <;> cases field
      | ok h => exact List.mem_filterMap.mpr ⟨_, records.given.mpr (denotes h rfl), field⟩

/-- A call that leaves the table alone: what it answers was there before, or it has failed. -/
theorem unchanged (records : s.Records entries) (sound : s.Sound) {c : Declaration}
    {result : Except SymbolError SymbolHandle} (denotes : ∀ h, result = .ok h → s.Denotes h c)
    (last : ∀ e, result = .error e → e.tag = "SymbolConflict" ∧
      ∃ h c', s.Denotes h c' ∧ c'.SameKey c ∧ c' ≠ c) : s.Records (entries ++ [(c, result)]) := by
  have given {c' h'} : (c', .ok h') ∈ entries ++ [(c, result)] ↔ s.Denotes h' c' := by
    rw [List.mem_append, List.mem_singleton, records.given]
    refine or_iff_left_of_imp fun same => ?_
    obtain ⟨rfl, equal⟩ := Prod.mk.inj same
    exact denotes h' equal.symm
  exact ⟨given, sound.handles_of_given given, records.refused_snoc last,
    records.fieldLists_snoc denotes⟩

/-- A new field comes last on the list of its owner. -/
theorem fieldLists_adding (records : s.Records entries) (c : Declaration) (t : TypeId) :
    (s.adding c).fieldsOf t =
      ((entries ++ [(c, Except.ok (s.fresh c))]).filterMap (Declared.fieldOn t)).eraseDups := by
  rw [fieldsOf_adding, List.filterMap_append, records.fieldLists]
  cases field : Declared.fieldOn t (c, .ok (s.fresh c)) with
  | none =>
      rw [List.filterMap_cons_none field, List.filterMap_nil, List.append_nil]
      exact List.append_nil _
  | some f =>
      have new : f ∉ entries.filterMap (Declared.fieldOn t) := by
        intro earlier
        obtain ⟨⟨c', result⟩, member, same⟩ := List.mem_filterMap.mp earlier
        cases result with
        | error e => cases c' <;> cases same
        | ok h =>
            obtain ⟨d, rfl, rfl, -⟩ := fieldOn_eq_some.mp same
            obtain ⟨d', rfl, equal, -⟩ := fieldOn_eq_some.mp field
            exact not_denotes_fresh (equal ▸ records.given.mp member)
      rw [List.filterMap_cons_some field, List.filterMap_nil, eraseDups_snoc, if_neg new]
      rfl

/-- A call that adds its symbol. -/
theorem adding (records : s.Records entries) {c : Declaration} (sound : (s.adding c).Sound) :
    (s.adding c).Records (entries ++ [(c, .ok (s.fresh c))]) := by
  have given {c' h'} :
      (c', .ok h') ∈ entries ++ [(c, .ok (s.fresh c))] ↔ (s.adding c).Denotes h' c' := by
    rw [List.mem_append, List.mem_singleton, records.given, denotes_adding, Prod.mk.injEq,
      Except.ok.injEq, and_comm (a := c' = c)]
  exact ⟨given, sound.handles_of_given given, records.refused_snoc (by rintro _ ⟨⟩),
    records.fieldLists_adding c⟩

/-- Each call keeps the table in step with what was asked of it. -/
theorem step (records : s.Records entries) (sound : s.Sound) {c : Declaration}
    {result : Except SymbolError SymbolHandle} (sound' : s'.Sound)
    (answers : s.Answers c (result, s')) : s'.Records (entries ++ [(c, result)]) := by
  cases answers with
  | @known h denotes =>
      refine records.unchanged sound (fun _ same => ?_) (by rintro _ ⟨⟩)
      cases same
      exact denotes
  | @refused e h c' denotes key differs conflict =>
      refine records.unchanged sound (by rintro _ ⟨⟩) fun _ same => ?_
      cases same
      exact ⟨conflict, h, c', denotes, key, differs⟩
  | new absent => exact records.adding sound'

end Records

theorem Answers.extends {c : Declaration} {result : Except SymbolError SymbolHandle}
    (answers : s.Answers c (result, s')) :
    s.Extends s' ∧ ∀ t, s.fieldsOf t <+: s'.fieldsOf t := by
  cases answers with
  | known => exact ⟨.refl s, fun t => List.prefix_rfl⟩
  | refused => exact ⟨.refl s, fun t => List.prefix_rfl⟩
  | new =>
      refine ⟨s.adding_extends c, fun t => ?_⟩
      rw [fieldsOf_adding]
      exact List.prefix_append ..

theorem Answers.named {c : Declaration} {result : Except SymbolError SymbolHandle}
    (answers : s.Answers c (result, s')) (named : s.Named) (word : IsSymbolName c.name) :
    s'.Named := by
  cases answers with
  | known => exact named
  | refused => exact named
  | new => exact named.adding word

namespace History

variable {earlier later entries : List Declared}

/-- Whatever the calls name, the table they build is sound. -/
theorem sound (calls : History s later s') (start : s.Sound) : s'.Sound := by
  induction calls with
  | nil => exact start
  | cons own step _ ih => exact ih (start.runOn own step)

/-- Calls that name symbols keep the table in step with all that was asked of it. -/
theorem keeps (calls : History s later s') (start : s.Sound) (named : s.Named)
    (records : s.Records earlier) (words : ∀ entry ∈ later, IsSymbolName entry.1.name) :
    s'.Records (earlier ++ later) ∧ s'.Named ∧ s.Extends s' ∧
      ∀ t, s.fieldsOf t <+: s'.fieldsOf t := by
  induction calls generalizing earlier with
  | nil => exact ⟨(List.append_nil earlier).symm ▸ records, named, .refl _,
      fun t => List.prefix_rfl⟩
  | @cons s s' s'' c result later own step _ ih =>
      have word := words (c, result) (List.mem_cons_self ..)
      have answered := answers start named own word
      have start' : s'.Sound := start.runOn own step
      rw [step] at answered
      obtain ⟨recorded, named', grown, lists⟩ := ih start' (answered.named named word)
        (records.step start start' answered) fun entry member => words entry (.tail _ member)
      obtain ⟨grown', lists'⟩ := answered.extends
      refine ⟨?_, named', grown'.trans grown, fun t => (lists' t).trans (lists t)⟩
      rw [← List.singleton_append, ← List.append_assoc]
      exact recorded

/-- A table that was built by calls, with handles of its own and names that can stand in keys,
    remembers them: its lookups mirror its arenas, later calls change nothing that it holds, a call
    that fails changes nothing at all, and neither does one that was made before. -/
theorem remembered (calls : History empty entries s)
    (words : ∀ entry ∈ entries, IsSymbolName entry.1.name) :
    s.Records entries ∧ s.Mirrored ∧
      (∀ later s', History s later s' → (∀ entry ∈ later, IsSymbolName entry.1.name) →
        s.Extends s' ∧ ∀ t, s.fieldsOf t <+: s'.fieldsOf t) ∧
      ∀ c result s', History s [(c, result)] s' → IsSymbolName c.name →
        (∀ e, result = .error e → s' = s) ∧ ∀ h, (c, .ok h) ∈ entries → result = .ok h ∧ s' = s := by
  have start : s.Sound := calls.sound sound_empty
  obtain ⟨records, named, -⟩ := calls.keeps sound_empty ⟨nofun, nofun, nofun⟩ .empty words
  refine ⟨records, start.mirrored, fun later s' more words' => ?_, fun c result s' call word => ?_⟩
  · exact (more.keeps start named records words').2.2
  obtain ⟨own, step⟩ : c.Uses s ∧ c.run.runOn s = (result, s') := by
    cases call with
    | cons own step rest =>
        cases rest
        exact ⟨own, step⟩
  have answered := answers start named own word
  rw [step] at answered
  constructor
  · rintro e rfl
    cases answered
    rfl
  · intro h member
    have declared := records.given.mp member
    cases answered with
    | known denotes => exact ⟨congrArg _ (start.handle_ext denotes declared (.refl c)), rfl⟩
    | refused denotes key differs conflict =>
        cases start.handle_ext denotes declared key
        exact absurd (denotes.eq declared) differs
    | new absent => exact absurd (.refl c) (absent declared)

end History

/-- Calls about bells: a type and a field are declared again, and a method in another shape. -/
def bellCalls : List Declared :=
  [(.type "Bell", .ok (.type ⟨0⟩)), (.type "int", .ok (.type ⟨1⟩)),
    (.field ⟨⟨0⟩, "rung", ⟨1⟩, false⟩, .ok (.field ⟨0⟩)),
    (.method ⟨⟨0⟩, "ring", [⟨1⟩], none, false⟩, .ok (.method ⟨0⟩)),
    (.type "Bell", .ok (.type ⟨0⟩)),
    (.field ⟨⟨0⟩, "rung", ⟨1⟩, false⟩, .ok (.field ⟨0⟩)),
    (.method ⟨⟨0⟩, "ring", [⟨1⟩], some ⟨1⟩, false⟩, .error (.methodConflict "Bell::ring(int)"))]

/-- The table that the calls about bells build. -/
def bellTable : SymbolTable where
  typeNames := ["Bell", "int"]
  fields := [⟨⟨0⟩, "rung", ⟨1⟩, false⟩]
  methods := [⟨⟨⟨0⟩, "ring", [⟨1⟩], none, false⟩, "Bell::ring(int)"⟩]

theorem bellTable_remembers : History empty bellCalls bellTable ∧ bellTable.Records bellCalls ∧
    bellTable.fieldsOf ⟨0⟩ = [⟨0⟩] := by
  have calls : History empty bellCalls bellTable :=
    .cons (by decide) rfl <| .cons (by decide) rfl <| .cons (by decide) rfl <|
      .cons (by decide) rfl <| .cons (by decide) rfl <| .cons (by decide) rfl <|
        .cons (by decide) rfl (.nil _)
  exact ⟨calls, (calls.remembered (by decide)).1, by decide⟩

end SymbolTable

end HookSplice
