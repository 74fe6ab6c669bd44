import HookSplice.Proofs.ReadBodies
import HookSplice.Proofs.ReloadedHost
import Mathlib.Data.List.Find

/-!
# Printing and reading loses nothing

What a host that was printed and read again has in common with the host it comes from: the same
classes, fields, methods and bodies under other handles and other labels.  Only classes without
fields that nothing mentions are lost, as they are not printed.
-/

namespace HookSplice

theorem nodup_eraseDups {α : Type} [BEq α] [LawfulBEq α] (xs : List α) : xs.eraseDups.Nodup := by
  induction size : xs.length using Nat.strongRecOn generalizing xs with
  | ind n ih =>
      cases xs with
      | nil => exact List.nodup_nil
      | cons x rest =>
          rw [List.eraseDups_cons, List.nodup_cons]
          refine ⟨by simp, ih _ ?_ _ rfl⟩
          rw [← size, List.length_cons]
          exact Nat.lt_succ_of_le (List.length_filter_le _ _)

/-! ### The same image under other handles -/

/-- The second body is the first one under the handles of an arrangement and a renaming of labels
    that is a bijection between the labels of both. -/
structure Body.SameUnder (a : Arrangement) (label : Label → Label) (b b' : Body) : Prop where
  injective : ∀ l ∈ Code.labels b.code, ∀ k ∈ Code.labels b.code, label l = label k → l = k
  surjective : ∀ l', l' ∈ Code.labels b'.code ↔ ∃ l ∈ Code.labels b.code, label l = l'
  code : List.Forall₂ (fun ins ins' => ins'.opcode = ins.opcode ∧
    ins'.operand = a.operand label ins.operand ∧ ins'.labels.Perm (ins.labels.map label))
    b.code b'.code
  locals : b'.locals = b.locals.map a.type
  regions : b'.regions = b.regions.map a.region

namespace Host

/-- Something in the host mentions a type: a field, as its owner or its type, a signature, a local,
    an operand or a region. -/
def Mentions (h : Host) (t : TypeId) : Prop :=
  (∃ f, h.symbols.hasField f ∧ ((h.symbols.fieldRow f).owner = t ∨ (h.symbols.fieldRow f).type = t)) ∨
    (∃ m, h.symbols.hasMethod m ∧ t ∈ (h.symbols.methodRow m).signature.types) ∨
    ∃ b ∈ h.bodies, t ∈ b.mentions

/-- The second host is the first one under the handles of an arrangement, without the types that
    nothing mentions. -/
structure SameUnder (a : Arrangement) (h h' : Host) : Prop where
  types : ∀ t', h'.symbols.hasType t' ↔ ∃ t, h.Mentions t ∧ a.type t = t'
  typesDistinct : ∀ t u, h.Mentions t → a.type t = a.type u → t = u
  names : ∀ t, h.Mentions t → h'.symbols.typeName (a.type t) = h.symbols.typeName t
  fieldsOf : ∀ t, h.Mentions t →
    h'.symbols.fieldsOf (a.type t) = (h.symbols.fieldsOf t).map a.field
  fields : ∀ f, h.symbols.hasField f →
    h'.symbols.field? (a.field f) = (h.symbols.field? f).map a.fieldDef
  methods : ∀ m', h'.symbols.hasMethod m' ↔ ∃ m, h.symbols.hasMethod m ∧ a.method m = m'
  methodsDistinct : ∀ m n, h.symbols.hasMethod m → a.method m = a.method n → m = n
  signatures : ∀ m, h.symbols.hasMethod m →
    h'.symbols.method? (a.method m) = (h.symbols.method? m).map a.methodDef
  bodiless : ∀ m, h.symbols.hasMethod m → h.body? m = none → h'.body? (a.method m) = none
  bodies : ∀ m b, h.body? m = some b → ∃ b' label, h'.body? (a.method m) = some b' ∧
    b.SameUnder a label b'

end Host

/-! ### Tables under an arrangement -/

namespace Arrangement

variable {a : Arrangement} {s : SymbolTable}

theorem method_inj {m n : MethodId} (declared : m ∈ a.methods) (same : a.method m = a.method n) :
    m = n :=
  (List.idxOf_inj declared).mp (congrArg MethodId.index same)

theorem hasType_table_iff {t' : TypeId} :
    (a.table s).hasType t' ↔ ∃ t ∈ a.mentions, a.type t = t' := by
  constructor
  · intro known
    rw [SymbolTable.hasType_iff, table, List.length_map] at known
    refine ⟨a.types[t'.index], mem_types.mp (List.getElem_mem known), ?_⟩
    have distinct : a.types.Nodup := nodup_eraseDups a.mentions
    rw [type, distinct.idxOf_getElem]
  · rintro ⟨t, mentioned, rfl⟩
    exact hasType_table mentioned

theorem hasMethod_table_iff (distinct : a.methods.Nodup) {m' : MethodId} :
    (a.table s).hasMethod m' ↔ ∃ m ∈ a.methods, a.method m = m' := by
  unfold SymbolTable.hasMethod table
  rw [List.length_map, decide_eq_true_eq]
  constructor
  · intro below
    exact ⟨a.methods[m'.index], List.getElem_mem below, by rw [method, distinct.idxOf_getElem]⟩
  · rintro ⟨m, declared, rfl⟩
    exact List.idxOf_lt_length_of_mem declared

/-- The fields of a class are in their old order when the arrangement goes class by class. -/
theorem fieldsOf_table (drawn : a.Over s) (classes : a.fields = s.typeIds.flatMap s.fieldsOf)
    {t : TypeId} (known : s.hasType t) :
    (a.table s).fieldsOf (a.type t) = (s.fieldsOf t).map a.field := by
  have owned {u : TypeId} {f : FieldId} (member : f ∈ s.fieldsOf u) : (s.fieldRow f).owner = u :=
    (SymbolTable.mem_fieldsOf.mp member).2
  have distinct : a.fields.Nodup := by
    rw [classes, List.nodup_flatMap]
    refine ⟨fun u _ => s.nodup_fieldsOf u,
      List.Pairwise.imp (fun {u v} differs => ?_) s.nodup_typeIds⟩
    exact fun f member member' => differs ((owned member).symm.trans (owned member'))
  have ofClass : a.fields.filter (fun f => (s.fieldRow f).owner == t) = s.fieldsOf t := by
    have only (ts : List TypeId) (nodup : ts.Nodup) :
        (ts.flatMap s.fieldsOf).filter (fun f => (s.fieldRow f).owner == t) =
          if t ∈ ts then s.fieldsOf t else [] := by
      induction ts with
      | nil => rfl
      | cons u rest ih =>
          obtain ⟨absent, nodup'⟩ := List.nodup_cons.mp nodup
          rw [List.flatMap_cons, List.filter_append, ih nodup']
          by_cases same : u = t
          · subst same
            rw [if_pos (List.mem_cons_self ..), if_neg absent, List.append_nil,
              List.filter_eq_self.mpr fun f member => beq_iff_eq.mpr (owned member)]
          · have others : (s.fieldsOf u).filter (fun f => (s.fieldRow f).owner == t) = [] :=
              List.filter_eq_nil_iff.mpr fun f member here =>
                same ((owned member).symm.trans (eq_of_beq here))
            simp [others, Ne.symm same]
    rw [classes, only _ s.nodup_typeIds, if_pos (SymbolTable.mem_typeIds.mpr known)]
  have rows : (a.fields.map fun f => a.fieldDef (s.fieldRow f)).zipIdx =
      a.fields.map fun f => (a.fieldDef (s.fieldRow f), a.fields.idxOf f) := by
    rw [List.zipIdx_map, zipIdx_eq_map distinct, List.map_map]
    rfl
  have kept : a.fields.filter (fun f => (a.fieldDef (s.fieldRow f)).owner == a.type t) =
      a.fields.filter fun f => (s.fieldRow f).owner == t := by
    refine List.filter_congr fun f member => ?_
    rw [Bool.eq_iff_iff, beq_iff_eq, beq_iff_eq]
    exact ⟨type_inj (drawn.fields f member).2.1, fun same => congrArg a.type same⟩
  unfold SymbolTable.fieldsOf
  show ((a.fields.map fun f => a.fieldDef (s.fieldRow f)).zipIdx.filter
    fun entry => entry.1.owner == a.type t).map (fun entry => FieldId.mk entry.2) = _
  rw [rows, List.filter_map, List.map_map]
  show (a.fields.filter fun f => (a.fieldDef (s.fieldRow f)).owner == a.type t).map a.field = _
  rw [kept, ofClass]
  rfl

end Arrangement

/-! ### Hosts under their arrangement -/

/-- A body is the same under an arrangement. -/
theorem Body.same_body (a : Arrangement) {b : Body} (distinct : (Code.labels b.code).Nodup) :
    b.SameUnder a (Code.relabel b.code) (a.body b) where
  injective := fun _ attached _ attached' same => Code.relabel_inj distinct attached attached' same
  surjective := fun l' => by
    rw [Code.mem_labels_iff]
    constructor
    · rintro ⟨i, ins', here, member⟩
      obtain ⟨ins, at_, rfl⟩ := Option.map_eq_some_iff.mp ((List.getElem?_map ..).symm.trans here)
      obtain ⟨l, sorted, rfl⟩ := List.mem_map.mp member
      exact ⟨l, Code.mem_labels_iff.mpr ⟨i, ins, at_,
        (Code.byName_perm b.code _).mem_iff.mp sorted⟩, rfl⟩
    · rintro ⟨l, attached, rfl⟩
      obtain ⟨i, ins, at_, member⟩ := Code.mem_labels_iff.mp attached
      refine ⟨i, a.instruction b.code ins, ?_, ?_⟩
      · exact (List.getElem?_map ..).trans (by rw [at_]; rfl)
      · exact List.mem_map_of_mem ((Code.byName_perm b.code _).mem_iff.mpr member)
  code := by
    show List.Forall₂ _ b.code (b.code.map (a.instruction b.code))
    rw [List.forall₂_map_right_iff, List.forall₂_same]
    exact fun ins _ => ⟨rfl, rfl, (Code.byName_perm b.code ins.labels).map _⟩
  locals := rfl
  regions := rfl

namespace Host

section Sound

variable {h : Host} (sound : h.Sound)
include sound

theorem mem_mentions {t : TypeId} : t ∈ h.arrangement.mentions ↔ h.Mentions t := by
  unfold arrangement outline Arrangement.mention Mentions
  simp only [List.mem_append, List.mem_flatMap, or_assoc]
  refine or_congr ?_ (or_congr ?_ Iff.rfl)
  · constructor
    · rintro ⟨u, -, member⟩
      unfold SymbolTable.classMentions at member
      split at member
      · cases member
      · next some_ =>
          obtain ⟨f, inside⟩ := List.exists_mem_of_ne_nil _ some_
          obtain ⟨known, owner⟩ := SymbolTable.mem_fieldsOf.mp inside
          rcases List.mem_cons.mp member with rfl | member
          · exact ⟨f, known, Or.inl owner⟩
          · obtain ⟨g, here, rfl⟩ := List.mem_map.mp member
            exact ⟨g, (SymbolTable.mem_fieldsOf.mp here).1, Or.inr rfl⟩
    · rintro ⟨f, known, mentioned⟩
      have inside := SymbolTable.mem_fieldsOf.mpr ⟨known, rfl⟩
      refine ⟨(h.symbols.fieldRow f).owner,
        SymbolTable.mem_typeIds.mpr (sound.symbols.owner_known known), ?_⟩
      unfold SymbolTable.classMentions
      rw [if_neg (List.ne_nil_of_mem inside)]
      rcases mentioned with rfl | rfl
      · exact List.mem_cons_self ..
      · exact .tail _ (List.mem_map.mpr ⟨f, inside, rfl⟩)
  · exact exists_congr fun m => and_congr_left' (mem_declared sound)

theorem known_of_mentions {t : TypeId} (mentioned : h.Mentions t) : h.symbols.hasType t := by
  rcases mentioned with ⟨f, known, rfl | rfl⟩ | ⟨m, known, member⟩ | ⟨b, inBodies, member⟩
  · exact sound.symbols.owner_known known
  · exact sound.symbols.type_known known
  · exact sound.symbols.signature_known known t member
  · exact (sound.bodies b inBodies).mentioned t member

theorem over_arrangement : h.arrangement.Over h.symbols where
  types := fun _ member => known_of_mentions sound ((mem_mentions sound).mp member)
  fields := fun f member => by
    obtain ⟨t, -, inside⟩ := List.mem_flatMap.mp member
    have known := (SymbolTable.mem_fieldsOf.mp inside).1
    exact ⟨known, (mem_mentions sound).mpr (Or.inl ⟨f, known, Or.inl rfl⟩),
      (mem_mentions sound).mpr (Or.inl ⟨f, known, Or.inr rfl⟩)⟩
  methods := fun m member => by
    have known := (mem_declared sound).mp member
    exact ⟨known, fun t inside => (mem_mentions sound).mpr (Or.inr (Or.inl ⟨m, known, inside⟩))⟩

/-- The body of a method is the old one under the new handles. -/
theorem body?_reloaded {m : MethodId} (known : h.symbols.hasMethod m) :
    h.reloaded.body? (h.arrangement.method m) = (h.body? m).map h.arrangement.body := by
  have declared := (mem_declared sound).mpr known
  show (h.bodies.toList.map h.arrangement.body).find? _ = (h.bodies.toList.find? _).map _
  rw [List.find?_map]
  refine congrArg (Option.map h.arrangement.body) (List.find?_congr fun b member => ?_)
  show (h.arrangement.method b.method == h.arrangement.method m) = (b.method == m)
  rw [Bool.eq_iff_iff, beq_iff_eq, beq_iff_eq]
  refine ⟨fun same => Arrangement.method_inj (a := h.arrangement) ?_ same, fun same => by rw [same]⟩
  exact (mem_declared sound).mpr (sound.bodies b member).method

/-- A host is the same under its own arrangement. -/
theorem same_reloaded : h.SameUnder h.arrangement h.reloaded where
  types := fun t' => Arrangement.hasType_table_iff.trans
    (exists_congr fun t => and_congr_left' (mem_mentions sound))
  typesDistinct := fun t u mentioned same =>
    Arrangement.type_inj ((mem_mentions sound).mpr mentioned) same
  names := fun t mentioned => Arrangement.typeName_table ((mem_mentions sound).mpr mentioned)
  fieldsOf := fun t mentioned =>
    Arrangement.fieldsOf_table (over_arrangement sound) rfl (known_of_mentions sound mentioned)
  fields := fun f known => by
    rw [SymbolTable.field?_eq known]
    exact Arrangement.field?_table ((complete_outline sound).fields f known)
  methods := fun m' => (Arrangement.hasMethod_table_iff h.nodup_declared).trans
    (exists_congr fun m => and_congr_left' (mem_declared sound))
  methodsDistinct := fun m n known same =>
    Arrangement.method_inj ((complete_outline sound).methods m known) same
  signatures := fun m known => by
    rw [SymbolTable.method?_eq known]
    exact Arrangement.method?_table ((complete_outline sound).methods m known)
  bodiless := fun m known absent => by rw [body?_reloaded sound known, absent, Option.map_none]
  bodies := fun m b found => by
    obtain ⟨member, rfl⟩ := body?_eq_some_iff.mp found
    have whole := sound.bodies b member
    refine ⟨h.arrangement.body b, Code.relabel b.code, ?_, Body.same_body _ whole.attached⟩
    rw [body?_reloaded sound whole.method, found, Option.map_some]

end Sound

end Host

namespace Image

/-- A host that was read from an image, has a method, and holds only plain names and no integer
    that cannot be read, is read back from its printed image: the same host under other handles. -/
theorem read_print {image : String} {h : Host} (success : read image = .ok h)
    (some_ : h.symbols.methods ≠ []) (plain : h.Plain) :
    ∃ h' a, read (print h) = .ok h' ∧ h.SameUnder a h' := by
  have sound := read_sound success
  exact ⟨h.reloaded, h.arrangement, read_printed sound plain fun blank => some_ blank.1,
    Host.same_reloaded sound⟩

/-- An image with a number sign in a string, two labels at one position, and a region up to the
    end. -/
def ringingImage : String :=
  ".class A\n.field static B x\n.end\n.method void A::f()\nt: u: ldstr \"a # b\"\nbr t\n" ++
    "h: br u\n.try t h h @end catch E\n.end\n"

/-- The host of `ringingImage`. -/
def ringingHost : Host where
  symbols := ⟨["A", "B", "E"], [⟨⟨0⟩, "x", ⟨1⟩, true⟩],
    [⟨⟨⟨0⟩, "f", [], none, false⟩, "A::f()"⟩]⟩
  bodies := .single ⟨⟨0⟩,
    [⟨.ldstr, .text "a # b", [⟨0⟩, ⟨1⟩]⟩, ⟨.br, .label ⟨0⟩, []⟩, ⟨.br, .label ⟨1⟩, []⟩],
    [], [⟨.catching ⟨2⟩, 0, 2, 2, 3⟩], 2⟩
  applied := []

theorem ringingHost_printed : read ringingImage = .ok ringingHost ∧
    ringingHost.symbols.methods ≠ [] ∧ ringingHost.Plain ∧
    ∃ h' a, read (print ringingHost) = .ok h' ∧ ringingHost.SameUnder a h' := by
  have success : read ringingImage = .ok ringingHost := by decide +kernel
  have some_ : ringingHost.symbols.methods ≠ [] := by decide
  have plain : ringingHost.Plain := ⟨⟨by decide, by decide, by decide⟩, by decide⟩
  exact ⟨success, some_, plain, read_print success some_ plain⟩

/-- An image with a class without fields that nothing mentions. -/
def fieldlessImage : String :=
  ".class A\n.end\n.extern void B::f()\n"

/-- Its class `A` is lost when it is printed. -/
theorem fieldlessImage_lost : ∃ h h', read fieldlessImage = .ok h ∧ h.symbols.methods ≠ [] ∧
    h.Plain ∧ read (print h) = .ok h' ∧ "A" ∈ h.symbols.typeNames ∧
    "A" ∉ h'.symbols.typeNames := by
  refine ⟨⟨⟨["A", "B"], [], [⟨⟨⟨1⟩, "f", [], none, false⟩, "B::f()"⟩]⟩, ∅, []⟩,
    ⟨⟨["B"], [], [⟨⟨⟨0⟩, "f", [], none, false⟩, "B::f()"⟩]⟩, ∅, []⟩,
    by rfl, by decide, ⟨⟨by decide, by decide, by decide⟩, by decide⟩, by rfl, by decide, by decide⟩

end Image

end HookSplice
