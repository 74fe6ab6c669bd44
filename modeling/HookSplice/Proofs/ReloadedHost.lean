import HookSplice.Proofs.PrintedImage
import HookSplice.Proofs.ReloadedBody

/-!
# Hosts that were printed and read again

A sound host with plain names reads back as the host under its own arrangement: the order in which
its printed image declares symbols.
-/

namespace HookSplice

namespace Host

/-! ### The order of a printed image -/

/-- The methods in the order of a printed image: those without a body come first. -/
def declared (h : Host) : List MethodId :=
  h.missing ++ h.bodies.toList.map Body.method

theorem mem_missing {h : Host} {m : MethodId} :
    m ∈ h.missing ↔ h.symbols.hasMethod m ∧ h.body? m = none := by
  unfold missing
  rw [List.mem_filter, SymbolTable.mem_methodIds, Option.isNone_iff_eq_none]

theorem nodup_declared (h : Host) : h.declared.Nodup := by
  refine List.Nodup.append (h.symbols.nodup_methodIds.filter _) h.bodies.nodup_methods ?_
  intro m member member'
  exact body?_eq_none_iff.mp (mem_missing.mp member).2 member'

/-- What the first pass over a printed image declares. -/
def outline (h : Host) : Arrangement where
  mentions := h.symbols.typeIds.flatMap h.symbols.classMentions ++
    h.declared.flatMap fun m => (h.symbols.methodRow m).signature.types
  fields := h.symbols.typeIds.flatMap h.symbols.fieldsOf
  methods := h.declared

/-- What both passes over a printed image declare. -/
def arrangement (h : Host) : Arrangement :=
  h.outline.mention (h.bodies.toList.flatMap Body.mentions)

/-- The new handles of the bodies' methods are in the old order. -/
theorem ordered_reloaded (h : Host) :
    (h.bodies.toList.map h.arrangement.body).Pairwise fun a b =>
      a.method.index < b.method.index := by
  rw [List.pairwise_map, List.pairwise_iff_getElem]
  intro i j below below' less
  have place {k : Nat} (inside : k < h.bodies.toList.length) :
      (h.arrangement.method h.bodies.toList[k].method).index = h.missing.length + k := by
    have at_ : h.declared[h.missing.length + k]? = some h.bodies.toList[k].method := by
      unfold declared
      rw [List.getElem?_append_right (Nat.le_add_right _ _), Nat.add_sub_cancel_left,
        List.getElem?_map, List.getElem?_eq_getElem inside]
      rfl
    obtain ⟨within, here⟩ := List.getElem?_eq_some_iff.mp at_
    show h.declared.idxOf _ = _
    rw [← here]
    exact h.nodup_declared.idxOf_getElem _ within
  show (h.arrangement.method h.bodies.toList[i].method).index <
    (h.arrangement.method h.bodies.toList[j].method).index
  rw [place below, place below']
  omega

/-- The host under its own arrangement. -/
def reloaded (h : Host) : Host :=
  ⟨h.arrangement.table h.symbols,
    ⟨h.bodies.toList.map h.arrangement.body, h.ordered_reloaded⟩, []⟩

/-- A host with nothing to print has neither methods nor fields. -/
def Blank (h : Host) : Prop :=
  h.symbols.methods = [] ∧ h.symbols.fields = []

instance (h : Host) : Decidable h.Blank :=
  inferInstanceAs (Decidable (_ ∧ _))

section Sound

variable {h : Host} (sound : h.Sound)
include sound

theorem mem_declared {m : MethodId} : m ∈ h.declared ↔ h.symbols.hasMethod m := by
  unfold declared
  rw [List.mem_append, mem_missing]
  constructor
  · rintro (⟨known, -⟩ | member)
    · exact known
    · obtain ⟨b, inBodies, rfl⟩ := List.mem_map.mp member
      exact (sound.bodies b inBodies).method
  · intro known
    by_cases bodied : m ∈ h.bodies.toList.map Body.method
    · exact Or.inr bodied
    · exact Or.inl ⟨known, body?_eq_none_iff.mpr bodied⟩

theorem complete_outline : h.outline.Complete h.symbols where
  fields := fun _ known =>
    List.mem_flatMap.mpr ⟨_, SymbolTable.mem_typeIds.mpr (sound.symbols.owner_known known),
      SymbolTable.mem_fieldsOf.mpr ⟨known, rfl⟩⟩
  methods := fun _ known => (mem_declared sound).mpr known

end Sound

end Host

namespace Image

section Host

variable {h : Host} (sound : h.Sound) (plain : h.Plain)
include sound

/-- Something is printed, unless there is nothing to print. -/
theorem imageTexts_ne_nil (something : ¬ h.Blank) : imageTexts h ≠ [] := by
  intro none_
  unfold imageTexts at none_
  rw [List.append_eq_nil_iff, List.append_eq_nil_iff] at none_
  obtain ⟨⟨classes, externs⟩, bodies⟩ := none_
  refine something ⟨?_, ?_⟩
  · have undeclared : h.declared = [] := by
      unfold Host.declared
      rw [List.map_eq_nil_iff.mp externs, List.nil_append, List.map_eq_nil_iff]
      cases shape : h.bodies.toList with
      | nil => rfl
      | cons b rest =>
          rw [shape] at bodies
          cases bodies
    refine List.eq_nil_iff_forall_not_mem.mpr fun e member => ?_
    obtain ⟨i, below, -⟩ := List.mem_iff_getElem.mp member
    have known : h.symbols.hasMethod ⟨i⟩ := decide_eq_true below
    rw [← Host.mem_declared sound, undeclared] at known
    cases known
  · refine List.eq_nil_iff_forall_not_mem.mpr fun d member => ?_
    obtain ⟨i, below, -⟩ := List.mem_iff_getElem.mp member
    have known : h.symbols.hasField ⟨i⟩ := decide_eq_true below
    have owner := sound.symbols.owner_known known
    have none_ := List.flatMap_eq_nil_iff.mp classes _ (SymbolTable.mem_typeIds.mpr owner)
    unfold SymbolTable.classTexts at none_
    rw [if_neg (List.ne_nil_of_mem (SymbolTable.mem_fieldsOf.mpr ⟨known, rfl⟩))] at none_
    cases none_

include plain

/-- The bodies read back one by one, and are put in behind those read so far. -/
theorem readBodies_printed {z : Arrangement}
    {rest : List Body} (inHost : ∀ b ∈ rest, b ∈ h.bodies) {a : Arrangement}
    (drawn : a.Over h.symbols) (complete : a.Complete h.symbols) {earlier : Bodies}
    {pending : List PendingBody}
    (shape : pending.map PendingBody.content =
      rest.map fun b => (z.method b.method, bodyTexts h.symbols b))
    (below : (a.mention (rest.flatMap Body.mentions)).Below z) :
    readBodies ⟨a.table h.symbols, earlier, []⟩ pending =
      .ok ⟨(a.mention (rest.flatMap Body.mentions)).table h.symbols,
        earlier.insertAll (rest.map z.body), []⟩ := by
  induction rest generalizing a earlier pending with
  | nil =>
      rw [List.map_eq_nil_iff.mp shape, List.flatMap_nil, Arrangement.mention_nil]
      rfl
  | cons b rest ih =>
      obtain ⟨p, more, rfl, first, shape'⟩ := List.map_eq_cons_iff.mp shape
      obtain ⟨method, lines⟩ := Prod.mk.inj first
      have member := inHost b (List.mem_cons_self ..)
      have whole := sound.bodies b member
      rw [List.flatMap_cons, ← Arrangement.mention_mention] at below ⊢
      have belowFirst := ((a.mention b.mentions).below_mention _).trans below
      have read := readBody_printed sound.symbols plain.names sound.legible whole
        (plain.integers b member) drawn complete method lines belowFirst
      have declared : ((a.mention b.mentions).table h.symbols).method? (z.body b).method =
          some ((a.mention b.mentions).methodDef (h.symbols.methodRow b.method).signature) := by
        have inA := complete.methods b.method whole.method
        have stays : z.method b.method = (a.mention b.mentions).method b.method :=
          belowFirst.method inA
        show _ = _
        rw [Arrangement.body, stays]
        exact Arrangement.method?_table inA
      rw [readBodies, read, Except.ok_bind]
      simp only [Host.replaceBody, declared]
      exact ih (fun other inside => inHost other (.tail _ inside))
        (drawn.mention whole.mentioned) (complete.mention _) shape' below

/-- A sound host with plain names reads back as the host under its own arrangement. -/
theorem read_printed (something : ¬ h.Blank) : read (print h) = .ok h.reloaded := by
  have texts := texts_print sound plain
  have methods : (h.bodies.toList.map fun b => (b.method, bodyTexts h.symbols b)).map Prod.fst =
      h.bodies.toList.map Body.method := by
    rw [List.map_map]
    rfl
  obtain ⟨drawn, pending, outline, content⟩ := readOutline_printed sound.symbols plain.names
    sound.legible (fun m member => (Host.mem_missing.mp member).1)
    (fun p (member : p ∈ h.bodies.toList.map fun b => (b.method, bodyTexts h.symbols b)) => by
      obtain ⟨b, inBodies, rfl⟩ := List.mem_map.mp member
      exact ⟨(sound.bodies b inBodies).method, fun text inside =>
        bodyTexts_ne_end sound.symbols plain.names sound.legible.named
          (sound.bodies b inBodies).printable inside⟩)
    (by rw [methods]; exact h.nodup_declared) (z := h.outline)
    (by rw [methods]; rfl) rfl (by rw [methods]; rfl) texts
  have bodies : readBodies ⟨_, ∅, []⟩ pending = .ok ⟨_, _, []⟩ :=
    readBodies_printed sound plain (z := h.arrangement) (fun _ member => member) drawn
      (Host.complete_outline sound) (by
        rw [content, List.map_map]
        rfl) (Arrangement.Below.refl _)
  have same : (∅ : Bodies).insertAll (h.bodies.toList.map h.arrangement.body) =
      h.reloaded.bodies := Bodies.ext (Bodies.toList_insertAll h.ordered_reloaded)
  rw [same] at bodies
  unfold read
  simp only
  rw [if_neg, outline, Except.ok_bind]
  · exact bodies
  · intro none_
    refine imageTexts_ne_nil sound something ?_
    rw [← texts, List.isEmpty_iff.mp none_]
    rfl

end Host

end Image

end HookSplice
