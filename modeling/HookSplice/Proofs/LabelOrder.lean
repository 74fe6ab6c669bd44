import HookSplice.Proofs.Hosts
import HookSplice.Proofs.LabelNames

/-!
# Labels that are numbered anew

The reader numbers the names that branches use by position, and at one position by name.  In a
printed body in which exactly the attached labels are used this gives each label a new number:
`relabel` is the bijection, and `byName` the order of the labels at one position.
-/

namespace HookSplice

theorem idxOf_map_on {α β : Type} [BEq α] [LawfulBEq α] [BEq β] [LawfulBEq β] {f : α → β}
    {xs : List α} {x : α} (only : ∀ y ∈ xs, f y = f x → y = x) :
    (xs.map f).idxOf (f x) = xs.idxOf x := by
  induction xs with
  | nil => rfl
  | cons y rest ih =>
      rw [List.map_cons, List.idxOf_cons, List.idxOf_cons,
        ih fun z member => only z (.tail _ member)]
      by_cases equal : y = x
      · rw [equal, beq_self_eq_true, beq_self_eq_true]
      · have differ : f y ≠ f x := fun same => equal (only y (List.mem_cons_self ..) same)
        rw [beq_false_of_ne equal, beq_false_of_ne differ]

theorem zipIdx_eq_map {α : Type} [BEq α] [LawfulBEq α] {xs : List α} (distinct : xs.Nodup) :
    xs.zipIdx = xs.map fun x => (x, xs.idxOf x) := by
  refine List.ext_getElem (by simp) fun i below below' => ?_
  rw [List.length_map] at below'
  simp [distinct.idxOf_getElem i below']

/-- Only the element at one position contributes. -/
theorem flatMap_zipIdx_single {α β : Type} {xs : List α} {i : Nat} {x : α} (start : Nat)
    (here : xs[i]? = some x) (g : α → List β) :
    ((xs.zipIdx start).flatMap fun entry => if entry.2 = start + i then g entry.1 else []) =
      g x := by
  have later (ys : List α) (first : Nat) (beyond : start + i < first) :
      ((ys.zipIdx first).flatMap fun entry => if entry.2 = start + i then g entry.1 else []) =
        [] := by
    rw [List.flatMap_eq_nil_iff]
    rintro ⟨y, j⟩ member
    have := (List.mem_zipIdx member).1
    exact if_neg (by simp only; omega)
  induction xs generalizing i start with
  | nil => cases here
  | cons y rest ih =>
      rw [List.zipIdx_cons, List.flatMap_cons]
      cases i with
      | zero =>
          cases here
          rw [if_pos (by simp), later _ _ (by omega), List.append_nil]
      | succ n =>
          rw [if_neg (by simp), List.nil_append]
          have shifted : start + (n + 1) = start + 1 + n := by omega
          rw [shifted]
          exact ih (start + 1) here (by
            intro ys first beyond
            rw [← shifted]
            exact later ys first (by omega))

/-- There are no more different labels than numbers for them. -/
theorem Label.length_le_of_nodup {ls : List Label} (distinct : ls.Nodup) {bound : Nat}
    (below : ∀ l ∈ ls, l.number < bound) : ls.length ≤ bound := by
  have numbers : (ls.map number).Nodup := distinct.map fun _ _ => number_inj
  have within : ls.map number ⊆ List.range bound := fun n member => by
    obtain ⟨l, here, rfl⟩ := List.mem_map.mp member
    exact List.mem_range.mpr (below l here)
  have fewer := (List.subperm_of_subset numbers within).length_le
  rwa [List.length_map, List.length_range] at fewer

namespace Image

variable {refs : List (Nat × List Char)}

/-- A reference that a label numbers is found at that number. -/
theorem getElem?_number (few : refs.length < UInt32.size) {entry : (Nat × List Char) × Nat}
    (member : entry ∈ refs.zipIdx) : refs[(Label.ofNat entry.2).number]? = some entry.1 := by
  have here := List.mem_zipIdx_iff_getElem?.mp member
  have below := (List.getElem?_eq_some_iff.mp here).1
  rwa [Label.number_ofNat (Nat.lt_trans below few)]

theorem getElem?_of_numbered (few : refs.length < UInt32.size) {name : List Char} {l : Label}
    (found : (numbered refs).lookup name = some l) : ∃ i, refs[l.number]? = some (i, name) := by
  obtain ⟨⟨⟨i, other⟩, number⟩, member, same⟩ := List.mem_map.mp (mem_of_lookup found)
  obtain ⟨rfl, rfl⟩ := Prod.mk.inj same
  exact ⟨i, getElem?_number few member⟩

theorem numbered_of_getElem? (distinct : (refs.map Prod.snd).Nodup) {i : Nat} {name : List Char}
    {l : Label} (here : refs[l.number]? = some (i, name)) :
    (numbered refs).lookup name = some l := by
  refine lookup_of_mem ?_ (List.mem_map.mpr ⟨((i, name), l.number),
    List.mem_zipIdx_iff_getElem?.mpr here, Prod.ext rfl l.ofNat_number⟩)
  have names : (numbered refs).map Prod.fst = refs.map Prod.snd := by
    unfold numbered
    conv_rhs => rw [← List.zipIdx_map_fst 0 refs]
    rw [List.map_map, List.map_map]
    rfl
  rw [names]
  exact distinct

end Image

open Image (labelName rankedLabels markers ReferenceBefore)

namespace Code

/-- Labels in the order of their names. -/
def byName (code : List Instruction) (ls : List Label) : List Label :=
  Order.sortByText (labelName (rankedLabels code)) ls

/-- The attached labels in the order in which the reader numbers them. -/
def readOrder (code : List Instruction) : List Label :=
  code.flatMap fun ins => byName code ins.labels

/-- The label that a label becomes. -/
def relabel (code : List Instruction) (l : Label) : Label :=
  .ofNat ((readOrder code).idxOf l)

/-- The names of the attached labels with their positions, in the order of the reader. -/
def namedReferences (code : List Instruction) : List (Nat × List Char) :=
  code.zipIdx.flatMap fun (ins, i) =>
    (byName code ins.labels).map fun l => (i, (labelName (rankedLabels code) l).toList)

theorem byName_perm (code : List Instruction) (ls : List Label) : (byName code ls).Perm ls :=
  Order.sortByText_perm _ ls

theorem readOrder_perm (code : List Instruction) : (readOrder code).Perm (labels code) :=
  List.Perm.flatMap_left code fun ins _ => byName_perm code ins.labels

section Names

variable {code : List Instruction} (distinct : (labels code).Nodup)
include distinct

theorem number_relabel {l : Label} (attached : l ∈ labels code) :
    (relabel code l).number = (readOrder code).idxOf l := by
  have perm := readOrder_perm code
  refine Label.number_ofNat (Nat.lt_of_lt_of_le
    (List.idxOf_lt_length_of_mem (perm.mem_iff.mpr attached)) ?_)
  exact Label.length_le_of_nodup (perm.nodup_iff.mpr distinct) fun k _ => k.number_lt

theorem relabel_inj {l k : Label} (attached : l ∈ labels code) (attached' : k ∈ labels code)
    (same : relabel code l = relabel code k) : l = k := by
  have places := congrArg Label.number same
  rw [number_relabel distinct attached, number_relabel distinct attached'] at places
  exact (List.idxOf_inj ((readOrder_perm code).mem_iff.mpr attached)).mp places

theorem names_distinct {ins : Instruction} (member : ins ∈ code) :
    (ins.labels.map (labelName (rankedLabels code))).Nodup := by
  have attached : ∀ l ∈ ins.labels, l ∈ labels code := fun l here =>
    List.mem_flatMap.mpr ⟨ins, member, here⟩
  exact ((List.nodup_flatMap.mp distinct).1 ins member).map_on fun l here k there same =>
    Image.labelName_inj distinct (attached l here) (attached k there) same

/-- The reader's list is in its order. -/
theorem pairwise_namedReferences : (namedReferences code).Pairwise ReferenceBefore := by
  unfold namedReferences
  rw [List.pairwise_flatMap]
  constructor
  · rintro ⟨ins, i⟩ member
    have inCode := List.mem_of_getElem? (List.mem_zipIdx_iff_getElem?.mp member)
    rw [List.pairwise_map]
    refine (Order.pairwise_sortByText _ (names_distinct distinct inCode)).imp fun before => ?_
    refine Or.inr ⟨rfl, ?_⟩
    simpa only [String.ofList_toList] using before
  · rw [List.pairwise_iff_getElem]
    intro i j below below' less a here b there
    obtain ⟨l, -, rfl⟩ := List.mem_map.mp here
    obtain ⟨k, -, rfl⟩ := List.mem_map.mp there
    refine Or.inl ?_
    simpa using less

omit distinct in
theorem mem_namedReferences {i : Nat} {name : List Char} :
    (i, name) ∈ namedReferences code ↔ ∃ ins l, code[i]? = some ins ∧ l ∈ ins.labels ∧
      (labelName (rankedLabels code) l).toList = name := by
  unfold namedReferences
  rw [List.mem_flatMap]
  constructor
  · rintro ⟨⟨ins, j⟩, member, inside⟩
    obtain ⟨l, sorted, same⟩ := List.mem_map.mp inside
    obtain ⟨rfl, named⟩ := Prod.mk.inj same
    exact ⟨ins, l, List.mem_zipIdx_iff_getElem?.mp member,
      (byName_perm code _).mem_iff.mp sorted, named⟩
  · rintro ⟨ins, l, here, member, rfl⟩
    exact ⟨(ins, i), List.mem_zipIdx_iff_getElem?.mpr here,
      List.mem_map.mpr ⟨l, (byName_perm code _).mem_iff.mpr member, rfl⟩⟩

theorem name_inj {l k : Label} (attached : l ∈ labels code) (attached' : k ∈ labels code)
    (same : (labelName (rankedLabels code) l).toList = (labelName (rankedLabels code) k).toList) :
    l = k :=
  Image.labelName_inj distinct attached attached' (String.toList_inj.mp same)

omit distinct in
/-- Without their positions, the references are the names of the labels in the reader's order. -/
theorem map_snd_namedReferences (code : List Instruction) : (namedReferences code).map Prod.snd =
    (readOrder code).map fun l => (labelName (rankedLabels code) l).toList := by
  have rows (h : Instruction → List (List Char)) :
      code.flatMap h = code.zipIdx.flatMap fun entry => h entry.1 := by
    rw [← List.flatMap_map Prod.fst, List.zipIdx_map_fst]
  unfold namedReferences readOrder
  rw [List.map_flatMap, List.map_flatMap, rows]
  refine congrArg (List.flatMap · code.zipIdx) (funext fun entry => ?_)
  rw [List.map_map]
  rfl

omit distinct in
theorem length_namedReferences (code : List Instruction) :
    (namedReferences code).length = (labels code).length := by
  have lists := congrArg List.length (map_snd_namedReferences code)
  rw [List.length_map, List.length_map] at lists
  exact lists.trans (readOrder_perm code).length_eq

theorem nodup_namedReferences_snd : ((namedReferences code).map Prod.snd).Nodup := by
  rw [map_snd_namedReferences]
  refine ((readOrder_perm code).nodup_iff.mpr distinct).map_on fun l here k there same => ?_
  exact name_inj distinct ((readOrder_perm code).mem_iff.mp here)
    ((readOrder_perm code).mem_iff.mp there)
    same

/-- An attached label stands at the place of its new number. -/
theorem idxOf_namedReferences {i : Nat} {ins : Instruction} (here : code[i]? = some ins) {l : Label}
    (member : l ∈ ins.labels) :
    (namedReferences code).idxOf (i, (labelName (rankedLabels code) l).toList) =
      (relabel code l).number := by
  have attached : l ∈ labels code := mem_labels_iff.mpr ⟨i, ins, here, member⟩
  have inside := mem_namedReferences.mpr ⟨ins, l, here, member, rfl⟩
  have bySecond : (namedReferences code).idxOf (i, (labelName (rankedLabels code) l).toList) =
      ((namedReferences code).map Prod.snd).idxOf (labelName (rankedLabels code) l).toList := by
    refine (idxOf_map_on (f := Prod.snd) fun entry member' same => ?_).symm
    exact (List.inj_on_of_nodup_map (nodup_namedReferences_snd distinct)) member' inside same
  rw [bySecond, map_snd_namedReferences, number_relabel distinct attached]
  exact idxOf_map_on fun k member' same =>
    name_inj distinct ((readOrder_perm code).mem_iff.mp member') attached same

/-- The labels of an instruction are put back, under their new numbers. -/
theorem assemble_labels {i : Nat} {ins : Instruction} (here : code[i]? = some ins)
    (raw : Image.RawInstruction) (operand : Operand) :
    Image.assemble (namedReferences code) raw operand i =
      ⟨raw.opcode, operand, (byName code ins.labels).map (relabel code)⟩ := by
  have nodup : (namedReferences code).Nodup := (nodup_namedReferences_snd distinct).of_map
  have local_ : (namedReferences code).filter (fun entry => entry.1 == i) =
      (byName code ins.labels).map fun l => (i, (labelName (rankedLabels code) l).toList) := by
    unfold namedReferences
    rw [List.filter_flatMap, ← flatMap_zipIdx_single 0 here fun ins =>
      (byName code ins.labels).map fun l => (i, (labelName (rankedLabels code) l).toList)]
    refine congrArg (List.flatMap · code.zipIdx) (funext fun entry => ?_)
    obtain ⟨other, j⟩ := entry
    simp only [Nat.zero_add]
    split
    · next same =>
        subst same
        rw [List.filter_eq_self]
        intro entry member
        obtain ⟨l, -, rfl⟩ := List.mem_map.mp member
        exact beq_self_eq_true _
    · next differs =>
        rw [List.filter_eq_nil_iff]
        intro entry member
        obtain ⟨l, -, rfl⟩ := List.mem_map.mp member
        simpa using differs
  have numbers : ((namedReferences code).zipIdx.filter fun entry => entry.1.1 == i).map
      (fun entry => Label.ofNat entry.2) = (byName code ins.labels).map (relabel code) := by
    rw [zipIdx_eq_map nodup, List.filter_map, List.map_map]
    show (((namedReferences code).filter fun entry => entry.1 == i).map _) = _
    rw [local_, List.map_map]
    refine List.map_congr_left fun l member => ?_
    have place := idxOf_namedReferences distinct here ((byName_perm code _).mem_iff.mp member)
    exact (congrArg Label.ofNat place).trans (Label.ofNat_number _)
  unfold Image.assemble
  exact congrArg (Instruction.mk raw.opcode operand) numbers

/-- The name of an attached label finds its new number. -/
theorem lookup_numbered {l : Label} (attached : l ∈ labels code) :
    (Image.numbered (namedReferences code)).lookup (labelName (rankedLabels code) l).toList =
      some (relabel code l) := by
  obtain ⟨i, ins, here, member⟩ := mem_labels_iff.mp attached
  have inside := mem_namedReferences.mpr ⟨ins, l, here, member, rfl⟩
  refine Image.numbered_of_getElem? (nodup_namedReferences_snd distinct) (i := i) ?_
  rw [← idxOf_namedReferences distinct here member]
  exact List.getElem?_idxOf inside

end Names

end Code

namespace Image

/-- A branch among raw instructions uses a name. -/
def Uses (raws : List RawInstruction) (name : List Char) : Prop :=
  ∃ raw ∈ raws, raw.opcode.isBranch ∧ raw.operand = name

theorem uses_cons {raw : RawInstruction} {rest : List RawInstruction} {name : List Char} :
    Uses (raw :: rest) name ↔ (raw.opcode.isBranch ∧ raw.operand = name) ∨ Uses rest name := by
  unfold Uses
  simp only [List.mem_cons, exists_eq_or_imp]

section Referring

variable {defs : List (List Char × Nat)} {raw : RawInstruction} {rest raws : List RawInstruction}
  {found : List (Nat × List Char)} {i : Nat} {name : List Char}

/-- An instruction whose name was found before, or that is no branch, refers to nothing new. -/
theorem referred_cons_of_found
    (kept : ∀ i, defs.lookup raw.operand = some i → raw.opcode.isBranch →
      (i, raw.operand) ∈ found) :
    ((i, name) ∈ found ∨ defs.lookup name = some i ∧ Uses rest name) ↔
      (i, name) ∈ found ∨ defs.lookup name = some i ∧ Uses (raw :: rest) name := by
  rw [uses_cons]
  constructor
  · rintro (old | ⟨at_, later⟩)
    · exact Or.inl old
    · exact Or.inr ⟨at_, Or.inr later⟩
  · rintro (old | ⟨at_, ⟨branch, rfl⟩ | later⟩)
    · exact Or.inl old
    · exact Or.inl (kept i at_ branch)
    · exact Or.inr ⟨at_, later⟩

/-- A branch refers to the position of its label. -/
theorem referred_cons_of_branch {position : Nat} (here : defs.lookup raw.operand = some position)
    (branch : raw.opcode.isBranch) :
    ((i, name) ∈ insertReference position raw.operand found ∨
      defs.lookup name = some i ∧ Uses rest name) ↔
      (i, name) ∈ found ∨ defs.lookup name = some i ∧ Uses (raw :: rest) name := by
  rw [insertReference_eq, List.mem_orderedInsert, uses_cons]
  constructor
  · rintro ((new | old) | ⟨at_, later⟩)
    · obtain ⟨rfl, rfl⟩ := Prod.mk.inj new
      exact Or.inr ⟨here, Or.inl ⟨branch, rfl⟩⟩
    · exact Or.inl old
    · exact Or.inr ⟨at_, Or.inr later⟩
  · rintro (old | ⟨at_, ⟨-, rfl⟩ | later⟩)
    · exact Or.inl (Or.inr old)
    · rw [here, Option.some.injEq] at at_
      exact Or.inl (Or.inl (by rw [at_]))
    · exact Or.inr ⟨at_, later⟩

theorem pairwise_insertReference {position : Nat} (ordered : found.Pairwise ReferenceBefore)
    (fresh : ∀ e ∈ found, e.2 ≠ name) :
    (insertReference position name found).Pairwise ReferenceBefore := by
  rw [insertReference_eq]
  refine pairwise_orderedInsert (fun _ _ _ => .trans) ordered fun e member => ?_
  exact ReferenceBefore.connected fun same => fresh e member (congrArg Prod.snd same.symm)

/-- References that are added to those found before keep the order. -/
theorem references_extend {refs : List (Nat × List Char)}
    (known : ∀ e ∈ found, defs.lookup e.2 = some e.1) (ordered : found.Pairwise ReferenceBefore)
    (success : references defs raws found = .ok refs) :
    refs.Pairwise ReferenceBefore ∧ ∀ {i name}, (i, name) ∈ refs ↔ (i, name) ∈ found ∨
      defs.lookup name = some i ∧ Uses raws name := by
  induction raws generalizing found with
  | nil =>
      cases success
      exact ⟨ordered, by simp [Uses]⟩
  | cons raw rest ih =>
      rw [references] at success
      split at success
      · next branch =>
        split at success
        · cases success
        · next position here =>
          split at success
          · next present =>
              obtain ⟨sorted, members⟩ := ih known ordered success
              refine ⟨sorted, members.trans (referred_cons_of_found fun i at_ _ => ?_)⟩
              obtain ⟨⟨j, name⟩, member, same⟩ := List.any_eq_true.mp present
              obtain rfl := eq_of_beq same
              have unique := at_.symm.trans (known _ member)
              rwa [Option.some.inj unique]
          · next absent =>
              have fresh : ∀ e ∈ found, e.2 ≠ raw.operand := fun e member same =>
                absent (List.any_eq_true.mpr ⟨e, member, beq_iff_eq.mpr same⟩)
              have known' : ∀ e ∈ insertReference position raw.operand found,
                  defs.lookup e.2 = some e.1 := by
                intro e member
                rw [insertReference_eq, List.mem_orderedInsert] at member
                rcases member with rfl | old
                · exact here
                · exact known e old
              obtain ⟨sorted, members⟩ := ih known' (pairwise_insertReference ordered fresh) success
              exact ⟨sorted, members.trans (referred_cons_of_branch here branch)⟩
      · next plain =>
          obtain ⟨sorted, members⟩ := ih known ordered success
          exact ⟨sorted, members.trans
            (referred_cons_of_found fun _ _ branch => absurd branch plain)⟩

/-- The references are in order, and are the names that branches use with their positions. -/
theorem references_eq_ok {refs : List (Nat × List Char)}
    (success : references defs raws [] = .ok refs) :
    refs.Pairwise ReferenceBefore ∧
      ∀ {i name}, (i, name) ∈ refs ↔ defs.lookup name = some i ∧ Uses raws name := by
  obtain ⟨ordered, members⟩ :=
    references_extend (fun _ member => absurd member List.not_mem_nil) List.Pairwise.nil success
  exact ⟨ordered, members.trans (or_iff_right List.not_mem_nil)⟩

end Referring

/-- The references are found, if every branch uses a name that is defined. -/
theorem references_ok {defs : List (List Char × Nat)} {raws : List RawInstruction}
    (defined : ∀ raw ∈ raws, raw.opcode.isBranch → (defs.lookup raw.operand).isSome)
    (found : List (Nat × List Char)) : ∃ refs, references defs raws found = .ok refs := by
  induction raws generalizing found with
  | nil => exact ⟨found, rfl⟩
  | cons raw rest ih =>
      have later := ih fun other member => defined other (.tail _ member)
      rw [references]
      split
      · next branch =>
          obtain ⟨i, here⟩ := Option.isSome_iff_exists.mp
            (defined raw (List.mem_cons_self ..) branch)
          rw [here]
          dsimp only
          split
          · exact later _
          · exact later _
      · exact later _

end Image

end HookSplice
