import HookSplice.Proofs.Labels
import HookSplice.Proofs.OrderedInsertion
import HookSplice.Proofs.PrintedLines
import Mathlib.Data.List.Perm.Basic

/-!
# Names for labels

A printed body names its labels by their rank and the bounds of its regions by their region.  No
two of these names are alike, and each one marks the position of what it names.
-/

namespace HookSplice

namespace Image

open Text (Plain)

/-! ### Shapes of names -/

theorem toList_rankName (rank : Nat) : (rankName rank).toList = 'L' :: Nat.toDigits 10 rank := by
  rw [rankName, String.toList_append, Nat.toString_eq_repr, Nat.toList_repr]
  rfl

theorem toDigits_inj {m n : Nat} (same : Nat.toDigits 10 m = Nat.toDigits 10 n) : m = n := by
  have := congrArg (fun digits => Nat.ofDigitChars 10 digits 0) same
  simpa using this

theorem rankName_inj {m n : Nat} (same : rankName m = rankName n) : m = n := by
  have lists := congrArg String.toList same
  rw [toList_rankName, toList_rankName] at lists
  exact toDigits_inj (List.cons.inj lists).2

theorem isPlain_of_mem_toDigits {n : Nat} {c : Char} (member : c ∈ Nat.toDigits 10 n) :
    Text.isPlain c = true := by
  have digit := Nat.isDigit_of_mem_toDigits (by decide) (by decide) member
  exact Text.isPlain_of_ascii (by simp [Char.isAlphanum, digit])

theorem plain_rankName (rank : Nat) : Plain (rankName rank).toList := by
  rw [toList_rankName]
  intro c member
  rcases List.mem_cons.mp member with rfl | member
  · decide
  · exact isPlain_of_mem_toDigits member

/-- The name of a bound of a region. -/
def boundName (index : Nat) (part : String) : String :=
  "r" ++ toString index ++ "." ++ part

theorem boundNames_eq (index : Nat) (r : Region) : boundNames index r =
    [(r.tryStart, boundName index "try"), (r.tryEnd, boundName index "end"),
      (r.handlerStart, boundName index "handler"), (r.handlerEnd, boundName index "done")] :=
  rfl

theorem toList_boundName (index : Nat) (part : String) :
    (boundName index part).toList = ('r' :: Nat.toDigits 10 index) ++ '.' :: part.toList := by
  unfold boundName
  simp only [String.toList_append, Nat.toString_eq_repr, Nat.toList_repr]
  simp

theorem dot_not_mem_toDigits (n : Nat) : '.' ∉ 'r' :: Nat.toDigits 10 n := by
  intro member
  rcases List.mem_cons.mp member with equal | member
  · cases equal
  · exact absurd (Nat.isDigit_of_mem_toDigits (by decide) (by decide) member) (by decide)

theorem boundName_inj {i j : Nat} {part part' : String}
    (same : boundName i part = boundName j part') : i = j ∧ part = part' := by
  have lists := congrArg String.toList same
  rw [toList_boundName, toList_boundName] at lists
  obtain ⟨indices, parts⟩ :=
    Text.append_cons_inj (dot_not_mem_toDigits _) (dot_not_mem_toDigits _) lists
  exact ⟨toDigits_inj (List.cons.inj indices).2, String.toList_inj.mp parts⟩

theorem rankName_ne_boundName (rank index : Nat) (part : String) :
    rankName rank ≠ boundName index part := by
  intro same
  have lists := congrArg String.toList same
  rw [toList_rankName, toList_boundName] at lists
  have := (List.cons.inj lists).1
  revert this
  decide

/-- No name is that of the end of a body: one starts with a letter, the other with a mark. -/
theorem ne_end_of_head {name : String} {c : Char} {rest : List Char}
    (shape : name.toList = c :: rest)
    (letter : c ≠ '@') : name ≠ "@end" := by
  rintro rfl
  exact letter (List.cons.inj shape).1.symm

/-! ### Ranks -/

theorem filter_zipIdx {α : Type} [DecidableEq α] {xs : List α} (distinct : xs.Nodup) (x : α)
    (start : Nat) : (xs.zipIdx start).filter (fun entry => entry.1 == x) =
      if x ∈ xs then [(x, start + xs.idxOf x)] else [] := by
  induction xs generalizing start with
  | nil => rfl
  | cons y rest ih =>
      obtain ⟨absent, distinct'⟩ := List.nodup_cons.mp distinct
      rw [List.zipIdx_cons, List.filter_cons, ih distinct']
      by_cases equal : y = x
      · subst equal
        simp [absent]
      · rw [beq_false_of_ne equal, List.idxOf_cons, beq_false_of_ne equal]
        by_cases member : x ∈ rest
        · simp only [Bool.false_eq_true, if_false, member, if_true, List.mem_cons, or_true,
            cond_false]
          rw [Nat.add_assoc, Nat.add_comm 1]
        · simp [member, Ne.symm equal]

theorem rankedLabels_perm (code : List Instruction) :
    (rankedLabels code).Perm (Code.labels code) :=
  List.Perm.flatMap_left code fun ins _ => sortLabels_perm ins.labels

/-- The name of a label that is attached once. -/
theorem labelName_eq {code : List Instruction} (distinct : (Code.labels code).Nodup) {l : Label}
    (attached : l ∈ Code.labels code) :
    labelName (rankedLabels code) l = rankName ((rankedLabels code).idxOf l) := by
  have perm := rankedLabels_perm code
  have found : rank? (rankedLabels code) l = some ((rankedLabels code).idxOf l) := by
    unfold rank?
    rw [filter_zipIdx (perm.nodup_iff.mpr distinct), if_pos (perm.mem_iff.mpr attached),
      Nat.zero_add]
    rfl
  rw [labelName, found]

theorem labelName_inj {code : List Instruction} (distinct : (Code.labels code).Nodup) {l k : Label}
    (attached : l ∈ Code.labels code) (attached' : k ∈ Code.labels code)
    (same : labelName (rankedLabels code) l = labelName (rankedLabels code) k) : l = k := by
  rw [labelName_eq distinct attached, labelName_eq distinct attached'] at same
  have ranked := (rankedLabels_perm code).mem_iff.mpr attached
  exact (List.idxOf_inj ranked).mp (rankName_inj same)

/-! ### Markers -/

/-- The names of the bounds of all regions, with the positions they mark. -/
def bounds (body : Body) : List (Nat × String) :=
  body.regions.zipIdx.flatMap fun (r, index) => boundNames index r

theorem mem_boundNames {index : Nat} {r : Region} {entry : Nat × String}
    (member : entry ∈ boundNames index r) : ∃ part, entry.2 = boundName index part := by
  rw [boundNames_eq] at member
  simp only [List.mem_cons, List.not_mem_nil, or_false] at member
  rcases member with rfl | rfl | rfl | rfl <;> exact ⟨_, rfl⟩

theorem nodup_bounds (body : Body) : ((bounds body).map Prod.snd).Nodup := by
  unfold bounds
  rw [List.map_flatMap, List.nodup_flatMap]
  constructor
  · rintro ⟨r, index⟩ -
    show ((boundNames index r).map Prod.snd).Nodup
    rw [boundNames_eq]
    simp only [List.map_cons, List.map_nil, List.nodup_cons, List.mem_cons, List.not_mem_nil,
      or_false, not_or, not_false_eq_true, List.nodup_nil, and_true]
    have differs {part part' : String} (parts : part ≠ part') :
        boundName index part ≠ boundName index part' := fun same => parts (boundName_inj same).2
    exact ⟨⟨differs (by decide), differs (by decide), differs (by decide)⟩,
      ⟨differs (by decide), differs (by decide)⟩, differs (by decide)⟩
  · rw [List.pairwise_iff_getElem]
    intro i j below below' less
    simp only [List.getElem_zipIdx, Nat.zero_add]
    rintro name member member'
    obtain ⟨⟨p, n⟩, here, rfl⟩ := List.mem_map.mp member
    obtain ⟨⟨p', n'⟩, there, same⟩ := List.mem_map.mp member'
    obtain ⟨part, shape⟩ := mem_boundNames here
    obtain ⟨part', shape'⟩ := mem_boundNames there
    rw [shape, shape'] at same
    have := (boundName_inj same).1
    omega

theorem plain_boundNames {index : Nat} {r : Region} {entry : Nat × String}
    (member : entry ∈ boundNames index r) : Plain entry.2.toList := by
  have plain {part : String} (letters : Plain part.toList) :
      Plain (boundName index part).toList := by
    rw [toList_boundName]
    intro c inside
    rcases List.mem_append.mp inside with front | back
    · rcases List.mem_cons.mp front with rfl | digit
      · decide
      · exact isPlain_of_mem_toDigits digit
    · rcases List.mem_cons.mp back with rfl | letter
      · decide
      · exact letters c letter
  rw [boundNames_eq] at member
  simp only [List.mem_cons, List.not_mem_nil, or_false] at member
  rcases member with rfl | rfl | rfl | rfl <;> exact plain (by decide)

theorem boundNames_ne_nil {index : Nat} {r : Region} {entry : Nat × String}
    (member : entry ∈ boundNames index r) : entry.2.toList ≠ [] := by
  obtain ⟨part, shape⟩ := mem_boundNames member
  rw [shape, toList_boundName]
  simp

theorem mem_bounds {body : Body} {i : Nat} {r : Region} (listed : body.regions[i]? = some r)
    {entry : Nat × String} (named : entry ∈ boundNames i r) : entry ∈ bounds body :=
  List.mem_flatMap.mpr ⟨(r, i), List.mem_zipIdx_iff_getElem?.mpr listed, named⟩

theorem mem_bounds_name {body : Body} {entry : Nat × String} (member : entry ∈ bounds body) :
    ∃ index part, entry.2 = boundName index part := by
  obtain ⟨⟨r, index⟩, -, here⟩ := List.mem_flatMap.mp member
  exact ⟨index, mem_boundNames here⟩

theorem mem_markersAt {body : Body} {ranked : List Label} {i : Nat} {ins : Instruction}
    {name : String} : name ∈ markersAt body ranked i ins ↔
      (∃ l ∈ ins.labels, labelName ranked l = name) ∨ (i, name) ∈ bounds body := by
  unfold markersAt
  simp only
  rw [List.mem_append, List.mem_map, List.mem_map]
  refine or_congr ?_ ?_
  · simp only [(sortLabels_perm ins.labels).mem_iff]
  · constructor
    · rintro ⟨⟨p, n⟩, member, rfl⟩
      obtain ⟨inside, here⟩ := List.mem_filter.mp member
      rw [← eq_of_beq here]
      exact inside
    · intro member
      exact ⟨(i, name), List.mem_filter.mpr ⟨member, beq_self_eq_true i⟩, rfl⟩

section Markers

variable {body : Body} (distinct : (Code.labels body.code).Nodup)
include distinct

/-- A marker stands at one position only. -/
theorem marker_unique {i j : Nat} {a b : Instruction} (here : body.code[i]? = some a)
    (there : body.code[j]? = some b) {name : String}
    (marked : name ∈ markersAt body (rankedLabels body.code) i a)
    (marked' : name ∈ markersAt body (rankedLabels body.code) j b) : i = j := by
  have labelled {k : Nat} {ins : Instruction} (at_ : body.code[k]? = some ins) {l : Label}
      (member : l ∈ ins.labels) : l ∈ Code.labels body.code :=
    Code.mem_labels_iff.mpr ⟨k, ins, at_, member⟩
  have apart {k : Nat} {ins : Instruction} (at_ : body.code[k]? = some ins) {l : Label}
      (member : l ∈ ins.labels) {p : Nat} :
      (p, labelName (rankedLabels body.code) l) ∉ bounds body := by
    intro bound
    obtain ⟨index, part, shape⟩ := mem_bounds_name bound
    rw [labelName_eq distinct (labelled at_ member)] at shape
    exact rankName_ne_boundName _ index part shape
  rcases mem_markersAt.mp marked with ⟨l, member, rfl⟩ | bound
  · rcases mem_markersAt.mp marked' with ⟨k, member', same⟩ | bound'
    · obtain rfl := labelName_inj distinct (labelled there member') (labelled here member) same
      exact Code.position_unique distinct here there member member'
    · exact absurd bound' (apart here member)
  · rcases mem_markersAt.mp marked' with ⟨k, member', rfl⟩ | bound'
    · exact absurd bound (apart there member')
    · exact congrArg Prod.fst (List.inj_on_of_nodup_map (nodup_bounds body) bound bound' rfl)

/-- Markers are plain words, and none is the name of the end. -/
theorem plain_marker {i : Nat} {ins : Instruction} (here : body.code[i]? = some ins) {name : String}
    (marked : name ∈ markersAt body (rankedLabels body.code) i ins) :
    Plain name.toList ∧ name.toList ≠ [] ∧ name ≠ "@end" := by
  rcases mem_markersAt.mp marked with ⟨l, member, rfl⟩ | bound
  · rw [labelName_eq distinct (Code.mem_labels_iff.mpr ⟨i, ins, here, member⟩)]
    refine ⟨plain_rankName _, ?_, ne_end_of_head (toList_rankName _) (by decide)⟩
    rw [toList_rankName]
    exact List.cons_ne_nil _ _
  · obtain ⟨⟨r, index⟩, -, inside⟩ := List.mem_flatMap.mp bound
    obtain ⟨part, shape⟩ := mem_boundNames inside
    refine ⟨plain_boundNames inside, boundNames_ne_nil inside, ?_⟩
    obtain rfl : name = boundName index part := shape
    exact ne_end_of_head (toList_boundName ..) (by decide)

theorem nodup_markersAt {i : Nat} {ins : Instruction} (here : body.code[i]? = some ins) :
    (markersAt body (rankedLabels body.code) i ins).Nodup := by
  have attached : ∀ l ∈ ins.labels, l ∈ Code.labels body.code := fun l member =>
    Code.mem_labels_iff.mpr ⟨i, ins, here, member⟩
  have labels : ins.labels.Nodup := (List.nodup_flatMap.mp distinct).1 ins
    (List.mem_of_getElem? here)
  unfold markersAt
  simp only
  refine List.Nodup.append ?_ ?_ ?_
  · refine ((sortLabels_perm ins.labels).nodup_iff.mpr labels).map_on fun l member k member'
      same => ?_
    exact labelName_inj distinct (attached l ((sortLabels_perm ins.labels).mem_iff.mp member))
      (attached k ((sortLabels_perm ins.labels).mem_iff.mp member')) same
  · exact (nodup_bounds body).sublist (List.filter_sublist.map Prod.snd)
  · intro name member member'
    obtain ⟨l, sorted, rfl⟩ := List.mem_map.mp member
    obtain ⟨entry, inside, same⟩ := List.mem_map.mp member'
    obtain ⟨index, part, shape⟩ := mem_bounds_name (List.mem_of_mem_filter inside)
    have here := attached l ((sortLabels_perm ins.labels).mem_iff.mp sorted)
    rw [same, labelName_eq distinct here] at shape
    exact rankName_ne_boundName _ index part shape

end Markers

/-- All markers of a body, with the positions they stand at. -/
def markers (body : Body) : List (List Char × Nat) :=
  body.code.zipIdx.flatMap fun (ins, i) =>
    (markersAt body (rankedLabels body.code) i ins).map fun name => (name.toList, i)

theorem mem_markers {body : Body} {name : String} {i : Nat} :
    (name.toList, i) ∈ markers body ↔ ∃ ins, body.code[i]? = some ins ∧
      name ∈ markersAt body (rankedLabels body.code) i ins := by
  unfold markers
  rw [List.mem_flatMap]
  constructor
  · rintro ⟨⟨ins, j⟩, member, inside⟩
    obtain ⟨other, marked, same⟩ := List.mem_map.mp inside
    obtain ⟨text, rfl⟩ := Prod.mk.inj same
    exact ⟨ins, List.mem_zipIdx_iff_getElem?.mp member, String.toList_inj.mp text ▸ marked⟩
  · rintro ⟨ins, here, marked⟩
    exact ⟨(ins, i), List.mem_zipIdx_iff_getElem?.mpr here, List.mem_map.mpr ⟨name, marked, rfl⟩⟩

/-- The name made from a rank stands where the label of the rank is attached. -/
theorem rankName_mem_markers {body : Body} (distinct : (Code.labels body.code).Nodup)
    {i rank : Nat} : ((rankName rank).toList, i) ∈ markers body ↔
    ∃ ins, body.code[i]? = some ins ∧ ∃ l ∈ ins.labels,
      (rankedLabels body.code).idxOf l = rank := by
  rw [mem_markers]
  refine exists_congr fun ins => and_congr_right fun here => ?_
  have labelled {l : Label} (attached : l ∈ ins.labels) : labelName (rankedLabels body.code) l =
      rankName ((rankedLabels body.code).idxOf l) :=
    labelName_eq distinct (Code.mem_labels_iff.mpr ⟨i, ins, here, attached⟩)
  rw [mem_markersAt]
  constructor
  · rintro (⟨l, attached, name⟩ | bound)
    · exact ⟨l, attached, rankName_inj ((labelled attached).symm.trans name)⟩
    · obtain ⟨index, part, name⟩ := mem_bounds_name bound
      exact absurd name (rankName_ne_boundName _ _ _)
  · rintro ⟨l, attached, rfl⟩
    exact Or.inl ⟨l, attached, labelled attached⟩

/-- No name stands for two markers. -/
theorem nodup_markers {body : Body} (distinct : (Code.labels body.code).Nodup) :
    ((markers body).map Prod.fst).Nodup := by
  unfold markers
  rw [List.map_flatMap, List.nodup_flatMap]
  constructor
  · rintro ⟨ins, i⟩ member
    have names := nodup_markersAt distinct (List.mem_zipIdx_iff_getElem?.mp member)
    rw [List.map_map]
    exact names.map fun a b same => String.toList_inj.mp same
  · rw [List.pairwise_iff_getElem]
    intro i j below below' less name member member'
    simp only [List.getElem_zipIdx, Nat.zero_add, List.map_map, List.mem_map, Function.comp_apply]
      at member member'
    obtain ⟨first, marked, rfl⟩ := member
    obtain ⟨second, marked', same⟩ := member'
    rw [String.toList_inj.mp same] at marked'
    rw [List.length_zipIdx] at below below'
    have := marker_unique distinct (List.getElem?_eq_getElem below)
      (List.getElem?_eq_getElem below') marked marked'
    omega

end Image

end HookSplice
