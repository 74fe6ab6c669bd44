import HookSplice.Proofs.Labels
import HookSplice.Proofs.Splicing

/-!
# Positions after an insertion

Where the instructions and labels of a body stand after a run was inserted at a point and a stub
put at the end.  An instruction at the point or behind it moves by the length of the run.  A label
at the point does not move, as it is attached to the first inserted instruction now, and neither
does the boundary of a region there; so a region is around an old position as before, and around
the inserted ones if it was around the point.
-/

namespace HookSplice

namespace Splice

/-- Where the instruction at a position stands after `count` others were inserted at `point`. -/
def moved (point count i : Nat) : Nat :=
  if point ≤ i then i + count else i

variable {point count : Nat}

/-- Control that goes on behind a moved instruction arrives where the next label has moved. -/
theorem moved_succ (i : Nat) :
    moved point count i + 1 = Region.shiftBound point count (i + 1) := by
  unfold moved Region.shiftBound
  split <;> split <;> omega

theorem moved_of_ne {i : Nat} (differs : i ≠ point) :
    moved point count i = Region.shiftBound point count i := by
  unfold moved Region.shiftBound
  split <;> split <;> omega

theorem shiftBound_self : Region.shiftBound point count point = point :=
  if_neg (Nat.lt_irrefl point)

/-! ### Regions -/

theorem shiftBound_le_moved {b i : Nat} :
    Region.shiftBound point count b ≤ moved point count i ↔ b ≤ i := by
  unfold moved Region.shiftBound
  split <;> split <;> omega

theorem shiftBound_le_shiftBound {b i : Nat} :
    Region.shiftBound point count b ≤ Region.shiftBound point count i ↔ b ≤ i := by
  unfold Region.shiftBound
  split <;> split <;> omega

theorem shiftBound_le_inside {b o : Nat} (inside : o < count) :
    Region.shiftBound point count b ≤ point + o ↔ b ≤ point := by
  unfold Region.shiftBound
  split <;> omega

variable (r : Region)

theorem protects_moved (i : Nat) :
    (r.shiftAfter point count).protects (moved point count i) = r.protects i := by
  simp only [Region.protects, Region.shiftAfter, ← Nat.not_le, shiftBound_le_moved]

theorem handles_moved (i : Nat) :
    (r.shiftAfter point count).handles (moved point count i) = r.handles i := by
  simp only [Region.handles, Region.shiftAfter, ← Nat.not_le, shiftBound_le_moved]

theorem protects_shiftBound (i : Nat) :
    (r.shiftAfter point count).protects (Region.shiftBound point count i) = r.protects i := by
  simp only [Region.protects, Region.shiftAfter, ← Nat.not_le, shiftBound_le_shiftBound]

theorem handles_shiftBound (i : Nat) :
    (r.shiftAfter point count).handles (Region.shiftBound point count i) = r.handles i := by
  simp only [Region.handles, Region.shiftAfter, ← Nat.not_le, shiftBound_le_shiftBound]

theorem protects_inside {o : Nat} (inside : o < count) :
    (r.shiftAfter point count).protects (point + o) = r.protects point := by
  simp only [Region.protects, Region.shiftAfter, ← Nat.not_le, shiftBound_le_inside inside]

theorem handles_inside {o : Nat} (inside : o < count) :
    (r.shiftAfter point count).handles (point + o) = r.handles point := by
  simp only [Region.handles, Region.shiftAfter, ← Nat.not_le, shiftBound_le_inside inside]

theorem inBounds_shiftAfter {size size' : Nat} (inside : StackMap.inBounds size r)
    (grows : size + count ≤ size') : StackMap.inBounds size' (r.shiftAfter point count) := by
  simp only [StackMap.inBounds, Bool.and_eq_true, decide_eq_true_eq] at inside ⊢
  obtain ⟨⟨⟨tryOrdered, handlerOrdered⟩, tryEnd⟩, handlerEnd⟩ := inside
  simp only [Region.shiftAfter, ← Nat.not_le, shiftBound_le_shiftBound]
  refine ⟨⟨⟨by omega, by omega⟩, ?_⟩, ?_⟩ <;> unfold Region.shiftBound <;> split <;> omega

/-! ### Code -/

section Code

variable {code run stub : List Instruction}

theorem labels_withLabels (labels : List Label) (nonempty : run ≠ []) :
    Code.labels (withLabels labels run) = labels ++ Code.labels run := by
  cases run with
  | nil => exact absurd rfl nonempty
  | cons first rest => simp [withLabels, Code.labels]

theorem length_withLabels (labels : List Label) :
    (withLabels labels run).length = run.length := by
  cases run <;> rfl

theorem position?_withLabels {labels : List Label} {l : Label} (other : l ∉ labels) :
    Code.position? (withLabels labels run) l = Code.position? run l := by
  cases run with
  | nil => rfl
  | cons first rest => simp [withLabels, Code.position?, List.findIdx?_cons, other]

/-- Labels in front of a run change its first instruction's labels only. -/
theorem withLabels_getElem? (labels : List Label) {o : Nat} {ins : Instruction}
    (here : run[o]? = some ins) : ∃ ins', (withLabels labels run)[o]? = some ins' ∧
      ins'.Alike ins ∧ ins.labels ⊆ ins'.labels ∧ (o = 0 → labels ⊆ ins'.labels) := by
  cases run with
  | nil => cases here
  | cons first rest =>
      cases o with
      | zero =>
          cases here
          exact ⟨_, rfl, ⟨rfl, rfl⟩, List.subset_append_right _ _,
            fun _ => List.subset_append_left _ _⟩
      | succ o => exact ⟨ins, here, .refl ins, fun _ => id, by simp⟩

/-- The code around an insertion point. -/
theorem insertRun_eq {here : Instruction} (there : code[point]? = some here) :
    insertRun code point run = code.take point ++ (withLabels here.labels run ++
      { here with labels := [] } :: code.drop (point + 1)) := by
  obtain ⟨below, rfl⟩ := List.getElem?_eq_some_iff.mp there
  unfold insertRun
  rw [List.drop_eq_getElem_cons below]
  simp

variable (run) in
theorem length_insertRun (inside : point < code.length) :
    (insertRun code point run).length = code.length + run.length := by
  rw [insertRun_eq (List.getElem?_eq_getElem inside)]
  simp only [List.length_append, List.length_take, length_withLabels, List.length_cons,
    List.length_drop]
  omega

/-- The labels of the new code are those of the old code and of the run. -/
theorem labels_insertRun (inside : point < code.length) (nonempty : run ≠ []) :
    (Code.labels (insertRun code point run)).Perm (Code.labels code ++ Code.labels run) := by
  have there := List.getElem?_eq_getElem inside
  have split : Code.labels code = Code.labels (code.take point) ++ (code[point].labels ++
      Code.labels (code.drop (point + 1))) := by
    have parts : code = code.take point ++ code[point] :: code.drop (point + 1) := by
      rw [← List.drop_eq_getElem_cons inside, List.take_append_drop]
    simpa only [Code.labels, List.flatMap_append, List.flatMap_cons] using
      congrArg Code.labels parts
  have joined : Code.labels (insertRun code point run) = Code.labels (code.take point) ++
      (code[point].labels ++ (Code.labels run ++ Code.labels (code.drop (point + 1)))) := by
    rw [insertRun_eq there]
    have first := labels_withLabels code[point].labels nonempty
    simp only [Code.labels, List.flatMap_append, List.flatMap_cons, List.nil_append] at first ⊢
    rw [first, List.append_assoc]
  rw [split, joined, List.append_assoc, List.append_assoc]
  exact ((List.perm_append_comm.append_left _).append_left _)

variable (run) in
/-- An old instruction stands at its moved position.  Only the one at the point loses its
    labels. -/
theorem insertRun_moved {i : Nat} {ins : Instruction} (inside : point < code.length)
    (here : code[i]? = some ins) :
    ∃ ins', (insertRun code point run)[moved point run.length i]? = some ins' ∧
      ins'.Alike ins ∧ (i ≠ point → ins' = ins) := by
  rw [insertRun_eq (List.getElem?_eq_getElem inside)]
  have length : (code.take point).length = point := by simp; omega
  unfold moved
  rcases Nat.lt_trichotomy i point with before | rfl | behind
  · rw [if_neg (by omega), List.getElem?_append_left (by omega), List.getElem?_take,
      if_pos before, here]
    exact ⟨ins, rfl, .refl ins, fun _ => rfl⟩
  · obtain ⟨_, rfl⟩ := List.getElem?_eq_some_iff.mp here
    rw [if_pos (Nat.le_refl i), List.getElem?_append_right (by omega), length,
      List.getElem?_append_right (by simp [length_withLabels])]
    simp only [length_withLabels, Nat.add_sub_cancel_left, Nat.sub_self, List.getElem?_cons_zero]
    exact ⟨_, rfl, ⟨rfl, rfl⟩, fun differs => absurd rfl differs⟩
  · rw [if_pos (by omega), List.getElem?_append_right (by omega), length,
      List.getElem?_append_right (by simp only [length_withLabels]; omega)]
    rw [length_withLabels, show i + run.length - point - run.length = i - (point + 1) + 1 by omega,
      List.getElem?_cons_succ, List.getElem?_drop,
      show point + 1 + (i - (point + 1)) = i by omega, here]
    exact ⟨ins, rfl, .refl ins, fun _ => rfl⟩

/-- An instruction of the run stands at its offset behind the point.  The first one has taken over
    the labels of the point. -/
theorem insertRun_inside {o : Nat} {ins here : Instruction} (there : code[point]? = some here)
    (inRun : run[o]? = some ins) :
    ∃ ins', (insertRun code point run)[point + o]? = some ins' ∧ ins'.Alike ins ∧
      ins.labels ⊆ ins'.labels ∧ (o = 0 → here.labels ⊆ ins'.labels) := by
  have below := (List.getElem?_eq_some_iff.mp there).1
  have within := (List.getElem?_eq_some_iff.mp inRun).1
  have length : (code.take point).length = point := by simp; omega
  rw [insertRun_eq there, List.getElem?_append_right (by omega), length,
    Nat.add_sub_cancel_left, List.getElem?_append_left (by rw [length_withLabels]; exact within)]
  exact withLabels_getElem? _ inRun

/-- Where a position of the new code comes from. -/
theorem insertRun_cases {p : Nat} (inside : point < code.length)
    (below : p < code.length + run.length) :
    (∃ i, i < code.length ∧ p = moved point run.length i) ∨
      ∃ o, o < run.length ∧ p = point + o := by
  by_cases before : p < point
  · exact Or.inl ⟨p, by omega, (if_neg (by omega)).symm⟩
  by_cases within : p < point + run.length
  · exact Or.inr ⟨p - point, by omega, by omega⟩
  · refine Or.inl ⟨p - run.length, by omega, ?_⟩
    unfold moved
    rw [if_pos (by omega)]
    omega

/-! ### Labels -/

variable (inside : point < code.length)
  (distinct : (Code.labels (insertRun code point run ++ stub)).Nodup)
include inside distinct

/-- A label of the old code resolves to where it has moved. -/
theorem position?_old {l : Label} {p : Nat} (found : Code.position? code l = some p)
    (nonempty : run ≠ []) :
    Code.position? (insertRun code point run ++ stub) l =
      some (Region.shiftBound point run.length p) := by
  obtain ⟨ins, here, attached⟩ := Code.exists_of_position? found
  refine (Code.position?_eq_some_iff distinct).mpr ?_
  by_cases atPoint : p = point
  · subst atPoint
    obtain ⟨first, first?⟩ : ∃ first, run[0]? = some first := by
      cases run with
      | nil => exact absurd rfl nonempty
      | cons first rest => exact ⟨first, rfl⟩
    obtain ⟨ins', here', -, -, taken⟩ := insertRun_inside here first?
    rw [shiftBound_self]
    exact ⟨ins', getElem?_append_of_eq_some here' stub, taken rfl attached⟩
  · obtain ⟨ins', here', -, same⟩ := insertRun_moved run inside here
    rw [← moved_of_ne atPoint]
    exact ⟨ins', getElem?_append_of_eq_some here' stub, same atPoint ▸ attached⟩

/-- A label of the run resolves to its offset behind the point. -/
theorem position?_run {l : Label} {o : Nat} (found : Code.position? run l = some o) :
    Code.position? (insertRun code point run ++ stub) l = some (point + o) := by
  obtain ⟨ins, here, attached⟩ := Code.exists_of_position? found
  obtain ⟨ins', here', -, kept, -⟩ := insertRun_inside (List.getElem?_eq_getElem inside) here
  exact (Code.position?_eq_some_iff distinct).mpr
    ⟨ins', getElem?_append_of_eq_some here' stub, kept attached⟩

end Code

/-! ### The deny site -/

theorem attachAt_getElem? (target : Nat) (labels : List Label) {code : List Instruction} {i : Nat}
    {ins : Instruction} (here : code[i]? = some ins) :
    ∃ ins', (attachAt code target labels)[i]? = some ins' ∧ ins'.Alike ins ∧
      ins.labels ⊆ ins'.labels ∧ (i = target → labels ⊆ ins'.labels) := by
  unfold attachAt
  rw [List.getElem?_modify, here]
  by_cases equal : target = i
  · simp only [if_pos equal]
    exact ⟨_, rfl, ⟨rfl, rfl⟩, List.subset_append_left _ _, fun _ => List.subset_append_right _ _⟩
  · simp only [if_neg equal]
    exact ⟨ins, rfl, .refl ins, fun _ => id, fun same => absurd same.symm equal⟩

theorem length_attachAt (code : List Instruction) (target : Nat) (labels : List Label) :
    (attachAt code target labels).length = code.length :=
  List.length_modify ..

theorem labels_attachAt {code : List Instruction} {target : Nat} (labels : List Label)
    (inside : target < code.length) :
    (Code.labels (attachAt code target labels)).Perm (Code.labels code ++ labels) := by
  unfold attachAt
  induction code generalizing target with
  | nil => simp at inside
  | cons ins rest ih =>
      cases target with
      | zero =>
          simp only [List.modify_zero_cons, Code.labels, List.flatMap_cons, Instruction.attach,
            List.append_assoc]
          exact List.perm_append_comm.append_left _
      | succ target =>
          have later := ih (Nat.lt_of_succ_lt_succ inside)
          simp only [List.modify_succ_cons, Code.labels, List.flatMap_cons, List.append_assoc]
            at later ⊢
          exact later.append_left _

theorem locate_lt {a : Anchor} {code : List Instruction} {target : Nat}
    (found : a.locate code = .ok target) : target < code.length := by
  unfold Anchor.locate Anchor.resolve at found
  simp only at found
  split at found
  · cases found
  split at found
  · cases found
  split at found
  · cases found
  next point resolved =>
    cases found
    unfold Anchor.pointAt? at resolved
    simp only at resolved
    split at resolved
    · next within =>
        cases resolved
        simp only
        omega
    · cases resolved

/-- The deny label stands at the start of the stub. -/
theorem position?_returnStub (depth : Nat) (v : ReturnValue) (label : Label) :
    Code.position? (returnStub depth v label) label = some 0 := by
  cases code : List.replicate depth (Instruction.plain .pop) ++ v.load ++ [.plain .ret] with
  | nil => simp at code
  | cons first rest => simp [returnStub, code, withLabels, Code.position?, List.findIdx?_cons]

/-- A return stub carries the deny label at its start, and no other one. -/
theorem labels_returnStub (depth : Nat) (v : ReturnValue) (label : Label) :
    Code.labels (returnStub depth v label) = [label] := by
  have unlabelled : Code.labels (List.replicate depth (.plain .pop) ++ v.load ++
      [.plain .ret]) = [] := by
    simp only [Code.labels, List.flatMap_append, List.append_eq_nil_iff, List.flatMap_eq_nil_iff]
    refine ⟨⟨fun ins member => ?_, fun ins member => ?_⟩, by simp [Instruction.plain,
      Instruction.of]⟩
    · rw [List.eq_of_mem_replicate member]
      rfl
    · cases v <;> simp [ReturnValue.load] at member <;> rw [member] <;> rfl
  unfold returnStub
  rw [labels_withLabels _ (by simp), unlabelled, List.append_nil]

end Splice

end HookSplice
