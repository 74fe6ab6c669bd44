import HookSplice.Body

/-!
# Labels of a body

When no label is attached twice, a label resolves to the one position that carries it.  The
verifier's search for a second attachment is related to the list of all attached labels.  What an
instruction does is independent of the labels attached to it.
-/

namespace HookSplice

/-- The two instructions differ at most in their labels. -/
def Instruction.Alike (a b : Instruction) : Prop :=
  a.opcode = b.opcode ∧ a.operand = b.operand

theorem Instruction.Alike.refl (a : Instruction) : a.Alike a :=
  ⟨rfl, rfl⟩

theorem Instruction.Alike.trans {a b c : Instruction} (first : a.Alike b) (second : b.Alike c) :
    a.Alike c :=
  ⟨first.1.trans second.1, first.2.trans second.2⟩

theorem Instruction.Alike.target? {a b : Instruction} (alike : a.Alike b) :
    a.target? = b.target? := by
  simp [Instruction.target?, alike.2]

theorem Instruction.Alike.operandFits {a b : Instruction} (alike : a.Alike b) :
    a.operandFits = b.operandFits := by
  simp [Instruction.operandFits, alike.1, alike.2]

namespace Code

/-- The labels attached in a list of instructions, in the order of the code. -/
def labels (code : List Instruction) : List Label :=
  code.flatMap Instruction.labels

theorem attached_labels (code : List Instruction) (start : Nat) :
    ((code.zipIdx start).flatMap fun (ins, i) => ins.labels.map fun l => (l, i)).map Prod.fst =
      labels code := by
  induction code generalizing start with
  | nil => rfl
  | cons ins rest ih =>
      simp only [labels, List.zipIdx_cons, List.flatMap_cons, List.map_append, List.map_map]
      rw [ih (start + 1)]
      simp [labels, Function.comp_def]

theorem repeatIn_eq_none_iff (seen rest : List (Label × Nat)) :
    repeatIn seen rest = none ↔
      (rest.map Prod.fst).Nodup ∧ ∀ l ∈ rest.map Prod.fst, seen.lookup l = none := by
  induction rest generalizing seen with
  | nil => simp [repeatIn]
  | cons entry rest ih =>
      obtain ⟨l, i⟩ := entry
      simp only [repeatIn, List.map_cons, List.nodup_cons, List.mem_cons]
      cases found : seen.lookup l with
      | some first =>
          constructor
          · intro h
            cases h
          intro h
          have absent := h.2 l (Or.inl rfl)
          rw [found] at absent
          cases absent
      | none =>
          simp only [ih, List.lookup_cons]
          constructor
          · rintro ⟨distinct, absent⟩
            refine ⟨⟨fun member => ?_, distinct⟩, ?_⟩
            · simpa using absent l member
            · rintro k (rfl | member)
              · exact found
              · have := absent k member
                split at this
                · cases this
                · exact this
          · rintro ⟨⟨fresh, distinct⟩, absent⟩
            refine ⟨distinct, fun k member => ?_⟩
            have different : (k == l) = false := by
              simpa using fun equal : k = l => fresh (equal ▸ member)
            rw [different]
            exact absent k (Or.inr member)

/-- The verifier finds no second attachment exactly when all attached labels differ. -/
theorem duplicate?_eq_none_iff (code : List Instruction) :
    duplicate? code = none ↔ (labels code).Nodup := by
  unfold duplicate? attached
  rw [repeatIn_eq_none_iff, attached_labels]
  simp

theorem mem_labels_iff {code : List Instruction} {l : Label} :
    l ∈ labels code ↔ ∃ (i : Nat) (ins : Instruction), code[i]? = some ins ∧ l ∈ ins.labels := by
  unfold labels
  rw [List.mem_flatMap]
  constructor
  · rintro ⟨ins, member, attachedHere⟩
    obtain ⟨i, found⟩ := List.mem_iff_getElem?.mp member
    exact ⟨i, ins, found, attachedHere⟩
  · rintro ⟨i, ins, found, attachedHere⟩
    exact ⟨ins, List.mem_of_getElem? found, attachedHere⟩

/-- Two positions that carry one label are the same, when no label is attached twice. -/
theorem position_unique {code : List Instruction} (distinct : (labels code).Nodup) {i j : Nat}
    {a b : Instruction} (foundA : code[i]? = some a) (foundB : code[j]? = some b) {l : Label}
    (attachedA : l ∈ a.labels) (attachedB : l ∈ b.labels) : i = j := by
  have disjoint : code.Pairwise fun a b => ∀ l ∈ a.labels, ∀ k ∈ b.labels, l ≠ k :=
    (List.pairwise_flatMap.mp distinct).2
  obtain ⟨ltI, rfl⟩ := List.getElem?_eq_some_iff.mp foundA
  obtain ⟨ltJ, rfl⟩ := List.getElem?_eq_some_iff.mp foundB
  rcases Nat.lt_trichotomy i j with less | equal | greater
  · exact absurd rfl
      (List.pairwise_iff_getElem.mp disjoint i j ltI ltJ less l attachedA l attachedB)
  · exact equal
  · exact absurd rfl
      (List.pairwise_iff_getElem.mp disjoint j i ltJ ltI greater l attachedB l attachedA)

theorem exists_of_position? {code : List Instruction} {l : Label} {i : Nat}
    (found : position? code l = some i) : ∃ ins, code[i]? = some ins ∧ l ∈ ins.labels := by
  obtain ⟨lt, attachedHere, -⟩ := List.findIdx?_eq_some_iff_getElem.mp found
  exact ⟨code[i], List.getElem?_eq_getElem lt, by simpa using attachedHere⟩

theorem position?_lt {code : List Instruction} {l : Label} {i : Nat}
    (found : position? code l = some i) : i < code.length := by
  obtain ⟨ins, here, -⟩ := exists_of_position? found
  exact (List.getElem?_eq_some_iff.mp here).1

theorem position?_eq_none_iff {code : List Instruction} {l : Label} :
    position? code l = none ↔ l ∉ labels code := by
  simp [position?, labels, List.findIdx?_eq_none_iff]

/-- Where a label resolves to, when no label is attached twice. -/
theorem position?_eq_some_iff {code : List Instruction} (distinct : (labels code).Nodup)
    {l : Label} {i : Nat} :
    position? code l = some i ↔ ∃ ins, code[i]? = some ins ∧ l ∈ ins.labels := by
  refine ⟨exists_of_position?, ?_⟩
  rintro ⟨ins, here, attachedHere⟩
  cases found : position? code l with
  | none =>
      exact absurd (mem_labels_iff.mpr ⟨i, ins, here, attachedHere⟩)
        (position?_eq_none_iff.mp found)
  | some j =>
      obtain ⟨other, there, attachedThere⟩ := exists_of_position? found
      rw [position_unique distinct there here attachedThere attachedHere]

end Code

end HookSplice
