import HookSplice.Proofs.Propagation
import HookSplice.Proofs.ReprintedBody
import Mathlib.Logic.Equiv.Basic

/-!
# Bodies whose labels are numbered anew

A printed body names its labels by rank, and the rank of a label is the number of labels at earlier
positions and, at its own position, of labels with a smaller number.  So the text of a body depends
on the numbers of its labels only through the places of the labels that branches name among those
that share a position with them: `printBody_renumber_eq_iff`.  A renumbering that exchanges two
labels of one position changes the text when a branch leads there.
-/

namespace HookSplice

open Image (bodyLines boundNames instructionText labelName markersAt operandText printBody rankName
  rankedLabels sortLabels unlines)

/-! ### Renumbering -/

/-- The operand under other numbers for labels. -/
def Operand.renumber (ρ : Label → Label) : Operand → Operand
  | .label l => .label (ρ l)
  | operand => operand

/-- The instruction under other numbers for labels. -/
def Instruction.renumber (ρ : Label → Label) (ins : Instruction) : Instruction :=
  ⟨ins.opcode, ins.operand.renumber ρ, ins.labels.map ρ⟩

/-- The body under other numbers for labels. -/
def Body.renumber (ρ : Label → Label) (b : Body) : Body :=
  Body.ofParts b.method (b.code.map (Instruction.renumber ρ)) b.locals b.regions

/-- How many labels at the position of an instruction have a smaller number than a label there. -/
def Instruction.place (ins : Instruction) (l : Label) : Nat :=
  ins.labels.countP fun k => k.number < l.number

/-- Each label that a branch names has as many smaller labels beside it as before. -/
def Body.KeepsPlaces (b : Body) (ρ : Label → Label) : Prop :=
  ∀ ins ∈ b.code, ∀ l ∈ ins.target?, ∀ there ∈ b.code, l ∈ there.labels →
    (there.renumber ρ).place (ρ l) = there.place l

instance (b : Body) (ρ : Label → Label) : Decidable (b.KeepsPlaces ρ) :=
  inferInstanceAs (Decidable (∀ ins ∈ b.code, ∀ l ∈ ins.target?, _))

theorem Instruction.target?_renumber (ρ : Label → Label) (ins : Instruction) :
    (ins.renumber ρ).target? = ins.target?.map ρ := by
  unfold target? renumber
  cases ins.operand <;> rfl

theorem Code.labels_renumber (ρ : Label → Label) (code : List Instruction) :
    labels (code.map (Instruction.renumber ρ)) = (labels code).map ρ := by
  unfold labels
  rw [List.flatMap_map, List.map_flatMap]
  rfl

theorem Body.code_renumber (ρ : Label → Label) (b : Body) :
    (b.renumber ρ).code = b.code.map (Instruction.renumber ρ) :=
  rfl

theorem Body.getElem?_renumber {b : Body} {i : Nat} {ins : Instruction}
    (here : b.code[i]? = some ins) (ρ : Label → Label) :
    (b.renumber ρ).code[i]? = some (ins.renumber ρ) := by
  rw [code_renumber, List.getElem?_map, here]
  rfl

theorem Body.nodup_labels_renumber {ρ : Label → Label} {b : Body}
    (distinct : (Code.labels b.code).Nodup)
    (inj : ∀ l ∈ Code.labels b.code, ∀ k ∈ Code.labels b.code, ρ l = ρ k → l = k) :
    (Code.labels (b.renumber ρ).code).Nodup := by
  rw [code_renumber, Code.labels_renumber]
  exact distinct.map_on inj

/-- As many labels stand in front of a position as before. -/
theorem Body.labels_before_renumber (ρ : Label → Label) (b : Body) (i : Nat) :
    (Code.labels ((b.renumber ρ).code.take i)).length = (Code.labels (b.code.take i)).length := by
  rw [code_renumber, ← List.map_take, Code.labels_renumber, List.length_map]

/-! ### Ranks -/

/-- In a strictly ascending list, the place of an element is the number of smaller ones. -/
theorem idxOf_eq_countP {α : Type} [BEq α] [LawfulBEq α] {key : α → Nat} {xs : List α}
    (ascend : xs.Pairwise fun x y => key x < key y) {x : α} (member : x ∈ xs) :
    xs.idxOf x = xs.countP fun y => key y < key x := by
  induction xs with
  | nil => cases member
  | cons y rest ih =>
      obtain ⟨least, ascend'⟩ := List.pairwise_cons.mp ascend
      rcases List.mem_cons.mp member with rfl | later
      · have none : rest.countP (fun y => key y < key x) = 0 := by
          rw [List.countP_eq_zero]
          intro z inside
          simpa using (least z inside).le
        rw [List.idxOf_cons_self, List.countP_cons_of_neg (by simp), none]
      · have less : key y < key x := least x later
        have differs : y ≠ x := by
          rintro rfl
          exact Nat.lt_irrefl _ less
        rw [List.idxOf_cons_ne _ differs, List.countP_cons_of_pos (by simpa using less),
          ih ascend' later]

namespace Image

variable {code : List Instruction} (distinct : (Code.labels code).Nodup)
include distinct

theorem nodup_labels_of_mem {ins : Instruction} (member : ins ∈ code) : ins.labels.Nodup :=
  (List.nodup_flatMap.mp distinct).1 ins member

/-- The rank of a label that is attached at a position. -/
theorem idxOf_rankedLabels {i : Nat} {ins : Instruction} (here : code[i]? = some ins) {l : Label}
    (attached : l ∈ ins.labels) : (rankedLabels code).idxOf l =
      (Code.labels (code.take i)).length + (sortLabels ins.labels).idxOf l := by
  obtain ⟨below, rfl⟩ := List.getElem?_eq_some_iff.mp here
  have parts : code = code.take i ++ code[i] :: code.drop (i + 1) := by
    rw [List.getElem_cons_drop, List.take_append_drop]
  have before : l ∉ rankedLabels (code.take i) := by
    rw [(rankedLabels_perm _).mem_iff, Code.mem_labels_iff]
    rintro ⟨j, other, there, attached'⟩
    have less : j < i := by
      have := (List.getElem?_eq_some_iff.mp there).1
      rw [List.length_take] at this
      omega
    rw [List.getElem?_take_of_lt less] at there
    exact Nat.ne_of_lt less (Code.position_unique distinct there here attached' attached)
  have sorted : l ∈ sortLabels code[i].labels := (sortLabels_perm _).mem_iff.mpr attached
  conv_lhs => rw [parts]
  unfold rankedLabels at before ⊢
  rw [List.flatMap_append, List.flatMap_cons, List.idxOf_append_of_notMem before,
    List.idxOf_append_of_mem sorted, ← (rankedLabels_perm (code.take i)).length_eq]
  rfl

/-- The rank of a label counts the labels at earlier positions and the smaller ones beside it. -/
theorem rank_eq_place {i : Nat} {ins : Instruction} (here : code[i]? = some ins) {l : Label}
    (attached : l ∈ ins.labels) : (rankedLabels code).idxOf l =
      (Code.labels (code.take i)).length + ins.place l := by
  have ascend := pairwise_sortLabels (nodup_labels_of_mem distinct (List.mem_of_getElem? here))
  have perm := sortLabels_perm ins.labels
  rw [idxOf_rankedLabels distinct here attached,
    idxOf_eq_countP ascend (perm.mem_iff.mpr attached), perm.countP_eq]
  rfl

/-- The labels of a position have consecutive ranks. -/
theorem map_labelName_sortLabels {i : Nat} {ins : Instruction} (here : code[i]? = some ins) :
    (sortLabels ins.labels).map (labelName (rankedLabels code)) =
      (List.range' (Code.labels (code.take i)).length ins.labels.length).map rankName := by
  have perm := sortLabels_perm ins.labels
  have sorted : (sortLabels ins.labels).Nodup :=
    perm.nodup_iff.mpr (nodup_labels_of_mem distinct (List.mem_of_getElem? here))
  refine List.ext_getElem (by simp [perm.length_eq]) fun j below below' => ?_
  rw [List.length_map] at below
  have attached : (sortLabels ins.labels)[j] ∈ ins.labels :=
    perm.mem_iff.mp (List.getElem_mem below)
  rw [List.getElem_map, List.getElem_map, List.getElem_range', Nat.one_mul,
    labelName_eq distinct (Code.mem_labels_iff.mpr ⟨i, ins, here, attached⟩),
    idxOf_rankedLabels distinct here attached, sorted.idxOf_getElem]

end Image

/-! ### Texts made of pieces -/

/-- Two texts cut into pieces agree piece by piece, if each piece can be told from what follows. -/
theorem flatMap_inj {α β : Type} {xs : List α} {f g : α → List β}
    (cut : ∀ x ∈ xs, ∀ rest rest', f x ++ rest = g x ++ rest' → f x = g x)
    (same : xs.flatMap f = xs.flatMap g) : ∀ x ∈ xs, f x = g x := by
  induction xs with
  | nil => exact fun _ member => absurd member List.not_mem_nil
  | cons x rest ih =>
      rw [List.flatMap_cons, List.flatMap_cons] at same
      have first := cut x (List.mem_cons_self ..) _ _ same
      rw [first, List.append_cancel_left_eq] at same
      intro y member
      rcases List.mem_cons.mp member with rfl | later
      · exact first
      · exact ih (fun z inside => cut z (.tail _ inside)) same y later

namespace Image

theorem unlines_append (lines lines' : List String) :
    unlines (lines ++ lines') = unlines lines ++ unlines lines' := by
  unfold unlines
  rw [List.map_append, String.join_append]

/-- A name made from a rank can be told from the line feed behind it. -/
theorem rankName_append_inj {m n : Nat} {rest rest' : List Char}
    (same : (rankName m).toList ++ '\n' :: rest = (rankName n).toList ++ '\n' :: rest') :
    m = n := by
  have digits (n : Nat) : '\n' ∉ (rankName n).toList :=
    (plain_rankName n).not_mem (by decide)
  have names := (Text.append_cons_inj (digits m) (digits n) same).1
  exact rankName_inj (String.toList_inj.mp names)

theorem toList_unlines_flatMap {α : Type} (xs : List α) (lines : α → List String) :
    (unlines (xs.flatMap lines)).toList = xs.flatMap fun x => (unlines (lines x)).toList := by
  induction xs with
  | nil => rfl
  | cons x rest ih =>
      rw [List.flatMap_cons, List.flatMap_cons, unlines_append, String.toList_append, ih]

/-! ### Lines of instructions -/

/-- The lines of an instruction, with the names in front of it. -/
def instructionLines (symbols : SymbolTable) (b : Body) (row : Instruction × Nat) : List String :=
  (markersAt b (rankedLabels b.code) row.2 row.1).map (· ++ ":") ++
    ["  " ++ instructionText symbols (labelName (rankedLabels b.code)) row.1]

/-- The text of the instructions of a body, cut at the instructions. -/
def instructionChars (symbols : SymbolTable) (b : Body) (row : Instruction × Nat) : List Char :=
  (unlines (instructionLines symbols b row)).toList

theorem instructionChars_label {symbols : SymbolTable} {b : Body} {ins : Instruction} {l : Label}
    (target : ins.target? = some l) (i : Nat) : instructionChars symbols b (ins, i) =
      (unlines ((markersAt b (rankedLabels b.code) i ins).map (· ++ ":"))).toList ++
        ("  " ++ (ins.opcode.mnemonic ++ " ")).toList ++
        ((labelName (rankedLabels b.code) l).toList ++ ['\n']) := by
  have text : instructionText symbols (labelName (rankedLabels b.code)) ins =
      ins.opcode.mnemonic ++ " " ++ labelName (rankedLabels b.code) l := by
    rw [instructionText, Instruction.operand_of_target? target]
    rfl
  unfold instructionChars instructionLines
  rw [unlines_append, String.toList_append, text, toList_unlines [_]]
  simp only [List.map_singleton, List.flatMap_singleton, String.toList_append, List.append_assoc]

/-- The texts of two bodies that differ in their instructions only. -/
theorem printBody_eq_iff {symbols : SymbolTable} {b b' : Body} (method : b'.method = b.method)
    (locals : b'.locals = b.locals) (regions : b'.regions = b.regions) (size : b'.size = b.size) :
    printBody symbols b' = printBody symbols b ↔
      b'.code.zipIdx.flatMap (instructionChars symbols b') =
        b.code.zipIdx.flatMap (instructionChars symbols b) := by
  have cut (b : Body) : (printBody symbols b).toList =
      (unlines ((".method " ++ symbols.signature b.method) :: (if b.locals.isEmpty then []
        else ["  .locals " ++ String.intercalate " " (b.locals.map symbols.typeName)]))).toList ++
      (b.code.zipIdx.flatMap (instructionChars symbols b) ++
        (unlines ((b.regions.zipIdx.map fun row => regionLine symbols b.size row.2 row.1) ++
          [".end"])).toList) := by
    unfold instructionChars
    rw [← toList_unlines_flatMap, ← String.toList_append, ← String.toList_append, ← unlines_append,
      ← unlines_append]
    refine congrArg (fun lines => (unlines (_ :: lines)).toList) ?_
    simp only [List.append_assoc]
    rfl
  rw [← String.toList_inj, cut b, cut b', method, locals, regions, size,
    List.append_cancel_left_eq, List.append_cancel_right_eq]

end Image

/-! ### The text of a renumbered body -/

namespace Body

section Renumbered

variable {b : Body} {ρ : Label → Label} (distinct : (Code.labels b.code).Nodup)
  (inj : ∀ l ∈ Code.labels b.code, ∀ k ∈ Code.labels b.code, ρ l = ρ k → l = k)
include distinct inj

/-- The same names stand in front of every instruction. -/
theorem markersAt_renumber {i : Nat} {ins : Instruction} (here : b.code[i]? = some ins) :
    markersAt (b.renumber ρ) (rankedLabels (b.renumber ρ).code) i (ins.renumber ρ) =
      markersAt b (rankedLabels b.code) i ins := by
  have width : (ins.renumber ρ).labels.length = ins.labels.length := List.length_map _
  have names : (sortLabels (ins.renumber ρ).labels).map
      (labelName (rankedLabels (b.renumber ρ).code)) =
        (sortLabels ins.labels).map (labelName (rankedLabels b.code)) := by
    rw [Image.map_labelName_sortLabels (nodup_labels_renumber distinct inj)
      (getElem?_renumber here ρ), Image.map_labelName_sortLabels distinct here,
      labels_before_renumber, width]
  exact congrArg (· ++ _) names

/-- A label keeps its rank exactly if it keeps its place at its position. -/
theorem rank_renumber_iff {i : Nat} {there : Instruction} (here : b.code[i]? = some there)
    {l : Label} (attached : l ∈ there.labels) :
    (rankedLabels (b.renumber ρ).code).idxOf (ρ l) = (rankedLabels b.code).idxOf l ↔
      (there.renumber ρ).place (ρ l) = there.place l := by
  have attached' : ρ l ∈ (there.renumber ρ).labels := List.mem_map_of_mem attached
  rw [Image.rank_eq_place distinct here attached, Image.rank_eq_place
    (nodup_labels_renumber distinct inj) (getElem?_renumber here ρ) attached',
    labels_before_renumber, Nat.add_left_cancel_iff]

/-- An instruction that names no label has the same lines. -/
theorem instructionChars_renumber (symbols : SymbolTable) {i : Nat} {ins : Instruction}
    (here : b.code[i]? = some ins) (plain : ins.target? = none) :
    Image.instructionChars symbols (b.renumber ρ) (ins.renumber ρ, i) =
      Image.instructionChars symbols b (ins, i) := by
  have text : instructionText symbols (labelName (rankedLabels (b.renumber ρ).code))
      (ins.renumber ρ) = instructionText symbols (labelName (rankedLabels b.code)) ins := by
    unfold instructionText Instruction.renumber
    unfold Instruction.target? at plain
    cases shape : ins.operand with
    | label l =>
        rw [shape] at plain
        cases plain
    | none | int | text | arg | slot | field | method | type => rfl
  unfold Image.instructionChars Image.instructionLines
  rw [markersAt_renumber distinct inj here, text]

/-- The lines of a branch are the same up to the name of its label. -/
theorem instructionChars_branch (symbols : SymbolTable) {i : Nat} {ins : Instruction}
    (here : b.code[i]? = some ins) {l : Label} (target : ins.target? = some l)
    (attached : l ∈ Code.labels b.code) :
    ∃ front, Image.instructionChars symbols (b.renumber ρ) (ins.renumber ρ, i) =
        front ++ ((rankName ((rankedLabels (b.renumber ρ).code).idxOf (ρ l))).toList ++ ['\n']) ∧
      Image.instructionChars symbols b (ins, i) =
        front ++ ((rankName ((rankedLabels b.code).idxOf l)).toList ++ ['\n']) := by
  have target' : (ins.renumber ρ).target? = some (ρ l) := by
    rw [Instruction.target?_renumber, target]
    rfl
  have attached' : ρ l ∈ Code.labels (b.renumber ρ).code := by
    rw [code_renumber, Code.labels_renumber]
    exact List.mem_map_of_mem attached
  refine ⟨(unlines ((markersAt b (rankedLabels b.code) i ins).map (· ++ ":"))).toList ++
    ("  " ++ (ins.opcode.mnemonic ++ " ")).toList, ?_, ?_⟩
  · rw [Image.instructionChars_label target', markersAt_renumber distinct inj here,
      Image.labelName_eq (nodup_labels_renumber distinct inj) attached']
    rfl
  · rw [Image.instructionChars_label target, Image.labelName_eq distinct attached]

/-- The texts agree exactly if every label that a branch names keeps its rank. -/
theorem printBody_renumber_iff_ranks (symbols : SymbolTable)
    (attached : ∀ ins ∈ b.code, ∀ l ∈ ins.target?, l ∈ Code.labels b.code) :
    printBody symbols (b.renumber ρ) = printBody symbols b ↔ ∀ ins ∈ b.code, ∀ l ∈ ins.target?,
      (rankedLabels (b.renumber ρ).code).idxOf (ρ l) = (rankedLabels b.code).idxOf l := by
  have size : (b.renumber ρ).size = b.size := List.length_map _
  have printed : printBody symbols (b.renumber ρ) = printBody symbols b ↔ _ :=
    Image.printBody_eq_iff rfl rfl rfl size
  have branch {row : Instruction × Nat} (inside : row ∈ b.code.zipIdx) {l : Label}
      (target : row.1.target? = some l) :=
    instructionChars_branch distinct inj symbols (List.mem_zipIdx_iff_getElem?.mp inside) target
      (attached row.1 (List.mem_of_getElem? (List.mem_zipIdx_iff_getElem?.mp inside)) l target)
  have rank {row : Instruction × Nat} (inside : row ∈ b.code.zipIdx) {l : Label}
      (target : row.1.target? = some l) (rest rest' : List Char)
      (same : Image.instructionChars symbols (b.renumber ρ) (row.1.renumber ρ, row.2) ++ rest =
        Image.instructionChars symbols b row ++ rest') :
      (rankedLabels (b.renumber ρ).code).idxOf (ρ l) = (rankedLabels b.code).idxOf l := by
    obtain ⟨front, new, old⟩ := branch inside target
    rw [new, old] at same
    simp only [List.append_assoc, List.append_cancel_left_eq, List.singleton_append] at same
    exact Image.rankName_append_inj same
  -- A row is the same with or without what follows it, and it is so exactly if the rank is.
  have row_eq {row : Instruction × Nat} (inside : row ∈ b.code.zipIdx)
      (ranks : ∀ l ∈ row.1.target?,
        (rankedLabels (b.renumber ρ).code).idxOf (ρ l) = (rankedLabels b.code).idxOf l) :
      Image.instructionChars symbols (b.renumber ρ) (row.1.renumber ρ, row.2) =
        Image.instructionChars symbols b row := by
    cases named : row.1.target? with
    | none =>
        exact instructionChars_renumber distinct inj symbols
          (List.mem_zipIdx_iff_getElem?.mp inside) named
    | some l =>
        obtain ⟨front, new, old⟩ := branch inside named
        rw [new, old, ranks l named]
  rw [printed, code_renumber, List.zipIdx_map, List.flatMap_map]
  constructor
  · intro same ins member l target
    obtain ⟨i, here⟩ := List.mem_iff_getElem?.mp member
    have inside : (ins, i) ∈ b.code.zipIdx := List.mem_zipIdx_iff_getElem?.mpr here
    have pieces := flatMap_inj (fun row inside rest rest' same =>
      row_eq inside fun k named => rank inside named rest rest' same) same (ins, i) inside
    exact rank inside target [] [] (congrArg (· ++ []) pieces)
  · intro ranks
    refine List.flatMap_congr fun row inside => row_eq inside ?_
    exact ranks row.1 (List.mem_of_getElem? (List.mem_zipIdx_iff_getElem?.mp inside))

end Renumbered

/-- A renumbering under which the labels of each position compare as before keeps the places. -/
theorem keepsPlaces_of_order {b : Body} {ρ : Label → Label}
    (order : ∀ ins ∈ b.code, ∀ k ∈ ins.labels, ∀ l ∈ ins.labels,
      (ρ k).number < (ρ l).number ↔ k.number < l.number) : b.KeepsPlaces ρ := by
  intro ins _ l _ there member attached
  unfold Instruction.place Instruction.renumber
  rw [List.countP_map]
  refine List.countP_congr fun k inside => ?_
  simpa using order there member k inside l attached

/-- Of a verified body, a renumbering of the labels leaves the text as it is exactly if every label
    that a branch names keeps its place among the labels of its position; then the fingerprint is
    the same too. -/
theorem printBody_renumber_eq_iff {symbols : SymbolTable} {b : Body} {limit : Nat} {m : StackMap}
    (verified : StackMap.analyze symbols b limit = .ok m) {ρ : Label → Label}
    (inj : ∀ l ∈ Code.labels b.code, ∀ k ∈ Code.labels b.code, ρ l = ρ k → l = k) :
    (printBody symbols (b.renumber ρ) = printBody symbols b ↔ b.KeepsPlaces ρ) ∧
      (b.KeepsPlaces ρ →
        Fingerprint.ofBody symbols (b.renumber ρ) = Fingerprint.ofBody symbols b) := by
  obtain ⟨enclosing, -, sound⟩ := StackMap.analyze_eq_ok verified
  have distinct := sound.structured.labels
  have attached : ∀ ins ∈ b.code, ∀ l ∈ ins.target?, l ∈ Code.labels b.code := by
    intro ins member l target
    obtain ⟨i, here⟩ := List.mem_iff_getElem?.mp member
    have inRange := (StackMap.operandFault?_eq_none_iff.mp (sound.structured.operands here)).2
    rw [OperandInRange, Instruction.operand_of_target? target] at inRange
    obtain ⟨i, found⟩ := Option.isSome_iff_exists.mp inRange
    obtain ⟨there, here, beside⟩ := Code.exists_of_position? found
    exact Code.mem_labels_iff.mpr ⟨i, there, here, beside⟩
  have texts : printBody symbols (b.renumber ρ) = printBody symbols b ↔ b.KeepsPlaces ρ := by
    rw [printBody_renumber_iff_ranks distinct inj symbols attached]
    constructor
    · intro ranks ins member l target there member' beside
      obtain ⟨i, here⟩ := List.mem_iff_getElem?.mp member'
      exact (rank_renumber_iff distinct inj here beside).mp (ranks ins member l target)
    · intro places ins member l target
      obtain ⟨i, there, here, beside⟩ := Code.mem_labels_iff.mp (attached ins member l target)
      exact (rank_renumber_iff distinct inj here beside).mpr
        (places ins member l target there (List.mem_of_getElem? here) beside)
  exact ⟨texts, fun places => Fingerprint.ofBody_congr (texts.mpr places)⟩

/-- A static method `A::f()` without a result. -/
def twinSymbols : SymbolTable :=
  ⟨["A"], [], [⟨⟨⟨0⟩, "f", [], none, true⟩, "A::f()"⟩]⟩

/-- A branch to the first of two labels of one position. -/
def twins : Body :=
  .ofParts ⟨0⟩ [⟨.br, .label ⟨0⟩, []⟩, ⟨.ret, .none, [⟨0⟩, ⟨1⟩]⟩] [] []

/-- All numbers are raised by seven. -/
def raised (l : Label) : Label :=
  ⟨l.raw + 7⟩

theorem twins_raised :
    (∃ m, StackMap.analyze twinSymbols twins 1 = .ok m) ∧
      (∀ l ∈ Code.labels twins.code, ∀ k ∈ Code.labels twins.code, raised l = raised k → l = k) ∧
      twins.KeepsPlaces raised ∧
      printBody twinSymbols (twins.renumber raised) = printBody twinSymbols twins ∧
      Fingerprint.ofBody twinSymbols (twins.renumber raised) =
        Fingerprint.ofBody twinSymbols twins := by
  obtain ⟨m, verified⟩ : ∃ m, StackMap.analyze twinSymbols twins 1 = .ok m := ⟨_, rfl⟩
  have inj : ∀ l ∈ Code.labels twins.code, ∀ k ∈ Code.labels twins.code,
      raised l = raised k → l = k := by decide
  have places : twins.KeepsPlaces raised := keepsPlaces_of_order (by decide)
  obtain ⟨texts, digests⟩ := printBody_renumber_eq_iff verified inj
  exact ⟨⟨m, verified⟩, inj, places, texts.mpr places, digests places⟩

/-- Exchanging the two labels changes the text: the branch to `L0` becomes one to `L1`. -/
theorem twins_swapped :
    (∃ m, StackMap.analyze twinSymbols twins 1 = .ok m) ∧
      Function.Injective (Equiv.swap (⟨0⟩ : Label) ⟨1⟩) ∧
      printBody twinSymbols twins =
        ".method static void A::f()\n  br L0\nL0:\nL1:\n  ret\n.end\n" ∧
      printBody twinSymbols (twins.renumber (Equiv.swap ⟨0⟩ ⟨1⟩)) =
        ".method static void A::f()\n  br L1\nL0:\nL1:\n  ret\n.end\n" ∧
      printBody twinSymbols (twins.renumber (Equiv.swap ⟨0⟩ ⟨1⟩)) ≠ printBody twinSymbols twins :=
  ⟨⟨_, rfl⟩, Equiv.injective _, by decide +kernel, by decide +kernel, by decide +kernel⟩

end Body

end HookSplice
