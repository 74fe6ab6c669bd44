import HookSplice.Image.Printer
import HookSplice.Image.Reader
import HookSplice.Order
import Mathlib.Data.List.Sort
import Mathlib.Data.String.Basic

/-!
# Inserting into ordered lists

Labels are sorted by number and by name, and the reader keeps the names that branches use in the
order of their positions.  Each of these lists is built by insertions before the first larger
element, so it holds what was inserted, in strictly ascending order when no two elements tie.
-/

namespace HookSplice

/-! ### Strict order -/

section Insertion

variable {α : Type} {r : α → α → Prop} [DecidableRel r]

/-- Insertion keeps a list strictly ordered, if the new element ties with none of the others. -/
theorem pairwise_orderedInsert (trans : ∀ a b c, r a b → r b c → r a c) {x : α} {xs : List α}
    (ordered : xs.Pairwise r) (connected : ∀ y ∈ xs, r x y ∨ r y x) :
    (xs.orderedInsert r x).Pairwise r := by
  induction xs with
  | nil => exact List.pairwise_singleton r x
  | cons y rest ih =>
      obtain ⟨least, ordered'⟩ := List.pairwise_cons.mp ordered
      rw [List.orderedInsert_cons]
      split
      · next before =>
          refine List.pairwise_cons.mpr ⟨fun z member => ?_, ordered⟩
          rcases List.mem_cons.mp member with rfl | member
          · exact before
          · exact trans _ _ _ before (least z member)
      · next notBefore =>
          have after := (connected y (List.mem_cons_self ..)).resolve_left notBefore
          refine List.pairwise_cons.mpr ⟨fun z member => ?_, ?_⟩
          · rcases List.mem_orderedInsert r |>.mp member with rfl | member
            · exact after
            · exact least z member
          · exact ih ordered' fun z member => connected z (.tail _ member)

theorem foldl_orderedInsert_perm (xs sorted : List α) :
    (xs.foldl (fun sorted x => sorted.orderedInsert r x) sorted).Perm (xs ++ sorted) := by
  induction xs generalizing sorted with
  | nil => exact List.Perm.refl _
  | cons x rest ih =>
      refine (ih _).trans ?_
      refine ((List.perm_orderedInsert r x sorted).append_left rest).trans ?_
      exact List.perm_middle

theorem pairwise_foldl_orderedInsert (trans : ∀ a b c, r a b → r b c → r a c) {xs sorted : List α}
    (ordered : sorted.Pairwise r) (connected : xs.Pairwise fun x y => r x y ∨ r y x)
    (connected' : ∀ x ∈ xs, ∀ y ∈ sorted, r x y ∨ r y x) :
    (xs.foldl (fun sorted x => sorted.orderedInsert r x) sorted).Pairwise r := by
  induction xs generalizing sorted with
  | nil => exact ordered
  | cons x rest ih =>
      obtain ⟨first, others⟩ := List.pairwise_cons.mp connected
      refine ih (pairwise_orderedInsert trans ordered (connected' x (List.mem_cons_self ..)))
        others ?_
      intro y member z inside
      rcases List.mem_orderedInsert r |>.mp inside with rfl | inside
      · exact (first y member).symm
      · exact connected' y (.tail _ member) z inside

end Insertion

/-! ### By text -/

namespace Order

variable {α : Type} (text : α → String)

theorem insertByText_eq (x : α) (xs : List α) :
    insertByText text x xs = xs.orderedInsert (fun a b => text a < text b) x := by
  induction xs with
  | nil => rfl
  | cons y rest ih => rw [insertByText, List.orderedInsert_cons, ih]

theorem sortByText_eq (xs : List α) : sortByText text xs =
    xs.foldl (fun sorted x => sorted.orderedInsert (fun a b => text a < text b) x) [] := by
  unfold sortByText
  exact List.foldl_ext _ _ _ fun sorted x _ => insertByText_eq text x sorted

theorem sortByText_perm (xs : List α) : (sortByText text xs).Perm xs := by
  rw [sortByText_eq]
  simpa using foldl_orderedInsert_perm xs []

/-- Elements with different texts are put into strictly ascending order. -/
theorem pairwise_sortByText {xs : List α} (distinct : (xs.map text).Nodup) :
    (sortByText text xs).Pairwise fun a b => text a < text b := by
  rw [sortByText_eq]
  refine pairwise_foldl_orderedInsert (r := fun a b => text a < text b)
    (fun _ _ _ first second => lt_trans first second) List.Pairwise.nil ?_
    (fun _ _ _ member => absurd member List.not_mem_nil)
  exact (List.pairwise_map.mp distinct).imp fun differs => lt_or_gt_of_ne differs

end Order

namespace Image

/-! ### Labels by number -/

theorem insertLabel_eq (l : Label) (ls : List Label) :
    insertLabel l ls = ls.orderedInsert (fun a b => a.number < b.number) l := by
  induction ls with
  | nil => rfl
  | cons m rest ih => rw [insertLabel, List.orderedInsert_cons, ih]

theorem sortLabels_eq (ls : List Label) : sortLabels ls =
    ls.foldl (fun sorted l => sorted.orderedInsert (fun a b => a.number < b.number) l) [] := by
  unfold sortLabels
  exact List.foldl_ext _ _ _ fun sorted l _ => insertLabel_eq l sorted

theorem sortLabels_perm (ls : List Label) : (sortLabels ls).Perm ls := by
  rw [sortLabels_eq]
  simpa using foldl_orderedInsert_perm ls []

/-- Different labels are put into strictly ascending order. -/
theorem pairwise_sortLabels {ls : List Label} (distinct : ls.Nodup) :
    (sortLabels ls).Pairwise fun a b => a.number < b.number := by
  rw [sortLabels_eq]
  refine pairwise_foldl_orderedInsert (r := fun a b : Label => a.number < b.number)
    (fun _ _ _ first second => Nat.lt_trans first second) List.Pairwise.nil ?_
    (fun _ _ _ member => absurd member List.not_mem_nil)
  exact distinct.imp fun differs => Nat.lt_or_gt_of_ne fun same => differs (Label.number_inj same)

/-! ### References by position and name -/

/-- The order of the names that branches use. -/
def ReferenceBefore (a b : Nat × List Char) : Prop :=
  a.1 < b.1 ∨ a.1 = b.1 ∧ String.ofList a.2 < String.ofList b.2

instance : DecidableRel ReferenceBefore := fun a b =>
  inferInstanceAs (Decidable (a.1 < b.1 ∨ a.1 = b.1 ∧ String.ofList a.2 < String.ofList b.2))

theorem ReferenceBefore.trans {a b c : Nat × List Char} (first : ReferenceBefore a b)
    (second : ReferenceBefore b c) : ReferenceBefore a c := by
  rcases first with first | ⟨same, first⟩
  · rcases second with second | ⟨same', -⟩
    · exact Or.inl (Nat.lt_trans first second)
    · exact Or.inl (same' ▸ first)
  · rcases second with second | ⟨same', second⟩
    · exact Or.inl (same ▸ second)
    · exact Or.inr ⟨same.trans same', lt_trans first second⟩

theorem ReferenceBefore.connected {a b : Nat × List Char} (differs : a ≠ b) :
    ReferenceBefore a b ∨ ReferenceBefore b a := by
  rcases Nat.lt_trichotomy a.1 b.1 with before | same | after
  · exact Or.inl (Or.inl before)
  · have names : String.ofList a.2 ≠ String.ofList b.2 := fun equal =>
      differs (Prod.ext same (String.ofList_inj.mp equal))
    exact (lt_or_gt_of_ne names).imp (fun before => Or.inr ⟨same, before⟩)
      fun after => Or.inr ⟨same.symm, after⟩
  · exact Or.inr (Or.inl after)

theorem ReferenceBefore.irrefl (a : Nat × List Char) : ¬ ReferenceBefore a a := by
  rintro (before | ⟨-, before⟩)
  · exact Nat.lt_irrefl _ before
  · exact lt_irrefl _ before

theorem insertReference_eq (position : Nat) (name : List Char) (refs : List (Nat × List Char)) :
    insertReference position name refs = refs.orderedInsert ReferenceBefore (position, name) := by
  induction refs with
  | nil => rfl
  | cons entry rest ih =>
      rw [List.orderedInsert_cons, insertReference, ih]
      rfl

end Image

end HookSplice
