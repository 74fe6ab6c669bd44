import HookSplice.Order
import Mathlib.Tactic.Tauto

/-!
# Laws of stable sorting

Sorting keeps the elements, puts smaller keys first and leaves equal ones in order, and its result
depends on the keys only through their comparisons.
-/

namespace HookSplice.Order

variable {α β : Type}

theorem insertBy_perm (key : α → Nat) (x : α) (xs : List α) :
    (insertBy key x xs).Perm (x :: xs) := by
  induction xs with
  | nil => exact List.Perm.refl _
  | cons y rest ih =>
      unfold insertBy
      split
      · exact List.Perm.refl _
      · exact (ih.cons y).trans (List.Perm.swap x y rest)

theorem foldl_insertBy_perm (key : α → Nat) (xs sorted : List α) :
    (xs.foldl (fun sorted x => insertBy key x sorted) sorted).Perm (xs ++ sorted) := by
  induction xs generalizing sorted with
  | nil => exact List.Perm.refl _
  | cons x rest ih =>
      rw [List.foldl_cons]
      refine (ih _).trans ?_
      refine ((insertBy_perm key x sorted).append_left rest).trans ?_
      exact List.perm_middle

theorem sortBy_perm (key : α → Nat) (xs : List α) : (sortBy key xs).Perm xs := by
  simpa [sortBy] using foldl_insertBy_perm key xs []

theorem mem_sortBy {key : α → Nat} {xs : List α} {x : α} : x ∈ sortBy key xs ↔ x ∈ xs :=
  (sortBy_perm key xs).mem_iff

/-- Smaller keys stand in front, and of equal keys the one that stood in front before. -/
def Stably (key : α → Nat) (earlier : α → α → Prop) (x y : α) : Prop :=
  key x < key y ∨ key x = key y ∧ earlier x y

theorem stably_insertBy {key : α → Nat} {earlier : α → α → Prop} {x : α} {xs : List α}
    (ordered : xs.Pairwise (Stably key earlier)) (later : ∀ y ∈ xs, earlier y x) :
    (insertBy key x xs).Pairwise (Stably key earlier) := by
  induction xs with
  | nil => exact List.pairwise_singleton _ x
  | cons y rest ih =>
      obtain ⟨least, ordered'⟩ := List.pairwise_cons.mp ordered
      unfold insertBy
      split
      · next before =>
          refine List.pairwise_cons.mpr ⟨fun z member => Or.inl ?_, ordered⟩
          rcases List.mem_cons.mp member with rfl | member
          · exact before
          · have := least z member
            unfold Stably at this
            omega
      · next after =>
          have behind := ih ordered' fun z member => later z (List.mem_cons_of_mem _ member)
          refine List.pairwise_cons.mpr ⟨fun z member => ?_, behind⟩
          rcases List.mem_cons.mp ((insertBy_perm key x rest).mem_iff.mp member) with rfl | member
          · have notAfter := Nat.lt_or_eq_of_le (Nat.le_of_not_lt after)
            exact notAfter.imp_right fun equal => ⟨equal, later y (List.mem_cons_self ..)⟩
          · exact least z member

/-- Sorting is stable. -/
theorem stably_sortBy (key : α → Nat) {earlier : α → α → Prop} {xs : List α}
    (ordered : xs.Pairwise earlier) : (sortBy key xs).Pairwise (Stably key earlier) := by
  suffices ∀ sorted : List α, sorted.Pairwise (Stably key earlier) →
      (∀ y ∈ sorted, ∀ x ∈ xs, earlier y x) →
      (xs.foldl (fun sorted x => insertBy key x sorted) sorted).Pairwise (Stably key earlier) from
    this [] List.Pairwise.nil fun _ member => absurd member List.not_mem_nil
  induction xs with
  | nil => exact fun _ placed _ => placed
  | cons x rest ih =>
      obtain ⟨first, others⟩ := List.pairwise_cons.mp ordered
      intro sorted placed apart
      refine ih others _ (stably_insertBy placed fun y member => apart y member x (by simp)) ?_
      intro y member z later
      rcases List.mem_cons.mp ((insertBy_perm key x sorted).mem_iff.mp member) with rfl | member
      · exact first z later
      · exact apart y member z (List.mem_cons_of_mem _ later)

/-- The keys of the images compare as those of the elements do. -/
def SameOrder (key : α → Nat) (key' : β → Nat) (f : α → β) (xs : List α) : Prop :=
  ∀ x ∈ xs, ∀ y ∈ xs, key' (f x) < key' (f y) ↔ key x < key y

theorem SameOrder.mono {key : α → Nat} {key' : β → Nat} {f : α → β} {xs ys : List α}
    (same : SameOrder key key' f xs) (sub : ys ⊆ xs) : SameOrder key key' f ys :=
  fun x memberX y memberY => same x (sub memberX) y (sub memberY)

theorem insertBy_map {key : α → Nat} {key' : β → Nat} {f : α → β} {x : α} {xs : List α}
    (same : SameOrder key key' f (x :: xs)) :
    insertBy key' (f x) (xs.map f) = (insertBy key x xs).map f := by
  induction xs with
  | nil => rfl
  | cons y rest ih =>
      have compare := same x (by simp) y (by simp)
      have later : SameOrder key key' f (x :: rest) := same.mono (by intro a; simp; tauto)
      simp only [List.map_cons, insertBy, compare]
      split
      · rfl
      · rw [ih later, List.map_cons]

theorem foldl_insertBy_map {key : α → Nat} {key' : β → Nat} {f : α → β} {xs sorted : List α}
    (same : SameOrder key key' f (xs ++ sorted)) :
    (xs.map f).foldl (fun sorted x => insertBy key' x sorted) (sorted.map f) =
      (xs.foldl (fun sorted x => insertBy key x sorted) sorted).map f := by
  induction xs generalizing sorted with
  | nil => rfl
  | cons x rest ih =>
      rw [List.map_cons, List.foldl_cons, List.foldl_cons, insertBy_map, ih]
      · apply same.mono
        intro a
        simp only [List.cons_append, List.mem_cons, List.mem_append,
          (insertBy_perm key x sorted).mem_iff]
        tauto
      · apply same.mono
        intro a
        simp only [List.cons_append, List.mem_cons, List.mem_append]
        tauto

/-- Sorting commutes with a map under which keys compare as before. -/
theorem sortBy_map {key : α → Nat} {key' : β → Nat} {f : α → β} {xs : List α}
    (same : SameOrder key key' f xs) : sortBy key' (xs.map f) = (sortBy key xs).map f := by
  have joined : SameOrder key key' f (xs ++ []) := by simpa using same
  exact foldl_insertBy_map joined

end HookSplice.Order
