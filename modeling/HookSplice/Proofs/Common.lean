import Mathlib.Data.List.Forall2

/-!
# Lists and results

Facts about lookups in association lists, searches through numbered lists, and steps that may fail.
-/

namespace HookSplice

theorem lookup_cons_eq {κ β : Type} [DecidableEq κ] (a x : κ) (b : β) (rest : List (κ × β)) :
    ((a, b) :: rest).lookup x = if x = a then some b else rest.lookup x := by
  rw [List.lookup_cons]
  by_cases equal : x = a
  · simp [equal]
  · rw [if_neg equal, beq_false_of_ne equal]

theorem not_mem_keys {κ β : Type} [DecidableEq κ] {entries : List (κ × β)} {x : κ}
    (absent : entries.lookup x = none) : x ∉ entries.map Prod.fst := by
  intro member
  obtain ⟨entry, pair, rfl⟩ := List.mem_map.mp member
  have := List.lookup_eq_none_iff.mp absent entry pair
  simp at this

theorem mem_of_lookup {κ β : Type} [BEq κ] [LawfulBEq κ] {entries : List (κ × β)} {x : κ} {b : β}
    (found : entries.lookup x = some b) : (x, b) ∈ entries := by
  obtain ⟨before, after, rfl, -⟩ := List.lookup_eq_some_iff.mp found
  simp

theorem lookup_of_mem {κ β : Type} [BEq κ] [LawfulBEq κ] {entries : List (κ × β)}
    (distinct : (entries.map Prod.fst).Nodup) {x : κ} {b : β} (member : (x, b) ∈ entries) :
    entries.lookup x = some b := by
  induction entries with
  | nil => cases member
  | cons entry rest ih =>
      obtain ⟨absent, distinct'⟩ := List.nodup_cons.mp distinct
      rw [List.lookup_cons]
      rcases List.mem_cons.mp member with rfl | member
      · simp
      · have differs : x ≠ entry.1 := by
          rintro rfl
          exact absent (List.mem_map.mpr ⟨_, member, rfl⟩)
        rw [beq_false_of_ne differs]
        exact ih distinct' member

theorem mem_keys {κ β : Type} [DecidableEq κ] {entries : List (κ × β)} {x : κ} {b : β}
    (found : entries.lookup x = some b) : x ∈ entries.map Prod.fst :=
  List.mem_map_of_mem (mem_of_lookup found)

theorem findSome?_zipIdx_eq_none {α β : Type} {xs : List α} {f : α × Nat → Option β} :
    xs.zipIdx.findSome? f = none ↔ ∀ (i : Nat) (x : α), xs[i]? = some x → f (x, i) = none := by
  rw [List.findSome?_eq_none_iff]
  constructor
  · intro all i x here
    exact all (x, i) (List.mem_zipIdx_iff_getElem?.mpr here)
  · rintro all ⟨x, i⟩ member
    exact all i x (List.mem_zipIdx_iff_getElem?.mp member)

theorem getElem?_append_of_eq_some {α : Type} {xs : List α} {i : Nat} {x : α}
    (here : xs[i]? = some x) (ys : List α) : (xs ++ ys)[i]? = some x := by
  rw [List.getElem?_append_left (List.getElem?_eq_some_iff.mp here).1, here]

theorem getElem?_append_add {α : Type} (xs ys : List α) (i : Nat) :
    (xs ++ ys)[xs.length + i]? = ys[i]? := by
  rw [List.getElem?_append_right (Nat.le_add_right ..), Nat.add_sub_cancel_left]

/-- In two lists that are related item by item, every item of the first is related to one of the
    second. -/
theorem exists_of_mem_left {α β : Type} {R : α → β → Prop} {as : List α} {bs : List β}
    (pairs : List.Forall₂ R as bs) {a : α} (member : a ∈ as) : ∃ b ∈ bs, R a b := by
  induction pairs with
  | nil => cases member
  | @cons first b _ _ here _ ih =>
      rcases List.mem_cons.mp member with rfl | member
      · exact ⟨b, List.mem_cons_self .., here⟩
      · obtain ⟨other, inside, there⟩ := ih member
        exact ⟨other, .tail _ inside, there⟩

theorem Except.bind_eq_ok {ε α β : Type} {x : Except ε α} {f : α → Except ε β} {b : β}
    (success : (x >>= f) = .ok b) : ∃ a, x = .ok a ∧ f a = .ok b := by
  cases x with
  | error e => cases success
  | ok a => exact ⟨a, rfl, success⟩

theorem Except.ok_bind {ε α β : Type} (a : α) (f : α → Except ε β) :
    (Except.ok a >>= f) = f a :=
  rfl

theorem Except.mapError_eq_ok {ε δ α : Type} {x : Except ε α} {f : ε → δ} {a : α} :
    x.mapError f = .ok a ↔ x = .ok a := by
  cases x with
  | error e => exact ⟨nofun, nofun⟩
  | ok a' => exact ⟨fun same => congrArg _ (Except.ok.inj same),
      fun same => congrArg _ (Except.ok.inj same)⟩

/-- Steps that fail together fail in the first or in the second one. -/
theorem Except.bind_eq_error {ε α β : Type} {x : Except ε α} {f : α → Except ε β} {e : ε}
    (failure : (x >>= f) = .error e) : x = .error e ∨ ∃ a, x = .ok a ∧ f a = .error e := by
  cases x with
  | error e' =>
      cases failure
      exact Or.inl rfl
  | ok a => exact Or.inr ⟨a, rfl, failure⟩

theorem Except.mapError_eq_error {ε δ α : Type} {x : Except ε α} {f : ε → δ} {d : δ}
    (failure : x.mapError f = .error d) : ∃ e, x = .error e ∧ f e = d := by
  cases x with
  | error e => exact ⟨e, rfl, Except.error.inj failure⟩
  | ok a => cases failure

/-- What every step keeps, steps that succeed one after the other keep. -/
theorem Except.foldlM_induction {ε α σ : Type} {f : σ → α → Except ε σ} {P : σ → Prop}
    (keeps : ∀ {s a s'}, P s → f s a = .ok s' → P s') {as : List α} {s s' : σ} (start : P s)
    (success : as.foldlM f s = .ok s') : P s' := by
  induction as generalizing s with
  | nil =>
      cases success
      exact start
  | cons a rest ih =>
      rw [List.foldlM_cons] at success
      obtain ⟨next, first, success⟩ := bind_eq_ok success
      exact ih (keeps start first) success

/-- Steps that all succeed give their results in order. -/
theorem Except.forall₂_of_mapM {ε α β : Type} {f : α → Except ε β} {as : List α} {bs : List β}
    (success : as.mapM f = .ok bs) : List.Forall₂ (fun a b => f a = .ok b) as bs := by
  induction as generalizing bs with
  | nil =>
      cases success
      exact .nil
  | cons a rest ih =>
      rw [List.mapM_cons] at success
      obtain ⟨b, first, success⟩ := bind_eq_ok success
      obtain ⟨others, later, success⟩ := bind_eq_ok success
      cases success
      exact .cons first (ih later)

/-- Every result of a list of steps is that of one of them. -/
theorem Except.mapM_eq_ok {ε α β : Type} {f : α → Except ε β} {as : List α} {bs : List β}
    (success : as.mapM f = .ok bs) : ∀ b ∈ bs, ∃ a ∈ as, f a = .ok b :=
  fun _ member => exists_of_mem_left (forall₂_of_mapM success).flip member

/-- What a step that succeeds gives. -/
def Except.value {ε α : Type} (x : Except ε α) (succeeds : x.toOption.isSome) : α :=
  x.toOption.get succeeds

theorem Except.eq_ok_value {ε α : Type} {x : Except ε α} (succeeds : x.toOption.isSome) :
    x = .ok (Except.value x succeeds) := by
  cases x with
  | error e => cases succeeds
  | ok a => rfl

theorem Except.run_eq_ok_value {ε α σ : Type} {x : Except ε α × σ}
    (succeeds : x.1.toOption.isSome) : x = (.ok (Except.value x.1 succeeds), x.2) :=
  Prod.ext (Except.eq_ok_value succeeds) rfl

end HookSplice
