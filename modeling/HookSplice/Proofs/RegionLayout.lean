import HookSplice.Machine.Frame
import Mathlib.Data.List.Nodup

/-!
# Nested exception regions

Verification lets regions overlap as they like.  In a `Nested` body they are laid out as blocks of
source code are: of two regions one lies in the protected range or in the handler of the other, or
both catch exceptions of one range, or they have nothing in common.  Here is what such regions have
to do with each other at single positions; the order in which handlers run is by `span`.
-/

namespace HookSplice

namespace Region

/-- Two ranges without a common position. -/
def Apart (start stop start' stop' : Nat) : Prop :=
  stop ≤ start' ∨ stop' ≤ start

/-- Both ranges of a region lie between two positions. -/
def Within (r : Region) (start stop : Nat) : Prop :=
  start ≤ r.tryStart ∧ r.tryEnd ≤ stop ∧ start ≤ r.handlerStart ∧ r.handlerEnd ≤ stop

/-- The second region lies in the protected range or in the handler of the first. -/
def Holds (r s : Region) : Prop :=
  s.Within r.tryStart r.tryEnd ∨ s.Within r.handlerStart r.handlerEnd

/-- Both regions catch exceptions of one range, in different handlers. -/
def Siblings (r s : Region) : Prop :=
  r.kind ≠ .finalizing ∧ s.kind ≠ .finalizing ∧ r.tryStart = s.tryStart ∧ r.tryEnd = s.tryEnd ∧
    Apart r.handlerStart r.handlerEnd s.handlerStart s.handlerEnd

/-- The regions have no position in common. -/
def Separate (r s : Region) : Prop :=
  Apart r.tryStart r.tryEnd s.tryStart s.tryEnd ∧
    Apart r.tryStart r.tryEnd s.handlerStart s.handlerEnd ∧
    Apart r.handlerStart r.handlerEnd s.tryStart s.tryEnd ∧
    Apart r.handlerStart r.handlerEnd s.handlerStart s.handlerEnd

/-- The ways in which two regions may lie to each other. -/
def Fits (r s : Region) : Prop :=
  r.Holds s ∨ s.Holds r ∨ r.Siblings s ∨ r.Separate s

/-- Neither range is empty, and they have no position in common. -/
def Proper (r : Region) : Prop :=
  r.tryStart < r.tryEnd ∧ r.handlerStart < r.handlerEnd ∧
    Apart r.tryStart r.tryEnd r.handlerStart r.handlerEnd

instance (r : Region) (start stop : Nat) : Decidable (r.Within start stop) :=
  inferInstanceAs (Decidable (_ ∧ _))

instance (r s : Region) : Decidable (r.Fits s) := by
  unfold Fits Holds Siblings Separate Apart
  infer_instance

instance (r : Region) : Decidable r.Proper := by
  unfold Proper Apart
  infer_instance

theorem Fits.symm {r s : Region} (fits : r.Fits s) : s.Fits r := by
  rcases fits with holds | held | ⟨kind, kind', start, stop, apart⟩ | separate
  · exact Or.inr (Or.inl holds)
  · exact Or.inl held
  · exact Or.inr (Or.inr (Or.inl ⟨kind', kind, start.symm, stop.symm, apart.symm⟩))
  · obtain ⟨first, second, third, fourth⟩ := separate
    exact Or.inr (Or.inr (Or.inr ⟨first.symm, third.symm, second.symm, fourth.symm⟩))

/-! ### Regions at a position -/

theorem protects_iff {r : Region} {p : Nat} : r.protects p ↔ r.tryStart ≤ p ∧ p < r.tryEnd := by
  simp [protects]

theorem handles_iff {r : Region} {p : Nat} :
    r.handles p ↔ r.handlerStart ≤ p ∧ p < r.handlerEnd := by
  simp [handles]

theorem Within.protects {r s : Region} (within : r.Within s.tryStart s.tryEnd) {p : Nat}
    (inside : r.protects p ∨ r.handles p) : s.protects p := by
  unfold Within at within
  rw [protects_iff, handles_iff] at inside
  rw [protects_iff]
  omega

theorem Within.handles {r s : Region} (within : r.Within s.handlerStart s.handlerEnd) {p : Nat}
    (inside : r.protects p ∨ r.handles p) : s.handles p := by
  unfold Within at within
  rw [protects_iff, handles_iff] at inside
  rw [handles_iff]
  omega

variable {r s : Region}

theorem Proper.handles_start (proper : r.Proper) : r.handles r.handlerStart := by
  rw [handles_iff]
  exact ⟨Nat.le_refl _, proper.2.1⟩

/-- No position is both protected and in the handler. -/
theorem Proper.disjoint (proper : r.Proper) {p : Nat} (protects : r.protects p) :
    ¬ r.handles p := by
  obtain ⟨-, -, apart⟩ := proper
  rw [protects_iff] at protects
  rw [handles_iff]
  unfold Apart at apart
  omega

/-- A region within the protected range of another has a shorter protected range. -/
theorem Within.span_lt (proper : r.Proper) (within : r.Within s.tryStart s.tryEnd) :
    r.span < s.span := by
  obtain ⟨nonempty, nonempty', apart⟩ := proper
  unfold Within Apart span at *
  omega

section Pair

variable (properR : r.Proper) (properS : s.Proper) (fits : r.Fits s)
include properR properS fits

/-- Where a protected range meets another handler, one region lies in the other. -/
theorem within_of_protects_handles {p : Nat} (protects : r.protects p) (handles : s.handles p) :
    r.Within s.handlerStart s.handlerEnd ∨ s.Within r.tryStart r.tryEnd := by
  rcases fits with (within | within) | (within | within) | siblings | separate
  · exact Or.inr within
  · exact absurd (within.handles (Or.inr handles)) (properR.disjoint protects)
  · exact absurd handles (properS.disjoint (within.protects (Or.inl protects)))
  · exact Or.inl within
  · obtain ⟨-, -, start, stop, -⟩ := siblings
    refine absurd handles (properS.disjoint ?_)
    rwa [protects_iff, ← start, ← stop, ← protects_iff]
  · obtain ⟨-, apart, -, -⟩ := separate
    unfold Apart at apart
    rw [protects_iff] at protects
    rw [handles_iff] at handles
    omega

/-- Two protected ranges with a common position, one of them with a finally handler: one region
    lies in the protected range of the other. -/
theorem within_of_protects_protects (finalizing : r.kind = .finalizing) {p : Nat}
    (protects : r.protects p) (protects' : s.protects p) :
    r.Within s.tryStart s.tryEnd ∨ s.Within r.tryStart r.tryEnd := by
  rcases fits with (within | within) | (within | within) | siblings | separate
  · exact Or.inr within
  · exact absurd (within.handles (Or.inl protects')) (properR.disjoint protects)
  · exact Or.inl within
  · exact absurd (within.handles (Or.inl protects)) (properS.disjoint protects')
  · exact absurd finalizing siblings.1
  · obtain ⟨apart, -, -, -⟩ := separate
    unfold Apart at apart
    rw [protects_iff] at protects protects'
    omega

/-- A handler that contains the start of another one contains all of that region. -/
theorem within_of_handles_start (starts : r.handlerStart ≠ s.handlerStart)
    (handles : s.handles r.handlerStart) : r.Within s.handlerStart s.handlerEnd := by
  have here := properR.handles_start
  rcases fits with (within | within) | (within | within) | siblings | separate
  · exact absurd here (properR.disjoint (within.protects (Or.inr handles)))
  · -- The handler of `s` starts behind that of `r` then, and so does not reach its start.
    obtain ⟨-, -, below, -⟩ := within
    rw [handles_iff] at handles
    omega
  · exact absurd handles (properS.disjoint (within.protects (Or.inr here)))
  · exact within
  · obtain ⟨-, -, -, -, apart⟩ := siblings
    unfold Apart at apart
    rw [handles_iff] at handles here
    omega
  · obtain ⟨-, -, -, apart⟩ := separate
    unfold Apart at apart
    rw [handles_iff] at handles here
    omega

end Pair

end Region

/-! ### Bodies -/

/-- The regions of a body are laid out as blocks of source code. -/
structure Body.Nested (b : Body) : Prop where
  proper : ∀ r ∈ b.regions, r.Proper
  starts : (b.regions.map Region.handlerStart).Nodup
  fits : b.regions.Pairwise Region.Fits

namespace Body

variable {b : Body} {i j : Nat} {r s : Region}

theorem Nested.fits_of_ne (nested : b.Nested) (here : b.regions[i]? = some r)
    (there : b.regions[j]? = some s) (differ : i ≠ j) : r.Fits s := by
  obtain ⟨below, rfl⟩ := List.getElem?_eq_some_iff.mp here
  obtain ⟨below', rfl⟩ := List.getElem?_eq_some_iff.mp there
  rcases Nat.lt_or_gt_of_ne differ with less | greater
  · exact List.pairwise_iff_getElem.mp nested.fits i j below below' less
  · exact (List.pairwise_iff_getElem.mp nested.fits j i below' below greater).symm

theorem Nested.proper_of (nested : b.Nested) (here : b.regions[i]? = some r) : r.Proper :=
  nested.proper r (List.mem_of_getElem? here)

/-- A region is known by the start of its handler. -/
theorem Nested.index_unique (nested : b.Nested) (here : b.regions[i]? = some r)
    (there : b.regions[j]? = some s) (start : r.handlerStart = s.handlerStart) : i = j := by
  have first : (b.regions.map Region.handlerStart)[i]? = some r.handlerStart := by
    rw [List.getElem?_map, here]
    rfl
  have second : (b.regions.map Region.handlerStart)[j]? = some r.handlerStart := by
    rw [List.getElem?_map, there, start]
    rfl
  obtain ⟨below, same⟩ := List.getElem?_eq_some_iff.mp first
  obtain ⟨below', same'⟩ := List.getElem?_eq_some_iff.mp second
  exact (List.Nodup.getElem_inj_iff nested.starts).mp (same.trans same'.symm)

end Body

end HookSplice
