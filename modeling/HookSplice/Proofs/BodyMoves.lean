import HookSplice.Machine.Frame
import HookSplice.Proofs.SplicedStructure
import HookSplice.Proofs.Sorting

/-!
# Bodies that hold the code of another

A body holds the code of another one when each instruction of that has a place in it, and control
and exceptions pass between these places as they do in the other body.  Every body holds its own
code, and the body that a splice makes holds that of the original.
-/

namespace HookSplice

/-! ### Nested protected ranges -/

/-- Of two protected ranges, one lies within the other, or they have no position in common. -/
def Region.Laminar (r s : Region) : Prop :=
  (s.tryStart ≤ r.tryStart ∧ r.tryEnd ≤ s.tryEnd) ∨
    (r.tryStart ≤ s.tryStart ∧ s.tryEnd ≤ r.tryEnd) ∨ r.tryEnd ≤ s.tryStart ∨ s.tryEnd ≤ r.tryStart

/-- The protected ranges of a body are pairwise nested or disjoint. -/
def Body.Laminar (b : Body) : Prop :=
  ∀ r ∈ b.regions, ∀ s ∈ b.regions, r.Laminar s

namespace Splice

/-- Insertion keeps the order of two ranges by length when both are around a position. -/
theorem span_shiftAfter {point count i : Nat} {r s : Region} (laminar : r.Laminar s)
    (first : r.protects i) (second : s.protects i) :
    (r.shiftAfter point count).span < (s.shiftAfter point count).span ↔ r.span < s.span := by
  simp only [Region.protects, Bool.and_eq_true, decide_eq_true_eq] at first second
  have keeps (a b : Nat) : Region.shiftBound point count a ≤ Region.shiftBound point count b ↔
      a ≤ b := shiftBound_le_shiftBound
  have starts := keeps r.tryStart s.tryStart
  have starts' := keeps s.tryStart r.tryStart
  have ends := keeps r.tryEnd s.tryEnd
  have ends' := keeps s.tryEnd r.tryEnd
  have nonempty := keeps r.tryEnd r.tryStart
  have nonempty' := keeps s.tryEnd s.tryStart
  unfold Region.Laminar at laminar
  unfold Region.span
  simp only [Region.shiftAfter]
  omega

end Splice

namespace Frame

/-- The order of the regions around a position depends on how their lengths compare only. -/
theorem innermostFirst_map {b b' : Body} {f : Region → Region} {keep keep' : Region → Bool}
    (regions : b'.regions = b.regions.map f) (kept : ∀ r, keep' (f r) = keep r)
    (order : ∀ r ∈ b.regions, ∀ s ∈ b.regions, keep r → keep s →
      ((f r).span < (f s).span ↔ r.span < s.span)) :
    innermostFirst b' keep' = innermostFirst b keep := by
  have selected : (b'.regions.zipIdx.filter fun e => keep' e.1) =
      (b.regions.zipIdx.filter fun e => keep e.1).map (Prod.map f id) := by
    rw [regions, List.zipIdx_map, List.filter_map]
    congr 1
    apply List.filter_congr
    intro e _
    exact kept e.1
  have same : Order.SameOrder (fun e : Region × Nat => e.1.span) (fun e => e.1.span)
      (Prod.map f id) (b.regions.zipIdx.filter fun e => keep e.1) := by
    intro x memberX y memberY
    obtain ⟨inX, keptX⟩ := List.mem_filter.mp memberX
    obtain ⟨inY, keptY⟩ := List.mem_filter.mp memberY
    exact order x.1 (List.fst_mem_of_mem_zipIdx inX) y.1 (List.fst_mem_of_mem_zipIdx inY)
      keptX keptY
  show (Order.sortBy _ (b'.regions.zipIdx.filter fun e => keep' e.1)).map Prod.snd =
    (Order.sortBy _ (b.regions.zipIdx.filter fun e => keep e.1)).map Prod.snd
  rw [selected, Order.sortBy_map same, List.map_map]
  rfl

end Frame

/-! ### Moves -/

/-- How one body holds the code of another: the instruction at `i` stands at `place i`, and control
    that goes to `i` arrives at `arrive i`.  These differ where instructions were inserted. -/
structure BodyMove where
  source : Body
  target : Body
  place : Nat → Nat
  arrive : Nat → Nat
  method_eq : target.method = source.method
  entry : arrive 0 = 0
  onward : ∀ i, place i + 1 = arrive (i + 1)
  code : ∀ {i : Nat} {ins : Instruction}, source.code[i]? = some ins →
    ∃ ins', target.code[place i]? = some ins' ∧ ins'.Alike ins ∧
      target.targetOf? ins' = (source.targetOf? ins).map arrive
  region : ∀ k : Nat, target.regions[k]?.map (fun r : Region => (r.kind, r.handlerStart)) =
    source.regions[k]?.map fun r : Region => (r.kind, arrive r.handlerStart)
  candidates : ∀ i, Frame.candidates target (place i) = Frame.candidates source i
  exited : ∀ i j, Frame.exited target (place i) (arrive j) = Frame.exited source i j
  slots : ∃ more, target.locals = source.locals ++ more

namespace BodyMove

/-- Every body holds its own code. -/
def refl (b : Body) : BodyMove where
  source := b
  target := b
  place := id
  arrive := id
  method_eq := rfl
  entry := rfl
  onward := fun _ => rfl
  code := fun {_ ins} here => ⟨ins, here, .refl ins, by simp⟩
  region := fun _ => rfl
  candidates := fun _ => rfl
  exited := fun _ _ => rfl
  slots := ⟨[], by simp⟩

end BodyMove

namespace Splice.Done

variable {symbols : SymbolTable} {options : SpliceOptions} {body : Body} {point : Nat}
  {t : Template} (d : Done symbols options body point t)

theorem candidates_moved (laminar : body.Laminar) (i : Nat) :
    Frame.candidates d.result (moved point d.run.length i) = Frame.candidates body i :=
  Frame.innermostFirst_map d.regions_eq (fun r => protects_moved r i)
    fun r inR s inS keptR keptS => span_shiftAfter (laminar r inR s inS) keptR keptS

theorem exited_moved (laminar : body.Laminar) (i j : Nat) :
    Frame.exited d.result (moved point d.run.length i)
      (Region.shiftBound point d.run.length j) = Frame.exited body i j := by
  refine Frame.innermostFirst_map d.regions_eq (fun r => ?_) fun r inR s inS keptR keptS => ?_
  · rw [protects_moved, protects_shiftBound]
    rfl
  · simp only [Bool.and_eq_true] at keptR keptS
    exact span_shiftAfter (laminar r inR s inS) keptR.1.2 keptS.1.2

/-- The body that a splice makes holds the code of the original. -/
def move (laminar : body.Laminar) (distinct : (Code.labels d.result.code).Nodup) : BodyMove where
  source := body
  target := d.result
  place := moved point d.run.length
  arrive := Region.shiftBound point d.run.length
  method_eq := d.method_eq
  entry := if_neg (Nat.not_lt_zero point)
  onward := moved_succ
  code := fun {_ _} here => by
    obtain ⟨ins', here', alike⟩ := d.getElem?_moved here
    exact ⟨ins', here', alike, d.targetOf?_moved distinct here alike⟩
  region := fun k => by
    rw [d.regions_eq, List.getElem?_map, Option.map_map]
    rfl
  candidates := d.candidates_moved laminar
  exited := d.exited_moved laminar
  slots := ⟨t.scratch, d.locals_eq⟩

end Splice.Done

end HookSplice
