import HookSplice.Proofs.BodyMoves
import HookSplice.Proofs.PendingActions

/-!
# The order of handlers behind a splice

An exception is offered to the regions around an instruction by the lengths of their protected
ranges, and a splice makes those ranges longer that it inserts into.  The regions around an original
instruction stay the same ones.  Their order stays the same as well, unless a range around the
splice point outgrows one that is not, which is impossible where the ranges are nested.
-/

namespace HookSplice

/-- Lists of the same elements, each ordered by a relation of its own, are equal exactly if what the
    first relation puts in order is in order for the second one. -/
theorem eq_iff_of_pairwise {α : Type} {xs ys : List α} {before before' : α → α → Prop}
    (perm : xs.Perm ys) (ordered : xs.Pairwise before) (ordered' : ys.Pairwise before')
    (asymm : ∀ a b, before a b → ¬ before b a) (asymm' : ∀ a b, before' a b → ¬ before' b a) :
    ys = xs ↔ ∀ a ∈ xs, ∀ b ∈ xs, before a b → before' a b := by
  constructor
  · rintro rfl a memberA b memberB first
    obtain ⟨i, insideA, rfl⟩ := List.mem_iff_getElem.mp memberA
    obtain ⟨j, insideB, rfl⟩ := List.mem_iff_getElem.mp memberB
    rcases Nat.lt_trichotomy i j with less | rfl | greater
    · exact List.pairwise_iff_getElem.mp ordered' i j insideA insideB less
    · exact absurd first (asymm _ _ first)
    · have second := List.pairwise_iff_getElem.mp ordered j i insideB insideA greater
      exact absurd first (asymm _ _ second)
  · intro agree
    refine (perm.eq_of_pairwise (fun a b _ _ first second => absurd second (asymm' _ _ first)) ?_
      ordered').symm
    exact ordered.imp_of_mem fun memberA memberB first => agree _ memberA _ memberB first

theorem Body.Before.asymm {b : Body} {i j : Nat} (first : b.Before i j) : ¬ b.Before j i := by
  obtain ⟨r, s, here, there, first⟩ := first
  rintro ⟨s', r', there', here', second⟩
  obtain rfl := Option.some.inj (here.symm.trans here')
  obtain rfl := Option.some.inj (there.symm.trans there')
  omega

/-- The region `j` is overtaken by the region `k` around a position when `count` instructions are
    inserted at `point`: it came first before, contains the point while the other one does not, and
    comes second when it has grown. -/
def Body.Overtaken (b : Body) (point count i j k : Nat) : Prop :=
  ∃ r s, b.regions[j]? = some r ∧ b.regions[k]? = some s ∧ r.protects i ∧ s.protects i ∧
    r.protects point ∧ ¬ s.protects point ∧ (r.span < s.span ∨ r.span = s.span ∧ j < k) ∧
    (s.span < r.span + count ∨ s.span = r.span + count ∧ k < j)

namespace Splice

/-- An insertion makes exactly the protected ranges longer that contain its point. -/
theorem span_grown {point count i : Nat} {r : Region} (protects : r.protects i) :
    (r.shiftAfter point count).span = r.span + if r.protects point then count else 0 := by
  simp only [Region.protects, Bool.and_eq_true, decide_eq_true_eq] at protects ⊢
  unfold Region.span
  simp only [Region.shiftAfter, Region.shiftBound]
  split <;> split <;> split <;> omega

/-- Nested ranges do not overtake each other. -/
theorem not_overtaken {b : Body} {point count i j k : Nat} (laminar : ∀ r ∈ b.regions,
    ∀ s ∈ b.regions, r.protects i → s.protects i → r.Laminar s) :
    ¬ b.Overtaken point count i j k := by
  rintro ⟨r, s, here, there, around, around', inside, outside, first, -⟩
  have nested := laminar r (List.mem_of_getElem? here) s (List.mem_of_getElem? there) around around'
  unfold Region.Laminar at nested
  unfold Region.span at first
  simp only [Region.protects, Bool.and_eq_true, decide_eq_true_eq] at around around' inside outside
  omega

namespace Done

variable {symbols : SymbolTable} {options : SpliceOptions} {body : Body} {point : Nat}
  {t : Template} (d : Done symbols options body point t)

theorem candidates_perm (i : Nat) :
    (Frame.candidates body i).Perm
      (Frame.candidates d.result (moved point d.run.length i)) := by
  refine (List.perm_ext_iff_of_nodup Frame.nodup_innermostFirst Frame.nodup_innermostFirst).mpr ?_
  intro j
  rw [Frame.mem_innermostFirst, Frame.mem_innermostFirst, d.regions_eq, List.getElem?_map]
  cases body.regions[j]? with
  | none => simp
  | some r => simp [protects_moved]

/-- Of two regions around an instruction the first one stays first, unless it is overtaken. -/
theorem before_iff {i j k : Nat} (around : j ∈ Frame.candidates body i)
    (around' : k ∈ Frame.candidates body i) (first : body.Before j k) :
    d.result.Before j k ↔ ¬ body.Overtaken point d.run.length i j k := by
  obtain ⟨r, here, protects⟩ := Frame.mem_innermostFirst.mp around
  obtain ⟨s, there, protects'⟩ := Frame.mem_innermostFirst.mp around'
  obtain ⟨r', s', here', there', first⟩ := first
  obtain rfl := Option.some.inj (here.symm.trans here')
  obtain rfl := Option.some.inj (there.symm.trans there')
  have behind : d.result.Before j k ↔
      (r.shiftAfter point d.run.length).span < (s.shiftAfter point d.run.length).span ∨
      (r.shiftAfter point d.run.length).span = (s.shiftAfter point d.run.length).span ∧ j < k := by
    simp [Body.Before, d.regions_eq, here, there]
  have overtaken : body.Overtaken point d.run.length i j k ↔
      r.protects point ∧ ¬ s.protects point ∧
        (s.span < r.span + d.run.length ∨ s.span = r.span + d.run.length ∧ k < j) := by
    simp [Body.Overtaken, here, there, protects, protects', first]
  have differ : r.protects point → ¬ s.protects point → j ≠ k := by
    rintro inside outside rfl
    exact outside (Option.some.inj (here.symm.trans there) ▸ inside)
  rw [behind, overtaken, span_grown protects, span_grown protects']
  -- The lengths compare otherwise than before only if the first range grows alone.
  grind

theorem candidates_eq_iff (i : Nat) :
    Frame.candidates d.result (moved point d.run.length i) = Frame.candidates body i ↔
      ∀ j k, ¬ body.Overtaken point d.run.length i j k := by
  rw [eq_iff_of_pairwise (d.candidates_perm i) Frame.before_innermostFirst
    Frame.before_innermostFirst (fun _ _ => Body.Before.asymm) fun _ _ => Body.Before.asymm]
  constructor
  · intro agree j k overtaken
    obtain ⟨r, s, here, there, protects, protects', -, -, first, -⟩ := id overtaken
    have around : j ∈ Frame.candidates body i := Frame.mem_innermostFirst.mpr ⟨r, here, protects⟩
    have around' : k ∈ Frame.candidates body i := Frame.mem_innermostFirst.mpr ⟨s, there, protects'⟩
    have before : body.Before j k := ⟨r, s, here, there, first⟩
    exact (d.before_iff around around' before).mp (agree j around k around' before) overtaken
  · intro never j around k around' before
    exact (d.before_iff around around' before).mpr (never j k)

end Done

/-- What a splice does to the order of handlers.  An original instruction is found at its new
    position, with the same regions around it.  An exception there is offered to them in the same
    order exactly if no region around the splice point is overtaken; so it is whenever the protected
    ranges around the instruction are nested. -/
theorem splice_candidates {symbols : SymbolTable} {options : SpliceOptions} {body : Body}
    {point : Nat} {t : Template} {s : Spliced}
    (success : splice symbols options body point t = .ok s) (i : Nat) :
    (∀ ins, body.code[i]? = some ins →
      ∃ ins', s.body.code[moved point s.count i]? = some ins' ∧ ins'.Alike ins) ∧
    (Frame.candidates body i).Perm (Frame.candidates s.body (moved point s.count i)) ∧
    (Frame.candidates s.body (moved point s.count i) = Frame.candidates body i ↔
      ∀ j k, ¬ body.Overtaken point s.count i j k) ∧
    ((∀ r ∈ body.regions, ∀ q ∈ body.regions, r.protects i → q.protects i → r.Laminar q) →
      Frame.candidates s.body (moved point s.count i) = Frame.candidates body i) := by
  obtain ⟨d, -, -, rfl⟩ := splice_eq_ok success
  refine ⟨fun ins here => ?_, d.candidates_perm i, d.candidates_eq_iff i, fun laminar => ?_⟩
  · exact d.getElem?_moved here
  · exact (d.candidates_eq_iff i).mpr fun j k => not_overtaken laminar

/-- A table with one static method that gives a number. -/
def lotSymbols : SymbolTable :=
  ⟨["Main", "int"], [], [⟨⟨⟨0⟩, "draw", [], some ⟨1⟩, true⟩, "Main::draw()"⟩]⟩

/-- A body that throws where two protected ranges overlap without being nested.  The handler of the
    one returns 0, that of the other one returns 1. -/
def lotBody : Body :=
  .ofParts ⟨0⟩
    [.plain .nop, .plain .nop, .of .ldc (.int 7), .plain .throw, .plain .nop, .plain .nop,
      .of .leave (.label ⟨0⟩), .plain .pop, .of .ldc (.int 0), .plain .ret, .plain .pop,
      .of .ldc (.int 1), .plain .ret, ⟨.ldc, .int 2, [⟨0⟩]⟩, .plain .ret]
    [] [⟨.catching ⟨1⟩, 0, 4, 7, 10⟩, ⟨.catching ⟨1⟩, 2, 7, 10, 13⟩]

/-- A template that never denies. -/
def idleTemplate : Template :=
  ⟨[.emit (.of .ldc (.int 0)), .branch .brtrue .deny], [], 0,
    .anchor ⟨.instruction ⟨some .nop, none⟩, .first, 1⟩⟩

theorem lotBody_candidates :
    ∃ s, splice lotSymbols .default lotBody 0 idleTemplate = .ok s ∧
      (Frame.candidates lotBody 3).Perm (Frame.candidates s.body (moved 0 s.count 3)) ∧
      Frame.candidates s.body (moved 0 s.count 1) = Frame.candidates lotBody 1 := by
  have succeeds : (splice lotSymbols .default lotBody 0 idleTemplate).toOption.isSome := by
    decide +kernel
  have spliced := Except.eq_ok_value succeeds
  have laminar : ∀ r ∈ lotBody.regions, ∀ q ∈ lotBody.regions, r.protects 1 → q.protects 1 →
      r.Laminar q := by
    unfold Region.Laminar
    decide
  exact ⟨_, spliced, (splice_candidates spliced 3).2.1, (splice_candidates spliced 1).2.2.2 laminar⟩

/-- Where the ranges overlap, the first one grows past the second one, and the handlers change
    places. -/
theorem lotBody_reordered :
    ∃ s, splice lotSymbols .default lotBody 0 idleTemplate = .ok s ∧
      Frame.candidates lotBody 3 = [0, 1] ∧
      Frame.candidates s.body (moved 0 s.count 3) = [1, 0] := by
  have reordered : (splice lotSymbols .default lotBody 0 idleTemplate).toOption.map
      (fun s => Frame.candidates s.body (moved 0 s.count 3)) = some [1, 0] := by decide +kernel
  cases spliced : splice lotSymbols .default lotBody 0 idleTemplate with
  | error e =>
      rw [spliced] at reordered
      cases reordered
  | ok s =>
      rw [spliced] at reordered
      exact ⟨s, rfl, by decide, Option.some.inj reordered⟩

end Splice

end HookSplice
