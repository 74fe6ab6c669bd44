import HookSplice.Proofs.FrameDepth
import HookSplice.Proofs.RegionLayout
import HookSplice.Proofs.Sorting
import Mathlib.Tactic.Tauto

/-!
# What a frame puts off

A `leave` and an exception begin an action: a way through the regions around a position, inner ones
first.  Each finally handler on the way is entered with the rest of the action put off.  In a nested
body the position that an action reaches next lies in no handler that did not contain the position
it goes on from, but for the handler it enters.
-/

namespace HookSplice

namespace Pending

/-- The regions still to be passed. -/
def rest : Pending → List Nat
  | leave _ rest => rest
  | throw _ rest => rest

/-- The same action with other regions to be passed. -/
def withRest : Pending → List Nat → Pending
  | leave target _, rest => leave target rest
  | throw v _, rest => throw v rest

/-- Where the action leads in the end; an exception leads nowhere. -/
def target? : Pending → Option Nat
  | leave target _ => some target
  | throw _ _ => none

@[simp]
theorem rest_withRest (a : Pending) (l : List Nat) : (a.withRest l).rest = l := by
  cases a <;> rfl

@[simp]
theorem target?_withRest (a : Pending) (l : List Nat) : (a.withRest l).target? = a.target? := by
  cases a <;> rfl

@[simp]
theorem withRest_withRest (a : Pending) (l l' : List Nat) :
    (a.withRest l).withRest l' = a.withRest l' := by
  cases a <;> rfl

@[simp]
theorem withRest_rest (a : Pending) : a.withRest a.rest = a := by
  cases a <;> rfl

end Pending

/-! ### The order of regions -/

/-- The one region comes before the other: its protected range is shorter, or equally long and it
    was declared first. -/
def Body.Before (b : Body) (i j : Nat) : Prop :=
  ∃ r s, b.regions[i]? = some r ∧ b.regions[j]? = some s ∧
    (r.span < s.span ∨ r.span = s.span ∧ i < j)

namespace Frame

variable {b : Body} {keep : Region → Bool}

/-- Of two regions listed the first one has a shorter protected range, or was declared first of two
    with ranges of one length. -/
theorem before_innermostFirst : (innermostFirst b keep).Pairwise b.Before := by
  unfold innermostFirst
  rw [List.pairwise_map]
  have declared : (b.regions.zipIdx.filter fun e => keep e.1).Pairwise fun e e' => e.2 < e'.2 := by
    refine List.Pairwise.sublist List.filter_sublist ?_
    rw [← List.pairwise_map, List.zipIdx_map_snd]
    exact List.pairwise_lt_range'
  refine (Order.stably_sortBy (fun e => e.1.span) declared).imp_of_mem ?_
  rintro ⟨r, i⟩ ⟨s, j⟩ listed listed' first
  exact ⟨r, s,
    List.mem_zipIdx_iff_getElem?.mp (List.mem_of_mem_filter (Order.mem_sortBy.mp listed)),
    List.mem_zipIdx_iff_getElem?.mp (List.mem_of_mem_filter (Order.mem_sortBy.mp listed')), first⟩

theorem pairwise_innermostFirst : (innermostFirst b keep).Pairwise fun i j =>
    ∀ r s, b.regions[i]? = some r → b.regions[j]? = some s → r.span ≤ s.span := by
  refine before_innermostFirst.imp ?_
  rintro i j ⟨r, s, here, there, first⟩ r' s' here' there'
  obtain rfl := Option.some.inj (here.symm.trans here')
  obtain rfl := Option.some.inj (there.symm.trans there')
  rcases first with less | ⟨equal, -⟩
  · exact Nat.le_of_lt less
  · exact Nat.le_of_eq equal

theorem nodup_innermostFirst : (innermostFirst b keep).Nodup := by
  unfold innermostFirst
  refine ((Order.sortBy_perm _ _).map Prod.snd).nodup_iff.mpr ?_
  refine List.Nodup.sublist (List.filter_sublist.map Prod.snd) ?_
  rw [List.zipIdx_map_snd]
  exact List.nodup_range'

end Frame

/-! ### Verified moves -/

namespace Body.Structured

variable {symbols : SymbolTable} {argCount : Nat} {b : Body}
  (sound : b.Structured symbols argCount) {p t : Nat} {ins : Instruction}
  (here : b.code[p]? = some ins) {r : Region} (member : r ∈ b.regions)
include sound here member

/-- Control falls into no handler. -/
theorem handles_of_falls (falls : ins.opcode.fallsThrough) (handles : r.handles (p + 1)) :
    r.handles p := by
  have apart := (StackMap.transferFault?_eq_none_iff.mp (sound.transfers here)).1 falls r member
  rw [Region.handles_iff] at handles ⊢
  omega

/-- A branch stays in the ranges it starts in. -/
theorem same_of_branch (stays : ins.opcode ≠ .leave) (target : b.targetOf? ins = some t) :
    r.protects p = r.protects t ∧ r.handles p = r.handles t := by
  have allowed :=
    (StackMap.transferFault?_eq_none_iff.mp (sound.transfers here)).2 _ target r member
  simpa [StackMap.mayBranch, stays] using allowed

/-- A `leave` leads into no handler. -/
theorem handles_of_leave (op : ins.opcode = .leave) (target : b.targetOf? ins = some t)
    (handles : r.handles t) : r.handles p := by
  have allowed :=
    (StackMap.transferFault?_eq_none_iff.mp (sound.transfers here)).2 _ target r member
  have both : (r.protects t → r.protects p) ∧ r.handles p := by
    simpa [StackMap.mayBranch, op, handles, imp_iff_not_or] using allowed
  exact both.2

end Body.Structured

/-! ### Actions -/

/-- An instruction at a position begins an action: a `leave`, or an exception raised there. -/
inductive Body.Begins (b : Body) (s : Nat) : Pending → Prop
  | leave {ins : Instruction} {t : Nat} (here : b.code[s]? = some ins) (op : ins.opcode = .leave)
      (target : b.targetOf? ins = some t) : Begins b s (.leave t (Frame.exited b s t))
  | throw (v : Value) : Begins b s (.throw v (Frame.candidates b s))

namespace Body.Begins

variable {b : Body} {s : Nat} {a : Pending} (begins : b.Begins s a)
include begins

/-- The regions on the way are those that satisfy some condition, inner ones first. -/
theorem exists_rest_eq : ∃ keep, a.rest = Frame.innermostFirst b keep ∧ ∀ r, keep r ↔
    r.protects s ∧ ∀ t, a.target? = some t → r.kind = .finalizing ∧ ¬ r.protects t := by
  cases begins with
  | @leave ins t here op target =>
      have rest : (Pending.leave t (Frame.exited b s t)).rest = Frame.exited b s t := rfl
      refine ⟨_, rest.trans rfl, fun r => ?_⟩
      simp only [Pending.target?, Option.some.injEq, forall_eq', Bool.and_eq_true, beq_iff_eq,
        Bool.not_eq_true', Bool.not_eq_true]
      tauto
  | throw v =>
      have rest : (Pending.throw v (Frame.candidates b s)).rest = Frame.candidates b s := rfl
      exact ⟨_, rest.trans rfl, fun r => by simp [Pending.target?]⟩

/-- The regions on the way protect the position; those of a `leave` have finally handlers and do
    not protect its target. -/
theorem region {k : Nat} (member : k ∈ a.rest) : ∃ r, b.regions[k]? = some r ∧ r.protects s ∧
    ∀ t, a.target? = some t → r.kind = .finalizing ∧ ¬ r.protects t := by
  obtain ⟨keep, rest, kept⟩ := begins.exists_rest_eq
  rw [rest] at member
  obtain ⟨r, here, keeps⟩ := Frame.mem_innermostFirst.mp member
  exact ⟨r, here, (kept r).mp keeps⟩

/-- Every finally handler of a range that is left is on the way. -/
theorem complete {k : Nat} {r : Region} (here : b.regions[k]? = some r)
    (finalizing : r.kind = .finalizing) (protects : r.protects s)
    (outside : ∀ t, a.target? = some t → ¬ r.protects t) : k ∈ a.rest := by
  obtain ⟨keep, rest, kept⟩ := begins.exists_rest_eq
  rw [rest]
  exact Frame.mem_innermostFirst.mpr
    ⟨r, here, (kept r).mpr ⟨protects, fun t target => ⟨finalizing, outside t target⟩⟩⟩

theorem spans : a.rest.Pairwise fun i j =>
    ∀ r r', b.regions[i]? = some r → b.regions[j]? = some r' → r.span ≤ r'.span := by
  obtain ⟨keep, rest, -⟩ := begins.exists_rest_eq
  rw [rest]
  exact Frame.pairwise_innermostFirst

theorem nodup : a.rest.Nodup := by
  obtain ⟨keep, rest, -⟩ := begins.exists_rest_eq
  rw [rest]
  exact Frame.nodup_innermostFirst

/-- A verified `leave` leads into no handler. -/
theorem handles {symbols : SymbolTable} {argCount : Nat} (sound : b.Structured symbols argCount)
    {t : Nat} (target : a.target? = some t) {r : Region} (member : r ∈ b.regions)
    (handles : r.handles t) : r.handles s := by
  cases begins with
  | leave here op leads =>
      cases target
      exact sound.handles_of_leave here member op leads handles
  | throw => cases target

end Body.Begins

/-- The action is what is left of one that was begun at a position, once the regions `before` have
    been passed. -/
def Pending.Part (b : Body) (s : Nat) (before : List Nat) (a : Pending) : Prop :=
  b.Begins s (a.withRest (before ++ a.rest))

/-- The action was put off on entry to the handler of a region. -/
def Pending.Of (b : Body) (i : Nat) (a : Pending) : Prop :=
  ∃ s before, a.Part b s (before ++ [i])

/-- Where an action leads next, and what is put off then: to its target, or to the next handler that
    takes it.  Finally handlers take every action; handlers for exceptions may be passed. -/
inductive Pending.Reaches (b : Body) (a : Pending) (put : List Pending) : Nat → List Pending → Prop
  | arrives {t : Nat} (target : a.target? = some t) (done : a.rest = []) : Reaches b a put t put
  | handled {skipped rest : List Nat} {k : Nat} {r : Region} (order : a.rest = skipped ++ k :: rest)
      (here : b.regions[k]? = some r)
      (passed : ∀ j ∈ skipped, ∀ r', b.regions[j]? = some r' → r'.kind ≠ .finalizing) :
      Reaches b a put r.handlerStart
        (if r.kind = .finalizing then a.withRest rest :: put else put)

namespace Pending

/-! ### The regions of an action -/

namespace Part

variable {b : Body} {a : Pending} {s : Nat} {before : List Nat} (part : a.Part b s before)
include part

theorem region {k : Nat} (member : k ∈ before ++ a.rest) : ∃ r, b.regions[k]? = some r ∧
    r.protects s ∧ ∀ t, a.target? = some t → r.kind = .finalizing ∧ ¬ r.protects t := by
  have begun := Body.Begins.region part (k := k)
  simp only [rest_withRest, target?_withRest] at begun
  exact begun member

theorem protects {k : Nat} {r : Region} (here : b.regions[k]? = some r)
    (member : k ∈ before ++ a.rest) : r.protects s := by
  obtain ⟨r', here', protects, -⟩ := part.region member
  obtain rfl := Option.some.inj (here.symm.trans here')
  exact protects

theorem outside {k t : Nat} {r : Region} (here : b.regions[k]? = some r)
    (member : k ∈ before ++ a.rest) (target : a.target? = some t) : ¬ r.protects t := by
  obtain ⟨r', here', -, left⟩ := part.region member
  obtain rfl := Option.some.inj (here.symm.trans here')
  exact (left t target).2

theorem complete {k : Nat} {r : Region} (here : b.regions[k]? = some r)
    (finalizing : r.kind = .finalizing) (protects : r.protects s)
    (outside : ∀ t, a.target? = some t → ¬ r.protects t) (ahead : k ∉ before) : k ∈ a.rest := by
  have listed := Body.Begins.complete part here finalizing protects
    (by simpa only [target?_withRest] using outside)
  rw [rest_withRest] at listed
  exact (List.mem_append.mp listed).resolve_left ahead

theorem spans : (before ++ a.rest).Pairwise fun i j =>
    ∀ r r', b.regions[i]? = some r → b.regions[j]? = some r' → r.span ≤ r'.span := by
  have begun := Body.Begins.spans part
  rwa [rest_withRest] at begun

theorem nodup : (before ++ a.rest).Nodup := by
  have begun := Body.Begins.nodup part
  rwa [rest_withRest] at begun

theorem handles {symbols : SymbolTable} {argCount : Nat} (sound : b.Structured symbols argCount)
    {t : Nat} (target : a.target? = some t) {r : Region} (member : r ∈ b.regions)
    (handles : r.handles t) : r.handles s :=
  Body.Begins.handles part sound (by rwa [target?_withRest]) member handles

/-- What is left once more regions have been passed. -/
theorem pass {passed rest : List Nat} (order : a.rest = passed ++ rest) :
    (a.withRest rest).Part b s (before ++ passed) := by
  unfold Part
  rw [withRest_withRest, rest_withRest, List.append_assoc, ← order]
  exact part

end Part

end Pending

theorem Body.Begins.part {b : Body} {a : Pending} {s : Nat} (begins : b.Begins s a) :
    a.Part b s [] := by
  unfold Pending.Part
  rwa [List.nil_append, Pending.withRest_rest]

/-! ### Where actions lead -/

section Reaching

variable {symbols : SymbolTable} {argCount : Nat} {b : Body}
  (sound : b.Structured symbols argCount) (nested : b.Nested) {a : Pending} {s q : Nat}
  {before : List Nat} {put put' : List Pending} {j : Nat} {r : Region}
  (here : b.regions[j]? = some r)

namespace Pending.Part

section Nested

include nested here

/-- The handler of a region ahead lies in another handler only together with the whole region, and
    so with the position at which the action was begun. -/
theorem within_of_handles (part : a.Part b s before) {k : Nat} {r' : Region}
    (there : b.regions[k]? = some r') (ahead : k ∈ a.rest) (differ : k ≠ j)
    (handles : r.handles r'.handlerStart) :
    r'.Within r.handlerStart r.handlerEnd ∧ r.handles s := by
  have within := Region.within_of_handles_start (nested.proper_of there) (nested.proper_of here)
    (nested.fits_of_ne there here differ) (fun same => differ (nested.index_unique there here same))
    handles
  have protects := part.protects there (List.mem_append_right _ ahead)
  exact ⟨within, within.handles (Or.inl protects)⟩

end Nested

variable {i : Nat} {first : Region} (entered : b.regions[i]? = some first)
include here entered

/-- The region whose handler put the action off is not ahead any more, and those that are have no
    shorter protected ranges. -/
theorem span_le (part : a.Part b s (before ++ [i])) (ahead : j ∈ a.rest) :
    i ≠ j ∧ first.span ≤ r.span := by
  have last : i ∈ before ++ [i] := List.mem_append_right _ (List.mem_singleton_self i)
  constructor
  · rintro rfl
    exact List.disjoint_of_nodup_append part.nodup last ahead
  · exact (List.pairwise_append.mp part.spans).2.2 i last j ahead first r entered here

/-- The regions passed before have no longer protected ranges than the one whose handler put the
    action off. -/
theorem span_le_of_passed (part : a.Part b s (before ++ [i])) (passed : j ∈ before ++ [i]) :
    r.span ≤ first.span := by
  rcases List.mem_append.mp passed with earlier | last
  · have spans := (List.pairwise_append.mp part.spans).1
    exact (List.pairwise_append.mp spans).2.2 j earlier i (List.mem_singleton_self i) r first here
      entered
  · obtain rfl := List.mem_singleton.mp last
    obtain rfl := Option.some.inj (here.symm.trans entered)
    exact Nat.le_refl _

include nested

/-- A region around the one whose handler put the action off has not been passed. -/
theorem not_passed (part : a.Part b s (before ++ [i]))
    (within : first.Within r.tryStart r.tryEnd) : j ∉ before ++ [i] := by
  intro passed
  have spans := part.span_le_of_passed here entered passed
  have less := within.span_lt (nested.proper_of entered)
  omega

/-- The regions ahead protect the handler that put the action off. -/
theorem protects_of_handles (part : a.Part b s (before ++ [i]))
    (finalizing : first.kind = .finalizing) {p : Nat} (inside : first.handles p)
    (ahead : j ∈ a.rest) : r.protects p := by
  obtain ⟨differ, spans⟩ := part.span_le here entered ahead
  rcases Region.within_of_protects_protects (nested.proper_of entered) (nested.proper_of here)
    (nested.fits_of_ne entered here differ) finalizing (part.protects entered (by simp))
    (part.protects here (List.mem_append_right _ ahead)) with within | within
  · exact within.protects (Or.inr inside)
  · have less := within.span_lt (nested.proper_of here)
    omega

end Pending.Part

namespace Pending.Reaches

variable (reaches : a.Reaches b put q put')
include nested here reaches

section Begun

variable (part : a.Part b s before)
include part

include sound in
/-- An action leads into no handler that does not contain the position where it was begun, but for
    the handlers ahead. -/
theorem handles_of_handles (handles : r.handles q) :
    r.handles s ∨ (r.handlerStart = q ∧ j ∈ a.rest) := by
  cases reaches with
  | arrives target done =>
      exact Or.inl (part.handles sound target (List.mem_of_getElem? here) handles)
  | @handled skipped rest k r' order there passed =>
      have ahead : k ∈ a.rest := by simp [order]
      by_cases same : k = j
      · subst same
        obtain rfl := Option.some.inj (here.symm.trans there)
        exact Or.inr ⟨rfl, ahead⟩
      · exact Or.inl (part.within_of_handles nested here there ahead same handles).2

/-- An action that leaves the protected range of a finally handler which it has not passed yet leads
    to this handler and is put off there. -/
theorem enters (finalizing : r.kind = .finalizing) (protects : r.protects s)
    (left : ¬ r.protects q) (ahead : j ∉ before) :
    r.handlerStart = q ∧ ∃ a', put' = a' :: put := by
  cases reaches with
  | arrives target done =>
      have listed := part.complete here finalizing protects (fun t target' => by
        obtain rfl := Option.some.inj (target.symm.trans target')
        exact left) ahead
      rw [done] at listed
      cases listed
  | @handled skipped rest k r' order there passed =>
      by_cases same : k = j
      · subst same
        obtain rfl := Option.some.inj (here.symm.trans there)
        exact ⟨rfl, a.withRest rest, if_pos finalizing⟩
      exfalso
      have member : k ∈ before ++ a.rest := List.mem_append_right _ (by simp [order])
      -- The region is not within that of the handler: it would come first, or hold the target.
      have outside : ¬ r.Within r'.tryStart r'.tryEnd := by
        intro within
        by_cases aims : ∃ t, a.target? = some t ∧ r.protects t
        · obtain ⟨t, target, inside⟩ := aims
          exact part.outside there member target (within.protects (Or.inl inside))
        · have listed := part.complete here finalizing protects
            (fun t target inside => aims ⟨t, target, inside⟩) ahead
          have spans := (List.pairwise_append.mp part.spans).2.1
          rw [order] at listed spans
          rcases List.mem_append.mp listed with skippedHere | later
          · exact passed j skippedHere r here finalizing
          · rcases List.mem_cons.mp later with rfl | later
            · exact same rfl
            · have less := within.span_lt (nested.proper_of here)
              have ordered := (List.pairwise_cons.mp (List.pairwise_append.mp spans).2.1).1 j later
                r' r there here
              omega
      rcases Region.within_of_protects_protects (nested.proper_of here) (nested.proper_of there)
        (nested.fits_of_ne here there (Ne.symm same)) finalizing protects
        (part.protects there member) with within | within
      · exact outside within
      · exact left (within.protects (Or.inr (nested.proper_of there).handles_start))

end Begun

section PutOff

variable {i : Nat} {first : Region} (entered : b.regions[i]? = some first)
  (part : a.Part b s (before ++ [i]))
include entered part

include sound in
/-- An action that a handler put off leads out of this handler, and into no other that does not
    contain the handler, but for those ahead. -/
theorem handles_of_handles_putOff {p : Nat} (inside : first.handles p) (handles : r.handles q) :
    (r.handles p ∧ j ≠ i) ∨ (r.handlerStart = q ∧ j ∈ a.rest) := by
  have protects : first.protects s := part.protects entered (by simp)
  have proper := nested.proper_of entered
  -- A handler with the position where the action was begun holds the region, or is held by it.
  have around (handles : r.handles s) (out : ¬ r.Within first.tryStart first.tryEnd) :
      r.handles p ∧ j ≠ i := by
    have differ : i ≠ j := by
      rintro rfl
      obtain rfl := Option.some.inj (here.symm.trans entered)
      exact proper.disjoint protects handles
    have within := (Region.within_of_protects_handles proper (nested.proper_of here)
      (nested.fits_of_ne entered here differ) protects handles).resolve_right out
    exact ⟨within.handles (Or.inr inside), differ.symm⟩
  cases reaches with
  | arrives target done =>
      refine Or.inl (around (part.handles sound target (List.mem_of_getElem? here) handles) ?_)
      exact fun within => part.outside entered (by simp) target (within.protects (Or.inr handles))
  | @handled skipped rest k r' order there passed =>
      have ahead : k ∈ a.rest := by simp [order]
      by_cases same : k = j
      · subst same
        obtain rfl := Option.some.inj (here.symm.trans there)
        exact Or.inr ⟨rfl, ahead⟩
      · obtain ⟨within, handles⟩ := part.within_of_handles nested here there ahead same handles
        refine Or.inl (around handles fun held => ?_)
        -- The region ahead would be within the one whose handler is left.
        have shorter : r'.span < first.span := by
          obtain ⟨nonempty, -, apart⟩ := nested.proper_of here
          unfold Region.Within Region.Apart Region.span at *
          omega
        have ordered := (part.span_le there entered ahead).2
        omega

/-- An action that a handler put off leads from the protected range of a finally handler around it
    to this handler, or stays in the range. -/
theorem enters_putOff (finalizing : r.kind = .finalizing)
    (within : first.Within r.tryStart r.tryEnd) (left : ¬ r.protects q) :
    r.handlerStart = q ∧ ∃ a', put' = a' :: put :=
  reaches.enters nested here part finalizing
    (within.protects (Or.inl (part.protects entered (by simp)))) left
    (part.not_passed nested here entered within)

end PutOff

end Pending.Reaches

end Reaching

end HookSplice
