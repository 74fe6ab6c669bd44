import HookSplice.Proofs.FinallyHandlers

/-!
# The discipline of finally handlers

A finally handler is to run whenever control leaves its range, and is to be entered in no other way.
Verification asks for less: a `ret` in the range returns without the handler, code falls out of the
range, and what an abandoned handler had put off leads astray.  In a body that is `Disciplined`,
where such ways out are missing, and as long as no handler is abandoned inside of one that goes on,
control keeps to the regions: `Machine.keepsRegions`.
-/

namespace HookSplice

namespace Body

/-- A nested body whose finally handlers are not gone around: no handler stands at the start, no
    `ret` and no fall leads out of a range with a finally handler, and a finally handler does not
    end inside of such a range. -/
structure Disciplined (b : Body) : Prop extends Nested b where
  entry : ∀ r ∈ b.regions, 0 < r.handlerStart
  stays : ∀ p, ∀ ins ∈ b.code[p]?, ∀ r ∈ b.regions, r.kind = .finalizing → r.protects p →
    ins.opcode ≠ .ret ∧ (ins.opcode.fallsThrough → r.protects (p + 1))
  ends : ∀ p, b.EndsAt p → ∃ i, b.Innermost p i ∧ ∀ r ∈ b.regions[i]?, ∀ s ∈ b.regions,
    s.kind = .finalizing → s.protects p → ¬ s.Within r.handlerStart r.handlerEnd

/-- The actions put off last answer to the finally handlers around a position; those below were left
    by handlers that have been abandoned. -/
def Answered (b : Body) (p : Nat) (put : List Pending) : Prop :=
  ∃ running own base, put = own ++ base ∧ b.Answers 0 p running own

variable {symbols : SymbolTable} {argCount : Nat} {b : Body} {p q : Nat} {put put' : List Pending}

theorem Disciplined.answered_start (disciplined : b.Disciplined) : b.Answered 0 [] := by
  refine ⟨[], [], [], rfl, .nil, fun i => ⟨fun member => absurd member List.not_mem_nil, ?_⟩, .nil⟩
  rintro ⟨⟨r, here, -, handles⟩, -⟩
  have start := disciplined.entry r (List.mem_of_getElem? here)
  rw [Region.handles_iff] at handles
  omega

/-- Where a finally handler ends, the action put off last is its own, and ranges with finally
    handlers around the position are around its region. -/
theorem Disciplined.resumed (disciplined : b.Disciplined) (answered : b.Answered p put)
    (ends : b.EndsAt p) : ∃ i r a rest, put = a :: rest ∧ b.regions[i]? = some r ∧
      r.kind = .finalizing ∧ r.handles p ∧ a.Of b i ∧ ∀ (j : Nat) (s : Region),
        b.regions[j]? = some s → s.kind = .finalizing → s.protects p →
          r.Within s.tryStart s.tryEnd := by
  have nested := disciplined.toNested
  obtain ⟨running, own, base, rfl, answers⟩ := answered
  obtain ⟨i, innermost, outside⟩ := disciplined.ends p ends
  cases running with
  | nil => exact absurd ((answers.mem i).mpr ⟨innermost.contains, Nat.zero_le _⟩) List.not_mem_nil
  | cons i' running =>
      obtain rfl := answers.innermost.unique nested innermost
      cases own with
      | nil => cases answers.put
      | cons a own =>
          obtain ⟨put_, -⟩ := List.forall₂_cons.mp answers.put
          obtain ⟨r, here, finalizing, handles⟩ := innermost.contains
          refine ⟨i', r, a, own ++ base, rfl, here, finalizing, handles, put_,
            fun j s there finalizing' protects => ?_⟩
          have differ : j ≠ i' := by
            rintro rfl
            obtain rfl := Option.some.inj (here.symm.trans there)
            exact (nested.proper_of here).disjoint protects handles
          exact (Region.within_of_protects_handles (nested.proper_of there) (nested.proper_of here)
            (nested.fits_of_ne there here differ) protects handles).resolve_left
            (outside r here s (List.mem_of_getElem? there) finalizing' protects)

/-- A landing in none of the handlers that control was in. -/
theorem Landing.answered {around : Nat → Prop} (landing : b.Landing around put q put')
    (none : ∀ j, b.FinallyAt q j → ¬ around j) : b.Answered q put' := by
  cases landing with
  | kept only =>
      refine ⟨[], [], put, rfl, .nil, fun j => ⟨fun member => absurd member List.not_mem_nil, ?_⟩,
        .nil⟩
      exact fun ⟨inside, _⟩ => absurd (only j inside) (none j inside)
  | @entered k a fresh inside start put_ only =>
      refine ⟨[k], [a], put, rfl, List.pairwise_singleton _ _, fun j => ⟨fun member => ?_, ?_⟩,
        .cons put_ .nil⟩
      · obtain rfl := List.mem_singleton.mp member
        exact ⟨inside, Nat.zero_le _⟩
      · rintro ⟨lands, -⟩
        exact List.mem_singleton.mpr ((only j lands).resolve_right (none j lands))

/-! ### One move -/

section Move

variable (disciplined : b.Disciplined) (sound : b.Structured symbols argCount)
  (answered : b.Answered p put) {i : Nat} {r : Region} (here : b.regions[i]? = some r)

section Turn

variable (goes : b.Goes p put q put')
include disciplined sound answered here goes

/-- Control leaves the range of a finally handler for this handler, and puts an action off. -/
theorem Answered.enters (finalizing : r.kind = .finalizing) (protects : r.protects p)
    (left : ¬ r.protects q) : r.handlerStart = q ∧
      ∃ a, put' = a :: if b.EndsAt p then put.tail else put := by
  have nested := disciplined.toNested
  cases goes with
  | onward code falls =>
      have stays := disciplined.stays p _ code r (List.mem_of_getElem? here) finalizing protects
      exact absurd (stays.2 falls) left
  | branched code stays target =>
      have same := (sound.same_of_branch code (List.mem_of_getElem? here) stays.1 target).1
      exact absurd (same.symm.trans protects) left
  | begun other begins reaches =>
      rw [if_neg other]
      exact reaches.enters nested here begins.part finalizing protects left List.not_mem_nil
  | resumed ends reaches =>
      obtain ⟨k, first, a, rest, same, entered, -, -, ⟨s, before, part⟩, around⟩ :=
        disciplined.resumed answered ends
      obtain ⟨rfl, rfl⟩ := List.cons.inj same
      rw [if_pos ends]
      exact reaches.enters_putOff nested here entered part finalizing
        (around i r here finalizing protects) left

/-- Control enters a handler at the start, from the range that it belongs to. -/
theorem Answered.starts (outside : ¬ r.handles p) (handles : r.handles q) :
    r.handlerStart = q ∧ r.protects p := by
  have nested := disciplined.toNested
  cases goes with
  | onward code falls =>
      exact absurd (sound.handles_of_falls code (List.mem_of_getElem? here) falls handles) outside
  | branched code stays target =>
      have same := (sound.same_of_branch code (List.mem_of_getElem? here) stays.1 target).2
      exact absurd (same.trans handles) outside
  | begun other begins reaches =>
      obtain ⟨start, ahead⟩ :=
        (reaches.handles_of_handles sound nested here begins.part handles).resolve_left outside
      exact ⟨start, begins.part.protects here ahead⟩
  | resumed ends reaches =>
      obtain ⟨k, first, a, rest, same, entered, firstFinal, inside, ⟨s, before, part⟩, -⟩ :=
        disciplined.resumed answered ends
      obtain ⟨rfl, rfl⟩ := List.cons.inj same
      obtain ⟨start, ahead⟩ := (reaches.handles_of_handles_putOff sound nested here entered part
        inside handles).resolve_left fun around => outside around.1
      exact ⟨start, part.protects_of_handles nested here entered firstFinal inside ahead⟩

end Turn

omit sound in
include disciplined answered here in
/-- A frame does not end inside of the range of a finally handler. -/
theorem Answered.not_protects (quits : b.Quits p put) (finalizing : r.kind = .finalizing) :
    ¬ r.protects p := by
  intro protects
  cases quits with
  | returned code op =>
      have stays := disciplined.stays p _ code r (List.mem_of_getElem? here) finalizing protects
      exact stays.1 op
  | escaped begins raised passed =>
      have listed := begins.complete here finalizing protects fun t target => by
        rw [raised] at target
        cases target
      exact passed i listed r here finalizing
  | resumed ends raised passed =>
      obtain ⟨k, first, a, rest, same, entered, -, -, ⟨s, before, part⟩, around⟩ :=
        disciplined.resumed answered ends
      obtain ⟨rfl, rfl⟩ := List.cons.inj same
      have within := around i r here finalizing protects
      have listed := part.complete here finalizing
        (within.protects (Or.inl (part.protects entered (by simp))))
        (fun t target => by
          rw [raised] at target
          cases target)
        (part.not_passed disciplined.toNested here entered within)
      exact passed i listed r here finalizing

include disciplined sound answered in
/-- Control moves, and no finally handler is abandoned inside of one that goes on: the actions put
    off last still answer to the finally handlers around. -/
theorem Answered.goes (goes : b.Goes p put q put') (orderly : b.Orderly p q) :
    b.Answered q put' := by
  have nested := disciplined.toNested
  by_cases goesOn : ∃ k, b.FinallyAt p k ∧ b.FinallyAt q k
  · obtain ⟨running, own, base, rfl, answers⟩ := answered
    obtain ⟨running', own', same, answers'⟩ := answers.goes sound nested goes
      (fun _ none => by
        obtain ⟨k, inside, -⟩ := goesOn
        subst none
        exact List.not_mem_nil ((answers.mem k).mpr ⟨inside, Nat.zero_le _⟩))
      (fun j member other => by
        by_contra left
        obtain ⟨ends, innermost⟩ := orderly goesOn j ((answers.mem j).mp member).1 left
        exact other ends innermost)
      fun _ _ _ _ => Nat.zero_le _
    exact ⟨running', own', base, same, answers'⟩
  · have none {j : Nat} (lands : b.FinallyAt q j) : ¬ b.FinallyAt p j :=
      fun inside => goesOn ⟨j, inside, lands⟩
    by_cases ends : b.EndsAt p
    · obtain ⟨k, first, a, rest, rfl, entered, finalizing, handles, put_, -⟩ :=
        disciplined.resumed answered ends
      obtain ⟨a', rest', same, reaches⟩ := goes.of_endsAt ends
      obtain ⟨rfl, rfl⟩ := List.cons.inj same
      exact (landing_of_resumed sound nested reaches ⟨first, entered, finalizing, handles⟩
        put_).answered fun j lands around => none lands around.1
    · exact (goes.landing sound nested ends).answered fun j => none

end Move

end Body

/-! ### Runs of a frame -/

namespace Machine

variable {σ : Type} {m : Machine σ} {c₀ c : Config σ} {b : Body}

/-- Where the running frame goes next, control leaves the range of a finally handler only for this
    handler, and enters a handler only at its start and from the range that it belongs to; and the
    frame does not end inside of the range of a finally handler. -/
structure KeepsRegions (m : Machine σ) (c : Config σ) : Prop where
  leaves : ∀ c', m.NextTurn c c' → ∀ i r, c.frame.body.regions[i]? = some r →
    r.kind = .finalizing → r.protects c.frame.pc → ¬ r.protects c'.frame.pc →
      c.frame.Enters i c'.frame
  enters : ∀ c', m.NextTurn c c' → ∀ r ∈ c.frame.body.regions, ¬ r.handles c.frame.pc →
    r.handles c'.frame.pc → c'.frame.pc = r.handlerStart ∧ r.protects c.frame.pc
  ends : m.FrameEnds c → ∀ r ∈ c.frame.body.regions, r.kind = .finalizing →
    ¬ r.protects c.frame.pc

/-- From its start on, what a frame of a disciplined body puts off answers to the finally handlers
    around its position, as long as none is abandoned inside of one that goes on. -/
theorem answered_of_orderly (verifies : m.host.Verifies) (regular : c₀.Regular m.host)
    {args : List Value} (starts : c₀.frame = .enter m.host.symbols b args)
    (disciplined : b.Disciplined)
    (life : Relation.ReflTransGen (fun c c' => m.NextTurn c c' ∧ OrderlyTurn c c') c₀ c) :
    c.Regular m.host ∧ c.frame.body = b ∧ b.Answered c.frame.pc c.frame.pending := by
  induction life with
  | refl =>
      rw [starts]
      exact ⟨regular, rfl, disciplined.answered_start⟩
  | @tail c c' _ turn ih =>
      obtain ⟨regular', same, answered⟩ := ih
      obtain ⟨next, orderly⟩ := turn
      obtain ⟨⟨body, goes⟩, -, regular''⟩ := next.turn regular'
      obtain ⟨argCount, sound⟩ := verifies.structured regular'.1.member
      unfold OrderlyTurn at orderly
      rw [same] at body goes orderly sound
      exact ⟨regular'', body, answered.goes disciplined sound goes orderly⟩

/-- Frames of disciplined bodies keep to their regions at every turn, as long as no finally handler
    is abandoned inside of one that goes on. -/
theorem keepsRegions (verifies : m.host.Verifies) {method : MethodId} {given : List Value}
    {heap : Heap} {world : σ} (visited : m.Visits method given heap world c₀) {args : List Value}
    (starts : c₀.frame = .enter m.host.symbols b args) (disciplined : b.Disciplined)
    (life : Relation.ReflTransGen (fun c c' => m.NextTurn c c' ∧ OrderlyTurn c c') c₀ c) :
    m.KeepsRegions c := by
  obtain ⟨regular, same, answered⟩ :=
    answered_of_orderly verifies visited.regular starts disciplined life
  obtain ⟨argCount, sound⟩ := verifies.structured regular.1.member
  rw [same] at sound
  constructor
  · intro c' next i r here finalizing protects left
    obtain ⟨⟨body, goes⟩, -, -⟩ := next.turn regular
    rw [same] at here goes
    obtain ⟨start, a, put⟩ :=
      answered.enters disciplined sound here goes finalizing protects left
    unfold Frame.Enters Frame.kept
    rw [same]
    refine ⟨⟨r, here, finalizing, ?_⟩, (Body.startOf_eq here).trans start, a, put⟩
    exact start ▸ (disciplined.proper_of here).handles_start
  · intro c' next r member outside handles
    obtain ⟨⟨body, goes⟩, -, -⟩ := next.turn regular
    rw [same] at member goes
    obtain ⟨i, here⟩ := List.mem_iff_getElem?.mp member
    obtain ⟨start, protects⟩ := answered.starts disciplined sound here goes outside handles
    exact ⟨start.symm, protects⟩
  · intro ends r member finalizing
    have quits := ends.quits regular
    unfold Frame.Quits at quits
    rw [same] at member quits
    obtain ⟨i, here⟩ := List.mem_iff_getElem?.mp member
    exact answered.not_protects disciplined here quits finalizing

/-- The inner range of the run with two handlers is left for the inner handler. -/
theorem tidyBody_keepsRegions :
    (ofBody tidyBody).host.Verifies ∧ tidyBody.Disciplined ∧
      ∃ c c', (ofBody tidyBody).KeepsRegions c ∧ (ofBody tidyBody).NextTurn c c' ∧
        c.frame.pc = 2 ∧ c.frame.Enters 1 c'.frame := by
  have verifies : (ofBody tidyBody).host.Verifies := ofBody_verifies 2 rfl
  have stays : ∀ p < 8, ∀ ins ∈ tidyBody.code[p]?, ∀ r ∈ tidyBody.regions,
      r.kind = .finalizing → r.protects p →
        ins.opcode ≠ .ret ∧ (ins.opcode.fallsThrough → r.protects (p + 1)) := by decide
  have ends : ∀ p < 8, tidyBody.EndsAt p → p = 4 ∨ p = 6 := by decide
  have disciplined : tidyBody.Disciplined := by
    refine ⟨⟨by decide, by decide, by decide⟩, by decide, fun p ins here => ?_, fun p ending => ?_⟩
    · exact stays p (List.getElem?_eq_some_iff.mp here).1 ins here
    · have below : p < 8 := by
        obtain ⟨ins, here, -⟩ := ending
        exact (List.getElem?_eq_some_iff.mp here).1
      rcases ends p below ending with rfl | rfl
      · exact ⟨1, by decide, by decide⟩
      · exact ⟨0, by decide, by decide⟩
  have visited : (ofBody tidyBody).Visits ⟨0⟩ [] .empty () (alone tidyBody 0 [] []) :=
    .entered rfl
  have starts : (alone tidyBody 0 [] []).frame =
      .enter (ofBody tidyBody).host.symbols tidyBody [] := rfl
  have turn (pc pc' : Nat) (put put' : List Pending)
      (moved : (ofBody tidyBody).step (alone tidyBody pc [] put) =
        .running (alone tidyBody pc' [] put')) (orderly : tidyBody.Orderly pc pc') :
      (ofBody tidyBody).NextTurn (alone tidyBody pc [] put) (alone tidyBody pc' [] put') ∧
        OrderlyTurn (alone tidyBody pc [] put) (alone tidyBody pc' [] put') :=
    ⟨.of_step moved rfl, orderly⟩
  have life : Relation.ReflTransGen
      (fun c c' => (ofBody tidyBody).NextTurn c c' ∧ OrderlyTurn c c')
      (alone tidyBody 0 [] []) (alone tidyBody 2 [] [.leave 7 []]) :=
    .head (turn 0 1 [] [.leave 7 []] rfl (by decide)) <|
    .single (turn 1 2 [.leave 7 []] [.leave 7 []] rfl (by decide))
  have keeps := keepsRegions verifies visited starts disciplined life
  have next : (ofBody tidyBody).NextTurn (alone tidyBody 2 [] [.leave 7 []])
      (alone tidyBody 3 [] [.leave 5 [], .leave 7 []]) := .of_step rfl rfl
  exact ⟨verifies, disciplined, _, _, keeps, next, rfl,
    keeps.leaves _ next 1 _ rfl rfl (by decide) (by decide)⟩

/-- A `ret` inside of the range of a finally handler. -/
def hastyBody : Body :=
  .ofParts ⟨0⟩ [.plain .ret, .plain .endfinally] [] [⟨.finalizing, 0, 1, 1, 2⟩]

/-- It returns, and the handler does not run. -/
theorem hastyBody_not_keepsRegions :
    (ofBody hastyBody).host.Verifies ∧ hastyBody.Nested ∧
      ∃ c, (ofBody hastyBody).Visits ⟨0⟩ [] .empty () c ∧
        ¬ (ofBody hastyBody).KeepsRegions c := by
  have ends : (ofBody hastyBody).FrameEnds (alone hastyBody 0 [] []) :=
    ⟨_, .here, Or.inr ⟨_, _, _, rfl⟩⟩
  refine ⟨ofBody_verifies 2 rfl, ⟨by decide, by decide, by decide⟩, alone hastyBody 0 [] [],
    .entered rfl, fun keeps => ?_⟩
  exact keeps.ends ends _ (List.mem_cons_self ..) rfl (by decide)

end Machine

end HookSplice
