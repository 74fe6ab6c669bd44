import HookSplice.Proofs.PendingActions

/-!
# Running finally handlers

Control moves from position to position of a body, and actions are put off and taken up again on
the way.  As long as no finally handler is abandoned inside of one that goes on, the actions put off
answer one by one to the finally handlers around the position, innermost first: `Answers.goes`.
-/

namespace HookSplice

namespace Body

/-- A region has a finally handler that contains a position. -/
def FinallyAt (b : Body) (p i : Nat) : Prop :=
  ∃ r, b.regions[i]? = some r ∧ r.kind = .finalizing ∧ r.handles p

/-- Where the handler of a region starts. -/
def startOf (b : Body) (i : Nat) : Nat :=
  (b.regions[i]?.map Region.handlerStart).getD 0

/-- The instruction at a position ends a finally handler. -/
def EndsAt (b : Body) (p : Nat) : Prop :=
  ∃ ins, b.code[p]? = some ins ∧ ins.opcode = .endfinally

/-- No other finally handler around a position starts behind that of a region. -/
structure Innermost (b : Body) (p i : Nat) : Prop where
  contains : b.FinallyAt p i
  inner : ∀ j, b.FinallyAt p j → b.startOf j ≤ b.startOf i

/-- How control moves between positions, and what is put off before and after. -/
inductive Goes (b : Body) : Nat → List Pending → Nat → List Pending → Prop
  | onward {p : Nat} {ins : Instruction} {put : List Pending} (here : b.code[p]? = some ins)
      (falls : ins.opcode.fallsThrough) : Goes b p put (p + 1) put
  | branched {p t : Nat} {ins : Instruction} {put : List Pending} (here : b.code[p]? = some ins)
      (stays : ins.opcode ≠ .leave ∧ ins.opcode ≠ .endfinally)
      (target : b.targetOf? ins = some t) : Goes b p put t put
  | begun {p q : Nat} {a : Pending} {put put' : List Pending} (other : ¬ b.EndsAt p)
      (begins : b.Begins p a) (reaches : a.Reaches b put q put') : Goes b p put q put'
  | resumed {p q : Nat} {a : Pending} {put put' : List Pending} (ends : b.EndsAt p)
      (reaches : a.Reaches b put q put') : Goes b p (a :: put) q put'

/-- No finally handler is abandoned inside of one that goes on: where control moves on in some
    finally handler, it leaves none but the innermost one, and that by the end of it. -/
def Orderly (b : Body) (p q : Nat) : Prop :=
  (∃ k, b.FinallyAt p k ∧ b.FinallyAt q k) →
    ∀ i, b.FinallyAt p i → ¬ b.FinallyAt q i → b.EndsAt p ∧ b.Innermost p i

instance (b : Body) (p i : Nat) : Decidable (b.FinallyAt p i) :=
  decidable_of_iff ((b.regions[i]?).any fun r => r.kind == .finalizing && r.handles p)
    (by simp [FinallyAt, Option.any_eq_true])

instance (b : Body) (p : Nat) : Decidable (b.EndsAt p) :=
  decidable_of_iff ((b.code[p]?).any fun ins => ins.opcode == .endfinally)
    (by simp [EndsAt, Option.any_eq_true])

theorem FinallyAt.lt {b : Body} {p i : Nat} (inside : b.FinallyAt p i) : i < b.regions.length := by
  obtain ⟨r, here, -⟩ := inside
  exact (List.getElem?_eq_some_iff.mp here).1

instance (b : Body) (p i : Nat) : Decidable (b.Innermost p i) :=
  decidable_of_iff (b.FinallyAt p i ∧
      ∀ j < b.regions.length, b.FinallyAt p j → b.startOf j ≤ b.startOf i)
    ⟨fun ⟨contains, inner⟩ => ⟨contains, fun j inside => inner j inside.lt inside⟩,
      fun ⟨contains, inner⟩ => ⟨contains, fun j _ inside => inner j inside⟩⟩

instance (b : Body) (p q : Nat) : Decidable (b.Orderly p q) :=
  decidable_of_iff ((∃ k < b.regions.length, b.FinallyAt p k ∧ b.FinallyAt q k) →
      ∀ i < b.regions.length, b.FinallyAt p i → ¬ b.FinallyAt q i → b.EndsAt p ∧ b.Innermost p i)
    ⟨fun orderly ⟨k, here, there⟩ i inside => orderly ⟨k, here.lt, here, there⟩ i inside.lt inside,
      fun orderly ⟨k, _, here, there⟩ i _ => orderly ⟨k, here, there⟩ i⟩

/-- Actions put off answer to the finally handlers that contain a position and start at `least` or
    behind, innermost first. -/
structure Answers (b : Body) (least p : Nat) (running : List Nat) (own : List Pending) : Prop where
  order : running.Pairwise fun i j => b.startOf j < b.startOf i
  mem : ∀ i, i ∈ running ↔ b.FinallyAt p i ∧ least ≤ b.startOf i
  put : List.Forall₂ (Pending.Of b) running own

variable {b : Body} {i j p q : Nat}

theorem startOf_eq {r : Region} (here : b.regions[i]? = some r) :
    b.startOf i = r.handlerStart := by
  rw [startOf, here]
  rfl

theorem FinallyAt.start_le (inside : b.FinallyAt p i) : b.startOf i ≤ p := by
  obtain ⟨r, here, -, handles⟩ := inside
  rw [startOf_eq here]
  exact (Region.handles_iff.mp handles).1

theorem FinallyAt.unique (nested : b.Nested) (inside : b.FinallyAt p i) (inside' : b.FinallyAt q j)
    (start : b.startOf i = b.startOf j) : i = j := by
  obtain ⟨r, here, -, -⟩ := inside
  obtain ⟨s, there, -, -⟩ := inside'
  rw [startOf_eq here, startOf_eq there] at start
  exact nested.index_unique here there start

theorem Innermost.unique (nested : b.Nested) (first : b.Innermost p i)
    (second : b.Innermost p j) : i = j :=
  first.contains.unique nested second.contains
    (Nat.le_antisymm (second.inner i first.contains) (first.inner j second.contains))

/-- The first of the running handlers is the innermost one. -/
theorem Answers.innermost {least : Nat} {running : List Nat} {own : List Pending}
    (answers : b.Answers least p (i :: running) own) : b.Innermost p i := by
  obtain ⟨contains, above⟩ := (answers.mem i).mp (List.mem_cons_self ..)
  refine ⟨contains, fun j inside => ?_⟩
  by_cases low : b.startOf j < least
  · omega
  · rcases List.mem_cons.mp ((answers.mem j).mpr ⟨inside, Nat.le_of_not_lt low⟩) with rfl | later
    · exact Nat.le_refl _
    · exact Nat.le_of_lt ((List.pairwise_cons.mp answers.order).1 j later)

theorem not_endsAt {ins : Instruction} (here : b.code[p]? = some ins)
    (other : ins.opcode ≠ .endfinally) : ¬ b.EndsAt p := by
  rintro ⟨ins', there, ends⟩
  obtain rfl := Option.some.inj (here.symm.trans there)
  exact other ends

theorem not_endsAt_of_falls {ins : Instruction} (here : b.code[p]? = some ins)
    (falls : ins.opcode.fallsThrough) : ¬ b.EndsAt p := by
  refine not_endsAt here fun ends => ?_
  rw [ends] at falls
  cases falls

/-! ### Moves -/

/-- Where control lands: in finally handlers among `around`, or also in the handler of one more
    region, which it enters putting an action off. -/
inductive Landing (b : Body) (around : Nat → Prop) (put : List Pending) (q : Nat) :
    List Pending → Prop
  | kept (only : ∀ j, b.FinallyAt q j → around j) : Landing b around put q put
  | entered {k : Nat} {a : Pending} (fresh : ¬ around k) (inside : b.FinallyAt q k)
      (start : b.startOf k = q) (put_ : a.Of b k) (only : ∀ j, b.FinallyAt q j → j = k ∨ around j) :
      Landing b around put q (a :: put)

section Moves

variable {symbols : SymbolTable} {argCount : Nat} (sound : b.Structured symbols argCount)
  (nested : b.Nested) {put put' : List Pending}

/-- Where an action leads, if the handlers around its next position are known. -/
theorem landing_of_reaches {a : Pending} {s : Nat} {before : List Nat} {around : Nat → Prop}
    (nested : b.Nested) (part : a.Part b s before) (reaches : a.Reaches b put q put')
    (only : ∀ j r, b.regions[j]? = some r → r.kind = .finalizing → r.handles q →
      around j ∨ (r.handlerStart = q ∧ j ∈ a.rest))
    (fresh : ∀ j ∈ a.rest, ¬ around j) : b.Landing around put q put' := by
  cases reaches with
  | arrives target done =>
      refine .kept ?_
      rintro j ⟨r, here, finalizing, handles⟩
      have cases := only j r here finalizing handles
      rw [done] at cases
      exact cases.resolve_right fun ahead => List.not_mem_nil ahead.2
  | @handled skipped rest k r order here passed =>
      have inside : k ∈ a.rest := by simp [order]
      have around_or {j : Nat} (contains : b.FinallyAt r.handlerStart j) : j = k ∨ around j := by
        obtain ⟨r', there, finalizing, handles⟩ := contains
        rcases only j r' there finalizing handles with among | ⟨start, -⟩
        · exact Or.inr among
        · exact Or.inl (nested.index_unique there here start)
      split
      · next finalizing =>
          refine .entered (fresh k inside)
            ⟨r, here, finalizing, (nested.proper_of here).handles_start⟩ (startOf_eq here) ?_
            fun j => around_or
          have passed : (a.withRest rest).Part b s (before ++ (skipped ++ [k])) :=
            part.pass (by simp [order])
          exact ⟨s, before ++ skipped, by simpa [List.append_assoc] using passed⟩
      · next catching =>
          refine .kept fun j contains => (around_or contains).resolve_left ?_
          rintro rfl
          obtain ⟨r', there, finalizing, -⟩ := contains
          obtain rfl := Option.some.inj (here.symm.trans there)
          exact catching finalizing

include sound nested

/-- A move other than by the end of a finally handler. -/
theorem Goes.landing (goes : b.Goes p put q put') (other : ¬ b.EndsAt p) :
    b.Landing (b.FinallyAt p) put q put' := by
  cases goes with
  | onward here falls =>
      refine .kept ?_
      rintro j ⟨r, region, finalizing, handles⟩
      exact ⟨r, region, finalizing,
        sound.handles_of_falls here (List.mem_of_getElem? region) falls handles⟩
  | branched here stays target =>
      refine .kept ?_
      rintro j ⟨r, region, finalizing, handles⟩
      have same := (sound.same_of_branch here (List.mem_of_getElem? region) stays.1 target).2
      exact ⟨r, region, finalizing, same.trans handles⟩
  | begun _ begins reaches =>
      refine landing_of_reaches nested begins.part reaches (fun j r here finalizing handles => ?_)
        fun j ahead => ?_
      · exact (reaches.handles_of_handles sound nested here begins.part handles).imp_left
          fun inside => ⟨r, here, finalizing, inside⟩
      · rintro ⟨r, here, -, inside⟩
        exact (nested.proper_of here).disjoint (begins.part.protects here ahead) inside
  | resumed ends => exact absurd ends other

/-- A move by the end of a finally handler, if it takes up what was put off on entry to a handler
    around the position. -/
theorem landing_of_resumed {a : Pending} (reaches : a.Reaches b put q put')
    (inside : b.FinallyAt p i) (put_ : a.Of b i) :
    b.Landing (fun j => b.FinallyAt p j ∧ j ≠ i) put q put' := by
  obtain ⟨s, before, part⟩ := put_
  obtain ⟨first, entered, firstFinal, handles⟩ := inside
  refine landing_of_reaches nested part reaches (fun j r here finalizing lands => ?_)
    fun j ahead => ?_
  · exact (reaches.handles_of_handles_putOff sound nested here entered part handles lands).imp_left
      fun around => ⟨⟨r, here, finalizing, around.1⟩, around.2⟩
  · rintro ⟨⟨r, here, -, around⟩, -⟩
    exact (nested.proper_of here).disjoint
      (part.protects_of_handles nested here entered firstFinal handles ahead) around

/-- What a handler put off leads out of this handler. -/
theorem not_finallyAt_of_resumed {a : Pending} (reaches : a.Reaches b put q put')
    (inside : b.FinallyAt p i) (put_ : a.Of b i) : ¬ b.FinallyAt q i := by
  obtain ⟨s, before, part⟩ := put_
  obtain ⟨r, here, -, handles⟩ := inside
  rintro ⟨r', there, -, lands⟩
  obtain rfl := Option.some.inj (here.symm.trans there)
  rcases reaches.handles_of_handles_putOff sound nested here here part handles lands with
    ⟨-, other⟩ | ⟨-, ahead⟩
  · exact other rfl
  · exact (part.span_le here here ahead).1 rfl

end Moves

/-- The end of a finally handler takes up what was put off last. -/
theorem Goes.of_endsAt {put put' : List Pending} (goes : b.Goes p put q put') (ends : b.EndsAt p) :
    ∃ a rest, put = a :: rest ∧ a.Reaches b rest q put' := by
  cases goes with
  | onward here falls => exact absurd ends (not_endsAt_of_falls here falls)
  | branched here stays target => exact absurd ends (not_endsAt here stays.2)
  | begun other begins reaches => exact absurd ends other
  | resumed ends reaches => exact ⟨_, _, rfl, reaches⟩

/-- The actions of the handlers that go on, and the one that the landing puts off, answer to the
    handlers around the next position. -/
theorem Landing.answers {around : Nat → Prop} {least : Nat} {running : List Nat}
    {own base put' : List Pending} (nested : b.Nested)
    (landing : b.Landing around (own ++ base) q put')
    (order : running.Pairwise fun i j => b.startOf j < b.startOf i)
    (mem : ∀ i, i ∈ running ↔ around i ∧ least ≤ b.startOf i)
    (put : List.Forall₂ (Pending.Of b) running own) (goesOn : ∀ i ∈ running, b.FinallyAt q i)
    (above : ∀ k, b.FinallyAt q k → b.startOf k = q → ¬ around k → least ≤ b.startOf k) :
    ∃ running' own', put' = own' ++ base ∧ b.Answers least q running' own' := by
  cases landing with
  | kept only =>
      refine ⟨running, own, rfl, order, fun i => ⟨fun member => ?_, ?_⟩, put⟩
      · exact ⟨goesOn i member, ((mem i).mp member).2⟩
      · rintro ⟨inside, low⟩
        exact (mem i).mpr ⟨only i inside, low⟩
  | @entered k a fresh inside start put_ only =>
      refine ⟨k :: running, a :: own, rfl, ?_, fun i => ⟨fun member => ?_, ?_⟩, .cons put_ put⟩
      · refine List.pairwise_cons.mpr ⟨fun i member => ?_, order⟩
        have goes := goesOn i member
        refine Nat.lt_of_le_of_ne (start ▸ goes.start_le) fun same => fresh ?_
        exact goes.unique nested inside same ▸ ((mem i).mp member).1
      · rcases List.mem_cons.mp member with rfl | member
        · exact ⟨inside, above _ inside start fresh⟩
        · exact ⟨goesOn i member, ((mem i).mp member).2⟩
      · rintro ⟨contains, low⟩
        rcases only i contains with rfl | among
        · exact List.mem_cons_self ..
        · exact .tail _ ((mem i).mpr ⟨among, low⟩)

/-- Actions go on to answer to the finally handlers around the position, while control moves.  A
    handler that ends is the innermost one, and the others go on; a handler that is entered starts
    behind `least`. -/
theorem Answers.goes {symbols : SymbolTable} {argCount least : Nat} {running : List Nat}
    {own base put' : List Pending} (answers : b.Answers least p running own)
    (sound : b.Structured symbols argCount) (nested : b.Nested)
    (goes : b.Goes p (own ++ base) q put') (ends : b.EndsAt p → running ≠ [])
    (goesOn : ∀ i ∈ running, (b.EndsAt p → ¬ b.Innermost p i) → b.FinallyAt q i)
    (above : ∀ k, b.FinallyAt q k → b.startOf k = q → ¬ b.FinallyAt p k → least ≤ b.startOf k) :
    ∃ running' own', put' = own' ++ base ∧ b.Answers least q running' own' := by
  by_cases at_ : b.EndsAt p
  · cases running with
    | nil => exact absurd rfl (ends at_)
    | cons i rest =>
        have innermost := answers.innermost
        obtain ⟨order, mem, put⟩ := answers
        obtain ⟨first, order⟩ := List.pairwise_cons.mp order
        cases put with
        | cons put_ put =>
            obtain ⟨a, below, same, reaches⟩ := goes.of_endsAt at_
            cases same
            have differ {j : Nat} (member : j ∈ rest) : j ≠ i := by
              rintro rfl
              exact Nat.lt_irrefl _ (first j member)
            have landing := landing_of_resumed sound nested reaches innermost.contains put_
            refine landing.answers nested order (fun j => ⟨fun member => ?_, ?_⟩) put
              (fun j member => ?_) fun k inside start out => ?_
            · obtain ⟨inside, low⟩ := (mem j).mp (.tail _ member)
              exact ⟨⟨inside, differ member⟩, low⟩
            · rintro ⟨⟨inside, other⟩, low⟩
              exact (List.mem_cons.mp ((mem j).mpr ⟨inside, low⟩)).resolve_left other
            · refine goesOn j (.tail _ member) fun _ inner => differ member ?_
              exact inner.unique nested innermost
            · by_cases around : b.FinallyAt p k
              · obtain rfl : k = i := Decidable.not_not.mp fun other => out ⟨around, other⟩
                exact ((mem k).mp (List.mem_cons_self ..)).2
              · exact above k inside start around
  · exact (goes.landing sound nested at_).answers nested answers.order answers.mem answers.put
      (fun i member => goesOn i member fun ends => absurd ends at_) above

end Body

end HookSplice
