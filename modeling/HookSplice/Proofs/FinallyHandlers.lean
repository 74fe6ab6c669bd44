import HookSplice.Proofs.FrameTurns
import Mathlib.Logic.Relation

/-!
# The ends of finally handlers

What a frame puts off on entry to a finally handler is meant for the end of that handler.  The frame
keeps it on a stack, and nothing takes it off when a handler is abandoned, by an exception that a
handler around it catches: the next handler that ends takes up what the abandoned one had put off.
If the body is nested and no handler is abandoned inside of one that goes on, every end takes up
what was put off on entry to its own handler.
-/

namespace HookSplice

namespace Frame

/-- What is put off, less what the instruction takes up if it ends a finally handler. -/
def kept (f : Frame) : List Pending :=
  if f.body.EndsAt f.pc then f.pending.tail else f.pending

/-- From the first frame to the second one, control enters the finally handler of a region, and one
    action is put off for the end of it. -/
def Enters (i : Nat) (f g : Frame) : Prop :=
  f.body.FinallyAt g.pc i ∧ f.body.startOf i = g.pc ∧ ∃ a, g.pending = a :: f.kept

end Frame

/-! ### Entering and ending a handler -/

/-- The one action that is put off on the way to a handler is what is left for this handler. -/
theorem Pending.Reaches.of_entered {b : Body} {a a' : Pending} {s q i : Nat} {before : List Nat}
    {put put' : List Pending} (reaches : a.Reaches b put q put') (nested : b.Nested)
    (part : a.Part b s before) (inside : b.FinallyAt q i) (start : b.startOf i = q)
    (added : put' = a' :: put) : a'.Of b i := by
  cases reaches with
  | arrives => exact absurd (congrArg List.length added) (by simp)
  | @handled skipped rest k r order here passed =>
      obtain ⟨r', there, -, -⟩ := inside
      obtain rfl : k = i :=
        nested.index_unique here there (start.symm.trans (Body.startOf_eq there))
      split at added
      · obtain ⟨rfl, -⟩ := List.cons.inj added
        have passed : (a.withRest rest).Part b s (before ++ (skipped ++ [k])) :=
          part.pass (by simp [order])
        exact ⟨s, before ++ skipped, by simpa [List.append_assoc] using passed⟩
      · exact absurd (congrArg List.length added) (by simp)

namespace Body

variable {symbols : SymbolTable} {argCount : Nat} {b : Body} {i p q : Nat}

theorem Goes.of_entered {a : Pending} {put put' : List Pending} (goes : b.Goes p put q put')
    (nested : b.Nested) (begun : ∀ a ∈ put, b.Begun a) (inside : b.FinallyAt q i)
    (start : b.startOf i = q)
    (added : put' = a :: if b.EndsAt p then put.tail else put) : a.Of b i := by
  cases goes with
  | onward here falls =>
      rw [if_neg (not_endsAt_of_falls here falls)] at added
      exact absurd (congrArg List.length added) (by simp)
  | branched here stays target =>
      rw [if_neg (not_endsAt here stays.2)] at added
      exact absurd (congrArg List.length added) (by simp)
  | begun other begins reaches =>
      rw [if_neg other] at added
      exact reaches.of_entered nested begins.part inside start added
  | resumed ends reaches =>
      rw [if_pos ends] at added
      obtain ⟨⟨s, before, part⟩, -⟩ := List.forall_mem_cons.mp begun
      exact reaches.of_entered nested part inside start added

/-- While a finally handler goes on, on top of what it put off there stand the actions of the
    handlers inside of it. -/
theorem Answers.goes_inside {a : Pending} {running : List Nat} {own below put' : List Pending}
    (answers : b.Answers (b.startOf i + 1) p running own) (sound : b.Structured symbols argCount)
    (nested : b.Nested) (goes : b.Goes p (own ++ a :: below) q put') (put_ : a.Of b i)
    (here : b.FinallyAt p i) (there : b.FinallyAt q i) (orderly : b.Orderly p q) :
    ∃ running' own', put' = own' ++ a :: below ∧
      b.Answers (b.startOf i + 1) q running' own' := by
  refine answers.goes sound nested goes (fun ends none => ?_) (fun j member goesOn => ?_)
    fun k inside start out => ?_
  · -- The end of the handler itself would lead out of it.
    subst none
    cases answers.put
    obtain ⟨a', rest, same, reaches⟩ := goes.of_endsAt ends
    obtain ⟨rfl, rfl⟩ := List.cons.inj same
    exact not_finallyAt_of_resumed sound nested reaches here put_ there
  · by_contra left
    obtain ⟨ends, innermost⟩ := orderly ⟨i, here, there⟩ j ((answers.mem j).mp member).1 left
    exact goesOn ends innermost
  · have behind : b.startOf i ≤ b.startOf k := start ▸ there.start_le
    refine Nat.lt_of_le_of_ne behind fun same => out ?_
    exact there.unique nested inside same ▸ here

theorem Answers.entered (start : b.startOf i = p) : b.Answers (b.startOf i + 1) p [] [] := by
  refine ⟨.nil, fun j => ⟨fun member => absurd member List.not_mem_nil, ?_⟩, .nil⟩
  rintro ⟨inside, behind⟩
  have low := inside.start_le
  omega

theorem Answers.own_eq_nil {running : List Nat} {own : List Pending}
    (answers : b.Answers (b.startOf i + 1) p running own) (innermost : b.Innermost p i) :
    own = [] := by
  cases answers with
  | mk order mem put =>
      cases put with
      | nil => rfl
      | @cons j a running own put_ put =>
          obtain ⟨inside, behind⟩ := (mem j).mp (List.mem_cons_self ..)
          exact absurd (innermost.inner j inside) (Nat.not_le_of_lt behind)

end Body

/-! ### Runs of a handler -/

theorem Host.Verifies.structured {host : Host} (verifies : host.Verifies) {b : Body}
    (member : b ∈ host.bodies) : ∃ argCount, b.Structured host.symbols argCount := by
  obtain ⟨limit, map, analyzed⟩ := verifies b member
  obtain ⟨enclosing, -, verified⟩ := StackMap.analyze_eq_ok analyzed
  exact ⟨_, verified.structured⟩

namespace Machine

variable {σ : Type}

/-- The frame has its next turn, in the finally handler of a region. -/
def TurnInside (m : Machine σ) (i : Nat) (c c' : Config σ) : Prop :=
  m.NextTurn c c' ∧ c.frame.body.FinallyAt c'.frame.pc i

/-- No finally handler is abandoned, inside of one that goes on, between the turns. -/
def OrderlyTurn (c c' : Config σ) : Prop :=
  c.frame.body.Orderly c.frame.pc c'.frame.pc

/-- Whenever a finally handler ends, in any frame of any call, what is taken up is what was put off
    when the frame entered this handler last. -/
def EndsTakeOwn (m : Machine σ) : Prop :=
  ∀ method args heap world c₀ c₁ c₂ i, m.Visits method args heap world c₀ → m.NextTurn c₀ c₁ →
    c₀.frame.Enters i c₁.frame → Relation.ReflTransGen (m.TurnInside i) c₁ c₂ →
    c₂.frame.body.EndsAt c₂.frame.pc → c₂.frame.body.Innermost c₂.frame.pc i →
    c₂.frame.pending.head? = c₁.frame.pending.head?

variable {m : Machine σ} {c₀ c₁ c₂ : Config σ} {i : Nat}

/-- In the finally handler of a region, on top of what was put off when it was entered there stand
    the actions of the handlers inside of it, as long as none is abandoned. -/
theorem answers_of_turnsInside (verifies : m.host.Verifies) (regular : c₁.Regular m.host)
    (nested : c₁.frame.body.Nested) {a : Pending} {below : List Pending}
    (put : c₁.frame.pending = a :: below) (put_ : a.Of c₁.frame.body i)
    (inside : c₁.frame.body.FinallyAt c₁.frame.pc i)
    (start : c₁.frame.body.startOf i = c₁.frame.pc)
    (life : Relation.ReflTransGen (fun c c' => m.TurnInside i c c' ∧ OrderlyTurn c c') c₁ c₂) :
    c₂.Regular m.host ∧ c₂.frame.body = c₁.frame.body ∧
      c₁.frame.body.FinallyAt c₂.frame.pc i ∧ ∃ running own,
        c₂.frame.pending = own ++ a :: below ∧
          c₁.frame.body.Answers (c₁.frame.body.startOf i + 1) c₂.frame.pc running own := by
  obtain ⟨argCount, sound⟩ := verifies.structured regular.1.member
  induction life with
  | refl => exact ⟨regular, rfl, inside, [], [], put, .entered start⟩
  | @tail c c' _ turn ih =>
      obtain ⟨regular', same, here, running, own, put', answers⟩ := ih
      obtain ⟨⟨next, there⟩, orderly⟩ := turn
      unfold OrderlyTurn at orderly
      obtain ⟨⟨body, goes⟩, -, regular''⟩ := next.turn regular'
      rw [same] at body goes there orderly
      rw [put'] at goes
      exact ⟨regular'', body, there,
        answers.goes_inside sound nested goes put_ here there orderly⟩

/-- In a nested body, and as long as no handler is abandoned inside of it, a finally handler comes
    back to what was put off when it was entered: its end takes up its own action. -/
theorem pending_of_innermost (verifies : m.host.Verifies) {method : MethodId} {args : List Value}
    {heap : Heap} {world : σ} (visited : m.Visits method args heap world c₀)
    (nested : c₀.frame.body.Nested) (next : m.NextTurn c₀ c₁)
    (enters : c₀.frame.Enters i c₁.frame)
    (life : Relation.ReflTransGen (fun c c' => m.TurnInside i c c' ∧ OrderlyTurn c c') c₁ c₂)
    (innermost : c₂.frame.body.Innermost c₂.frame.pc i) :
    c₂.frame.pending = c₁.frame.pending := by
  obtain ⟨⟨body, goes⟩, -, regular⟩ := next.turn visited.regular
  obtain ⟨inside, start, a, put⟩ := enters
  have put_ : a.Of c₀.frame.body i :=
    goes.of_entered nested visited.regular.1.begun inside start put
  rw [← body] at nested put_ inside start
  obtain ⟨-, same, -, running, own, put', answers⟩ :=
    answers_of_turnsInside verifies regular nested put put_ inside start life
  rw [same] at innermost
  rw [put', answers.own_eq_nil innermost, put, List.nil_append]

/-! ### Two runs -/

/-- A machine for one static method without arguments. -/
def ofBody (b : Body) : Machine Unit :=
  .ofHost {
    symbols := {
      typeNames := ["Main", "int"]
      fields := []
      methods := [⟨⟨⟨0⟩, "run", [], none, true⟩, "Main::run()"⟩] }
    bodies := .single b
    applied := [] }

/-- A frame of such a method, without callers. -/
def alone (b : Body) (pc : Nat) (stack : List Value) (put : List Pending) : Config Unit :=
  ⟨⟨b, [], [], stack, pc, put⟩, [], .empty, ()⟩

theorem ofBody_verifies {b : Body} (n : Nat) {map : StackMap}
    (analyzed : StackMap.analyze (ofBody b).host.symbols b n = .ok map) :
    (ofBody b).host.Verifies := by
  intro b' member
  obtain rfl := List.mem_singleton.mp member
  exact ⟨n, map, analyzed⟩

theorem NextTurn.of_step {c c' : Config σ} (moved : m.step c = .running c')
    (same : c'.callers = c.callers) : m.NextTurn c c' :=
  ⟨c, .here, moved, congrArg List.length same⟩

/-- The second region lies in the handler of the first one. -/
def tidyBody : Body :=
  .ofParts ⟨0⟩
    [.of .leave (.label ⟨0⟩), .plain .nop, .of .leave (.label ⟨1⟩), .plain .nop,
      .plain .endfinally, ⟨.nop, .none, [⟨1⟩]⟩, .plain .endfinally, ⟨.ret, .none, [⟨0⟩]⟩]
    [] [⟨.finalizing, 0, 1, 1, 7⟩, ⟨.finalizing, 2, 3, 3, 5⟩]

/-- The inner handler runs and ends, and what is put off then is the `leave` of the outer one. -/
theorem tidyBody_pending :
    (ofBody tidyBody).host.Verifies ∧
      (ofBody tidyBody).Visits ⟨0⟩ [] .empty () (alone tidyBody 0 [] []) ∧ tidyBody.Nested ∧
      (ofBody tidyBody).NextTurn (alone tidyBody 0 [] []) (alone tidyBody 1 [] [.leave 7 []]) ∧
      (alone tidyBody 0 [] []).frame.Enters 0 (alone tidyBody 1 [] [.leave 7 []]).frame ∧
      ∃ c, Relation.ReflTransGen
          (fun c c' => (ofBody tidyBody).TurnInside 0 c c' ∧ OrderlyTurn c c')
          (alone tidyBody 1 [] [.leave 7 []]) c ∧
        c.frame.pc = 6 ∧ tidyBody.EndsAt 6 ∧ tidyBody.Innermost 6 0 ∧
        c.frame.pending = [.leave 7 []] := by
  have verifies : (ofBody tidyBody).host.Verifies := ofBody_verifies 2 rfl
  have visited : (ofBody tidyBody).Visits ⟨0⟩ [] .empty () (alone tidyBody 0 [] []) :=
    .entered rfl
  have nested : tidyBody.Nested := ⟨by decide, by decide, by decide⟩
  have next : (ofBody tidyBody).NextTurn (alone tidyBody 0 [] [])
      (alone tidyBody 1 [] [.leave 7 []]) := .of_step rfl rfl
  have enters : (alone tidyBody 0 [] []).frame.Enters 0
      (alone tidyBody 1 [] [.leave 7 []]).frame := ⟨by decide, rfl, .leave 7 [], rfl⟩
  have turn (pc pc' : Nat) (put put' : List Pending)
      (moved : (ofBody tidyBody).step (alone tidyBody pc [] put) =
        .running (alone tidyBody pc' [] put'))
      (inside : tidyBody.FinallyAt pc' 0) (orderly : tidyBody.Orderly pc pc') :
      (ofBody tidyBody).TurnInside 0 (alone tidyBody pc [] put) (alone tidyBody pc' [] put') ∧
        OrderlyTurn (alone tidyBody pc [] put) (alone tidyBody pc' [] put') :=
    ⟨⟨.of_step moved rfl, inside⟩, orderly⟩
  have life : Relation.ReflTransGen
      (fun c c' => (ofBody tidyBody).TurnInside 0 c c' ∧ OrderlyTurn c c')
      (alone tidyBody 1 [] [.leave 7 []]) (alone tidyBody 6 [] [.leave 7 []]) :=
    .head (turn 1 2 [.leave 7 []] [.leave 7 []] rfl (by decide) (by decide)) <|
    .head (turn 2 3 [.leave 7 []] [.leave 5 [], .leave 7 []] rfl (by decide) (by decide)) <|
    .head (turn 3 4 [.leave 5 [], .leave 7 []] [.leave 5 [], .leave 7 []] rfl (by decide)
      (by decide)) <|
    .head (turn 4 5 [.leave 5 [], .leave 7 []] [.leave 7 []] rfl (by decide) (by decide)) <|
    .single (turn 5 6 [.leave 7 []] [.leave 7 []] rfl (by decide) (by decide))
  have innermost : tidyBody.Innermost 6 0 := by decide
  exact ⟨verifies, visited, nested, next, enters, _, life, rfl, by decide, innermost,
    pending_of_innermost verifies visited nested next enters life innermost⟩

/-- As before, but an exception in the inner handler is caught in the outer one. -/
def crossedBody : Body :=
  .ofParts ⟨0⟩
    [.of .leave (.label ⟨2⟩), .of .leave (.label ⟨0⟩), .of .ldc (.int 7), .plain .throw,
      ⟨.leave, .label ⟨1⟩, [⟨0⟩]⟩, .plain .pop, .of .leave (.label ⟨1⟩),
      ⟨.endfinally, .none, [⟨1⟩]⟩, ⟨.ret, .none, [⟨2⟩]⟩]
    [] [⟨.finalizing, 0, 1, 1, 8⟩, ⟨.finalizing, 1, 2, 2, 4⟩, ⟨.catching ⟨1⟩, 1, 5, 5, 7⟩]

/-- The outer handler ends and takes up what the inner one had put off. -/
theorem crossedBody_not_endsTakeOwn :
    (ofBody crossedBody).host.Verifies ∧ crossedBody.Nested ∧
      ¬ (ofBody crossedBody).EndsTakeOwn := by
  refine ⟨ofBody_verifies 2 rfl, ⟨by decide, by decide, by decide⟩, fun takeOwn => ?_⟩
  have turn (pc pc' : Nat) (stack stack' : List Value) (put put' : List Pending)
      (moved : (ofBody crossedBody).step (alone crossedBody pc stack put) =
        .running (alone crossedBody pc' stack' put'))
      (inside : crossedBody.FinallyAt pc' 0) :
      (ofBody crossedBody).TurnInside 0 (alone crossedBody pc stack put)
        (alone crossedBody pc' stack' put') :=
    ⟨.of_step moved rfl, inside⟩
  have life : Relation.ReflTransGen ((ofBody crossedBody).TurnInside 0)
      (alone crossedBody 1 [] [.leave 8 []])
      (alone crossedBody 7 [] [.leave 4 [], .leave 8 []]) :=
    .head (turn 1 2 [] [] [.leave 8 []] [.leave 4 [], .leave 8 []] rfl (by decide)) <|
    .head (turn 2 3 [] [.int 7] [.leave 4 [], .leave 8 []] [.leave 4 [], .leave 8 []] rfl
      (by decide)) <|
    .head (turn 3 5 [.int 7] [.int 7] [.leave 4 [], .leave 8 []] [.leave 4 [], .leave 8 []] rfl
      (by decide)) <|
    .head (turn 5 6 [.int 7] [] [.leave 4 [], .leave 8 []] [.leave 4 [], .leave 8 []] rfl
      (by decide)) <|
    .single (turn 6 7 [] [] [.leave 4 [], .leave 8 []] [.leave 4 [], .leave 8 []] rfl (by decide))
  have taken := takeOwn ⟨0⟩ [] .empty () (alone crossedBody 0 [] []) _ _ 0 (.entered rfl)
    (.of_step rfl rfl) ⟨by decide, rfl, .leave 8 [], rfl⟩ life (by decide) (by decide)
  exact absurd taken (by decide)

end Machine

end HookSplice
