import HookSplice.Proofs.FrameTurns
import HookSplice.Proofs.ObjectTypes
import Mathlib.Logic.Relation

/-!
# Runs of finally handlers

A finally handler is run from its entry to the first `endfinally` that finds the frame with nothing
more put off than on entry.  In between, the handler may call methods, and begin and end handlers of
its own.  There is at most one such end, and the frame goes on from it with what it put off on
entry: it leaves through the regions that were left, or offers the exception to them.
-/

namespace HookSplice

variable {σ : Type}

/-- The second configuration is at the end of the finally handler that the frame has entered in the
    first one: at an `endfinally`, with the same put off as on entry. -/
def Config.EndsFinally (e x : Config σ) : Prop :=
  x.frame.body.EndsAt x.frame.pc ∧ x.frame.pending = e.frame.pending

namespace Machine

variable {m : Machine σ} {c e x : Config σ} {v : Value}

/-! ### From the entry to the end -/

/-- From its entry on, the finally handler runs to its end. -/
def Finishes (m : Machine σ) (e x : Config σ) : Prop :=
  Relation.ReflTransGen (fun y z => ¬ e.EndsFinally y ∧ m.NextTurn y z) e x ∧ e.EndsFinally x

/-- A handler that comes to its end comes to it for the first time. -/
theorem exists_finishes (runs : Relation.ReflTransGen m.NextTurn e x) (ends : e.EndsFinally x) :
    ∃ x, m.Finishes e x := by
  have first : (∃ y, m.Finishes e y) ∨
      Relation.ReflTransGen (fun y z => ¬ e.EndsFinally y ∧ m.NextTurn y z) e x := by
    clear ends
    induction runs with
    | refl => exact Or.inr .refl
    | @tail y z _ next ih =>
        rcases ih with before | so
        · exact Or.inl before
        · by_cases ended : e.EndsFinally y
          · exact Or.inl ⟨y, so, ended⟩
          · exact Or.inr (so.tail ⟨ended, next⟩)
  rcases first with before | so
  · exact before
  · exact ⟨x, so, ends⟩

theorem Finishes.turns (finishes : m.Finishes e x) : Relation.ReflTransGen m.NextTurn e x :=
  Relation.ReflTransGen.mono (fun _ _ next => next.2) e x finishes.1

/-- The frame stays what it is while a handler runs. -/
theorem Finishes.frame (finishes : m.Finishes e x) (regular : e.Regular m.host) :
    x.frame.body = e.frame.body ∧ x.callers = e.callers ∧ x.Regular m.host := by
  have turns := finishes.turns
  clear finishes
  induction turns with
  | refl => exact ⟨rfl, rfl, regular⟩
  | tail _ next ih =>
      obtain ⟨body, callers, regular⟩ := ih
      obtain ⟨turn, callers', regular'⟩ := next.turn regular
      exact ⟨turn.1.trans body, callers'.trans callers, regular'⟩

theorem Finishes.keepsTypes (natives : m.NativesKeepTypes) (finishes : m.Finishes e x) :
    e.heap.KeepsTypes x.heap := by
  have turns := finishes.turns
  clear finishes
  induction turns with
  | refl => exact .refl e.heap
  | tail _ next ih => exact ih.trans (next.keepsTypes natives)

/-- From one start there is one end, if there is one way on from everywhere else. -/
theorem eq_of_rightUnique {α : Type} {next : α → α → Prop} (unique : Relator.RightUnique next)
    {a y z : α} (toY : Relation.ReflTransGen next a y) (toZ : Relation.ReflTransGen next a z)
    (endsY : ∀ w, ¬ next y w) (endsZ : ∀ w, ¬ next z w) : y = z := by
  rcases Relation.ReflTransGen.total_of_right_unique unique toY toZ with further | further
  · rcases Relation.ReflTransGen.cases_head further with same | ⟨w, on, -⟩
    · exact same
    · exact absurd on (endsY w)
  · rcases Relation.ReflTransGen.cases_head further with same | ⟨w, on, -⟩
    · exact same.symm
    · exact absurd on (endsZ w)

/-- A frame has one next turn. -/
theorem NextTurn.unique {c₁ c₂ : Config σ} (next : m.NextTurn c c₁) (next' : m.NextTurn c c₂) :
    c₁ = c₂ := by
  have stepped {e : Config σ} (during : m.During c e) : Relation.ReflTransGen (fun y z =>
      m.step y = .running z ∧ c.callers.length < z.callers.length) c e := by
    induction during with
    | here => exact .refl
    | deeper _ moved above ih => exact ih.tail ⟨moved, above⟩
  have last {e c' : Config σ} (moved : m.step e = .running c')
      (depth : c'.callers.length = c.callers.length) (z : Config σ) :
      ¬ (m.step e = .running z ∧ c.callers.length < z.callers.length) := by
    rintro ⟨moved', above⟩
    obtain rfl := Progress.running.inj (moved.symm.trans moved')
    omega
  obtain ⟨e₁, during, moved, depth⟩ := next
  obtain ⟨e₂, during', moved', depth'⟩ := next'
  obtain rfl : e₁ = e₂ := by
    refine eq_of_rightUnique ?_ (stepped during) (stepped during') (last moved depth)
      (last moved' depth')
    rintro y z w ⟨first, -⟩ ⟨second, -⟩
    exact Progress.running.inj (first.symm.trans second)
  exact Progress.running.inj (moved.symm.trans moved')

theorem Finishes.unique {x₁ x₂ : Config σ} (finishes : m.Finishes e x₁)
    (finishes' : m.Finishes e x₂) : x₁ = x₂ := by
  obtain ⟨runs, ends⟩ := finishes
  obtain ⟨runs', ends'⟩ := finishes'
  refine eq_of_rightUnique ?_ runs runs' (fun _ on => on.1 ends) (fun _ on => on.1 ends')
  rintro y z w ⟨-, first⟩ ⟨-, second⟩
  exact first.unique second

/-! ### Taking up an action -/

/-- Offers an exception to regions of a frame, and to its callers if they let it pass. -/
def offer (m : Machine σ) (f : Frame) (v : Value) (order : List Nat) (callers : List Caller)
    (heap : Heap) (world : σ) : Progress σ :=
  match Frame.throwThrough? m.host.symbols heap f v order with
  | some g => .running ⟨g, callers, heap, world⟩
  | none => m.throwTo v callers heap world

/-- A finally handler that was entered by a `leave` goes on leaving at its end. -/
theorem Finishes.leaves {target : Nat} {rest : List Nat} {put : List Pending}
    (finishes : m.Finishes e x) (regular : e.Regular m.host)
    (entry : e.frame.pending = .leave target rest :: put) : ∃ g : Frame,
      g.body = e.frame.body ∧ g.pending = put ∧
        m.step x = .running ⟨g.continueLeave target rest, e.callers, x.heap, x.world⟩ := by
  obtain ⟨body, callers, -⟩ := finishes.frame regular
  obtain ⟨⟨ins, here, op⟩, pending⟩ := finishes.2
  refine ⟨{ x.frame with pc := x.frame.pc + 1, pending := put }, body, rfl, ?_⟩
  unfold step
  simp only [here, Action.ofInstruction, op, Action.endFinally, pending, entry, follow, callers]

/-- A finally handler that was entered by an exception goes on offering it. -/
theorem Finishes.offers {rest : List Nat} {put : List Pending} (finishes : m.Finishes e x)
    (regular : e.Regular m.host) (entry : e.frame.pending = .throw v rest :: put) : ∃ g : Frame,
      g.body = e.frame.body ∧ g.pending = put ∧
        m.step x = m.offer g v rest e.callers x.heap x.world := by
  obtain ⟨body, callers, -⟩ := finishes.frame regular
  obtain ⟨⟨ins, here, op⟩, pending⟩ := finishes.2
  refine ⟨{ x.frame with pc := x.frame.pc + 1, pending := put }, body, rfl, ?_⟩
  unfold step offer
  simp only [here, Action.ofInstruction, op, Action.endFinally, pending, entry, callers]
  generalize Frame.throwThrough? m.host.symbols x.heap _ v rest = taken
  cases taken with
  | none => rfl
  | some g => rfl

theorem Finishes.regular (finishes : m.Finishes e x) (regular : e.Regular m.host)
    (moved : m.step x = .running c) : c.Regular m.host := by
  have regular' := (finishes.frame regular).2.2
  exact (step_stepped regular' moved).regular regular'

end Machine

end HookSplice
