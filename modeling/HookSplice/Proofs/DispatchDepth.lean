import HookSplice.Event.Bus

/-!
# Dispatches that come back

A dispatch is followed down to a depth of nesting.  What has come back within one depth comes back
within every greater one, and is the same there; so the depth decides only how many of the runs that
come back are seen.  A dispatch comes back when each of its handlers does, and a handler that
dispatches nothing always does.
-/

namespace HookSplice.Event

variable {ρ : Type} {nested wider : Dispatcher ρ}

/-! ### Deliveries that come back -/

/-- Delivering to one more subscriber. -/
theorem deliverFrom_cons {position : Nat} {x : Subscriber ρ} {rest : List (Subscriber ρ)}
    {p : Payload} {s : BusState ρ} {result : List Failure × Payload × BusState ρ} :
    deliverFrom nested position (x :: rest) p s = some result ↔
      ∃ ending p' s' failures, x.handler.run nested p s = some (ending, p', s') ∧
        deliverFrom nested (position + 1) rest p' s' = some (failures, result.2) ∧
        result.1 = (ending.reason?.map fun reason => ⟨x.id, position, reason⟩).toList ++
          failures := by
  constructor
  · intro delivered
    obtain ⟨⟨ending, p', s'⟩, first, delivered⟩ := Option.bind_eq_some_iff.mp delivered
    obtain ⟨⟨failures, p'', s''⟩, others, delivered⟩ := Option.bind_eq_some_iff.mp delivered
    refine ⟨ending, p', s', failures, first, ?_⟩
    cases reason : ending.reason? with
    | none =>
        simp only [reason] at delivered
        cases delivered
        exact ⟨others, rfl⟩
    | some text =>
        simp only [reason] at delivered
        cases delivered
        exact ⟨others, rfl⟩
  · rintro ⟨ending, p', s', failures, first, others, same⟩
    obtain ⟨result, p'', s''⟩ := result
    refine Option.bind_eq_some_iff.mpr ⟨_, first, Option.bind_eq_some_iff.mpr ⟨_, others, ?_⟩⟩
    subst same
    cases reason : ending.reason? <;> rfl

theorem deliverFrom_of_none {position : Nat} {x : Subscriber ρ} {p : Payload} {s : BusState ρ}
    (lost : x.handler.run nested p s = none) (rest : List (Subscriber ρ)) :
    deliverFrom nested position (x :: rest) p s = none := by
  rw [deliverFrom, lost]
  rfl

/-- What is left behind subscribers does not depend on the failures among them. -/
theorem map_deliverFrom_cons {position : Nat} {x : Subscriber ρ} {p p' : Payload}
    {s s' : BusState ρ} {ending : Ending} (ran : x.handler.run nested p s = some (ending, p', s'))
    (rest : List (Subscriber ρ)) : (deliverFrom nested position (x :: rest) p s).map Prod.snd =
      (deliverFrom nested (position + 1) rest p' s').map Prod.snd := by
  rw [deliverFrom, ran]
  cases delivered : deliverFrom nested (position + 1) rest p' s' with
  | none => simp [delivered]
  | some result =>
      simp only [delivered, Option.bind_eq_bind, Option.bind_some]
      cases ending.reason? <;> rfl

theorem map_deliver (hook : String) (payload : Payload) (s : BusState ρ) :
    (deliver nested hook payload s).map Prod.snd =
      (deliverFrom nested 0 (s.bus.subscribersOf hook) payload s).map fun r => r.2.2 := by
  unfold deliver
  cases delivered : deliverFrom nested 0 (s.bus.subscribersOf hook) payload s <;>
    simp [delivered]

/-- A dispatch delivers to the subscribers of its hook, and reports of them. -/
theorem deliver_eq_some {hook : String} {payload : Payload} {s s' : BusState ρ} {d : Delivery} :
    deliver nested hook payload s = some (d, s') ↔ ∃ failures,
      deliverFrom nested 0 (s.bus.subscribersOf hook) payload s =
        some (failures, d.payload, s') ∧
      d.report = ⟨hook, (s.bus.subscribersOf hook).length, failures, d.payload.verdict⟩ ∧
      d.progress = (List.range (s.bus.subscribersOf hook).length).map
        fun i => (i, (s.bus.subscribersOf hook).length) := by
  unfold deliver
  constructor
  · intro delivered
    obtain ⟨⟨failures, p, t⟩, ran, delivered⟩ := Option.bind_eq_some_iff.mp delivered
    cases delivered
    exact ⟨failures, ran, rfl, rfl⟩
  · rintro ⟨failures, ran, report, progress⟩
    refine Option.bind_eq_some_iff.mpr ⟨_, ran, ?_⟩
    simp only [← report, ← progress]
    rfl

/-! ### Greater depths -/

/-- Every dispatch that comes back comes back in the same way from another dispatcher. -/
def Dispatcher.Extends (wider nested : Dispatcher ρ) : Prop :=
  ∀ hook payload s result, nested hook payload s = some result → wider hook payload s = some result

theorem Script.run_extends (extends_ : wider.Extends nested) {script : Script ρ} {p : Payload}
    {s : BusState ρ} {result : Ending × Payload × BusState ρ}
    (ran : script.run nested p s = some result) : script.run wider p s = some result := by
  induction script generalizing p s with
  | finish ending => exact ran
  | read next ih => exact ih p ran
  | write payload next ih => exact ih ran
  | note entry next ih => exact ih ran
  | consult next ih => exact ih s.notes ran
  | survey next ih => exact ih s.bus.view ran
  | subscribe hook handler next _ ih => exact ih _ ran
  | unsubscribe subscription next ih => exact ih _ ran
  | dispatch hook payload next ih =>
      obtain ⟨⟨d, s'⟩, dispatched, ran⟩ := Option.bind_eq_some_iff.mp ran
      exact Option.bind_eq_some_iff.mpr ⟨_, extends_ _ _ _ _ dispatched, ih d ran⟩

theorem deliverFrom_extends (extends_ : wider.Extends nested) {position : Nat}
    {xs : List (Subscriber ρ)} {p : Payload} {s : BusState ρ}
    {result : List Failure × Payload × BusState ρ}
    (delivered : deliverFrom nested position xs p s = some result) :
    deliverFrom wider position xs p s = some result := by
  induction xs generalizing position p s result with
  | nil => exact delivered
  | cons x rest ih =>
      obtain ⟨ending, p', s', failures, first, others, same⟩ := deliverFrom_cons.mp delivered
      exact deliverFrom_cons.mpr ⟨ending, p', s', failures, Script.run_extends extends_ first,
        ih others, same⟩

theorem Dispatcher.Extends.deliver (extends_ : wider.Extends nested) :
    (Event.deliver wider).Extends (Event.deliver nested) := by
  rintro hook payload s ⟨d, s'⟩ delivered
  obtain ⟨failures, ran, report, progress⟩ := deliver_eq_some.mp delivered
  exact deliver_eq_some.mpr ⟨failures, deliverFrom_extends extends_ ran, report, progress⟩

theorem dispatchWithin_extends (n : Nat) :
    (dispatchWithin (n + 1) : Dispatcher ρ).Extends (dispatchWithin n) := by
  induction n with
  | zero => exact fun _ _ _ _ none_ => nomatch none_
  | succ n ih => exact ih.deliver

theorem dispatchWithin_add (n more : Nat) :
    (dispatchWithin (n + more) : Dispatcher ρ).Extends (dispatchWithin n) := by
  induction more with
  | zero => exact fun _ _ _ _ came => came
  | succ more ih => exact fun _ _ _ _ came => dispatchWithin_extends _ _ _ _ _ (ih _ _ _ _ came)

/-- What has come back within some depth is the same to any greater one. -/
theorem BusState.dispatch?_add {s : BusState ρ} {depth : Nat} {hook : String} {payload : Payload}
    {result : Delivery × BusState ρ} (came : s.dispatch? depth hook payload = some result)
    (more : Nat) : s.dispatch? (depth + more) hook payload = some result :=
  (dispatchWithin_add depth more).deliver hook payload s result came

/-! ### Handlers that come back -/

/-- A handler comes back whatever it is run on. -/
def Script.Returns (nested : Dispatcher ρ) (script : Script ρ) : Prop :=
  ∀ p s, (script.run nested p s).isSome

/-- A handler dispatches nothing. -/
def Script.Alone : Script ρ → Prop
  | finish _ => True
  | read next => ∀ p, (next p).Alone
  | write _ next | note _ next => next.Alone
  | consult next => ∀ notes, (next notes).Alone
  | survey next => ∀ view, (next view).Alone
  | subscribe _ _ next => ∀ subscription, (next subscription).Alone
  | unsubscribe _ next => ∀ live, (next live).Alone
  | dispatch .. => False

theorem Script.Alone.returns {script : Script ρ} (alone : script.Alone) :
    script.Returns nested := by
  intro p s
  induction script generalizing p s with
  | finish ending => rfl
  | read next ih => exact ih p (alone p) p s
  | write payload next ih => exact ih alone payload s
  | note entry next ih => exact ih alone p _
  | consult next ih => exact ih s.notes (alone _) p s
  | survey next ih => exact ih s.bus.view (alone _) p s
  | subscribe hook handler next _ ih => exact ih _ (alone _) p _
  | unsubscribe subscription next ih => exact ih _ (alone _) p _
  | dispatch hook payload next ih => exact alone.elim

theorem isSome_deliverFrom {position : Nat} {xs : List (Subscriber ρ)}
    (returns : ∀ x ∈ xs, x.handler.Returns nested) (p : Payload) (s : BusState ρ) :
    (deliverFrom nested position xs p s).isSome := by
  induction xs generalizing position p s with
  | nil => rfl
  | cons x rest ih =>
      obtain ⟨first, others⟩ := List.forall_mem_cons.mp returns
      obtain ⟨⟨ending, p', s'⟩, ran⟩ := Option.isSome_iff_exists.mp (first p s)
      obtain ⟨⟨failures, left⟩, delivered⟩ :=
        Option.isSome_iff_exists.mp (@ih (position + 1) others p' s')
      have whole := (@deliverFrom_cons _ nested position x rest p s (_, left)).mpr
        ⟨ending, p', s', failures, ran, delivered, rfl⟩
      exact Option.isSome_of_eq_some whole

/-- A dispatch comes back when the handlers of its subscribers do. -/
theorem BusState.isSome_dispatch? {s : BusState ρ} {depth : Nat} {hook : String}
    (returns : ∀ x ∈ s.bus.subscribersOf hook, x.handler.Returns (dispatchWithin depth))
    (payload : Payload) : (s.dispatch? depth hook payload).isSome := by
  obtain ⟨⟨failures, p, t⟩, delivered⟩ :=
    Option.isSome_iff_exists.mp (@isSome_deliverFrom _ _ 0 _ returns payload s)
  have whole := (@deliver_eq_some _ (dispatchWithin depth) hook payload s t
    ⟨⟨hook, _, failures, p.verdict⟩, p, _⟩).mpr ⟨failures, delivered, rfl, rfl⟩
  exact Option.isSome_of_eq_some whole

end HookSplice.Event
