import Mathlib.Data.List.InsertIdx
import HookSplice.Proofs.DispatchDepth

/-!
# Delivery as a fold

A dispatch hands its payload from one subscriber to the next.  Each of them receives what the one
before has left, however that one ended, and the report counts them all and lists those that failed.
As long as the others look at nothing but the payload, one more subscriber that fails without
touching it is seen by nobody: it adds its failure to the report, and the later ones move on by one
position.
-/

namespace HookSplice.Event

variable {ρ : Type} {nested : Dispatcher ρ}

/-! ### What the subscribers do -/

/-- What a subscriber makes of the payload that it receives. -/
structure Exchange (ρ : Type) where
  subscriber : Subscriber ρ
  received : Payload
  ending : Ending
  left : Payload

/-- An exchange between two states of the bus. -/
structure Handling (ρ : Type) extends Exchange ρ where
  before : BusState ρ
  after : BusState ρ

/-- Subscribers that come back one after the other, with what they do, from a payload and a bus to
    the payload and the bus behind them. -/
inductive Handed (nested : Dispatcher ρ) : List (Subscriber ρ) → Payload → BusState ρ →
    List (Handling ρ) → Payload → BusState ρ → Prop
  | nil {p : Payload} {s : BusState ρ} : Handed nested [] p s [] p s
  | cons {x : Subscriber ρ} {rest : List (Subscriber ρ)} {p p' q : Payload} {s s' t : BusState ρ}
      {ending : Ending} {hs : List (Handling ρ)}
      (ran : x.handler.run nested p s = some (ending, p', s'))
      (later : Handed nested rest p' s' hs q t) :
      Handed nested (x :: rest) p s (⟨⟨x, p, ending, p'⟩, s, s'⟩ :: hs) q t

/-- The failure that an exchange at a position is, if the subscriber does not succeed. -/
def Exchange.failure? (e : Exchange ρ) (position : Nat) : Option Failure :=
  e.ending.reason?.map fun reason => ⟨e.subscriber.id, position, reason⟩

/-- The failures among exchanges, the first of which has a position. -/
def failuresFrom : Nat → List (Exchange ρ) → List Failure
  | _, [] => []
  | position, e :: rest => (e.failure? position).toList ++ failuresFrom (position + 1) rest

/-- Delivering is handing the payload on. -/
theorem deliverFrom_eq_some {position : Nat} {xs : List (Subscriber ρ)} {p q : Payload}
    {s t : BusState ρ} {failures : List Failure} :
    deliverFrom nested position xs p s = some (failures, q, t) ↔
      ∃ hs, Handed nested xs p s hs q t ∧
        failures = failuresFrom position (hs.map Handling.toExchange) := by
  induction xs generalizing position p s failures with
  | nil =>
      constructor
      · rintro ⟨⟩
        exact ⟨[], .nil, rfl⟩
      · rintro ⟨_, ⟨⟩, rfl⟩
        rfl
  | cons x rest ih =>
      rw [deliverFrom_cons]
      constructor
      · rintro ⟨ending, p', s', others, ran, delivered, rfl⟩
        obtain ⟨hs, later, rfl⟩ := ih.mp delivered
        exact ⟨_, .cons ran later, rfl⟩
      · rintro ⟨_, _ | ⟨ran, later⟩, rfl⟩
        exact ⟨_, _, _, _, ran, ih.mpr ⟨_, later, rfl⟩, rfl⟩

/-- The delivery that comes of what the subscribers of a hook do. -/
def Delivery.reporting (hook : String) (hs : List (Handling ρ)) (q : Payload) : Delivery :=
  ⟨⟨hook, hs.length, failuresFrom 0 (hs.map Handling.toExchange), q.verdict⟩, q,
    (List.range hs.length).map fun i => (i, hs.length)⟩

namespace Handed

variable {xs ys : List (Subscriber ρ)} {p q q' : Payload} {s t t' : BusState ρ}
  {hs hs' : List (Handling ρ)}

theorem append_iff : Handed nested (xs ++ ys) p s hs q t ↔ ∃ front back q₁ t₁,
    hs = front ++ back ∧ Handed nested xs p s front q₁ t₁ ∧ Handed nested ys q₁ t₁ back q t := by
  induction xs generalizing p s hs with
  | nil =>
      constructor
      · exact fun handed => ⟨[], hs, p, s, rfl, .nil, handed⟩
      · rintro ⟨_, _, _, _, rfl, ⟨⟩, handed⟩
        exact handed
  | cons x rest ih =>
      constructor
      · rintro (_ | ⟨ran, later⟩)
        obtain ⟨front, back, q₁, t₁, rfl, first, second⟩ := ih.mp later
        exact ⟨_ :: front, back, q₁, t₁, rfl, .cons ran first, second⟩
      · rintro ⟨_, back, q₁, t₁, rfl, _ | ⟨ran, first⟩, second⟩
        exact .cons ran (ih.mpr ⟨_, back, q₁, t₁, rfl, first, second⟩)

theorem subscribers (handed : Handed nested xs p s hs q t) :
    hs.map (fun h => h.subscriber) = xs := by
  induction handed with
  | nil => rfl
  | cons ran later ih => exact congrArg _ ih

theorem length (handed : Handed nested xs p s hs q t) : hs.length = xs.length := by
  rw [← handed.subscribers, List.length_map]

theorem runs (handed : Handed nested xs p s hs q t) : ∀ h ∈ hs,
    h.subscriber.handler.run nested h.received h.before = some (h.ending, h.left, h.after) := by
  induction handed with
  | nil => exact fun _ member => nomatch member
  | cons ran later ih => exact List.forall_mem_cons.mpr ⟨ran, ih⟩

/-- The payloads and the states of the bus are handed from each subscriber to the next one. -/
theorem chained (handed : Handed nested xs p s hs q t) :
    p :: hs.map (fun h => h.left) = hs.map (fun h => h.received) ++ [q] ∧
      s :: hs.map Handling.after = hs.map Handling.before ++ [t] := by
  induction handed with
  | nil => exact ⟨rfl, rfl⟩
  | cons ran later ih => exact ⟨congrArg (List.cons _) ih.1, congrArg (List.cons _) ih.2⟩

/-- What the subscribers do is determined by what it starts with. -/
theorem of_chained (subscribers : hs.map (fun h => h.subscriber) = xs)
    (runs : ∀ h ∈ hs, h.subscriber.handler.run nested h.received h.before =
      some (h.ending, h.left, h.after))
    (payloads : p :: hs.map (fun h => h.left) = hs.map (fun h => h.received) ++ [q])
    (buses : s :: hs.map Handling.after = hs.map Handling.before ++ [t]) :
    Handed nested xs p s hs q t := by
  induction hs generalizing xs p s with
  | nil =>
      obtain rfl := subscribers
      obtain rfl := List.singleton_inj.mp payloads
      obtain rfl := List.singleton_inj.mp buses
      exact .nil
  | cons h rest ih =>
      obtain ⟨first, runs'⟩ := List.forall_mem_cons.mp runs
      obtain ⟨received, payloads'⟩ := List.cons.inj payloads
      obtain ⟨before, buses'⟩ := List.cons.inj buses
      subst received before subscribers
      exact .cons first (ih rfl runs' payloads' buses')

theorem unique (handed : Handed nested xs p s hs q t) (handed' : Handed nested xs p s hs' q' t') :
    hs' = hs ∧ q' = q ∧ t' = t := by
  induction handed generalizing hs' with
  | nil =>
      cases handed'
      exact ⟨rfl, rfl, rfl⟩
  | cons ran later ih =>
      obtain _ | ⟨ran', later'⟩ := handed'
      cases ran.symm.trans ran'
      obtain ⟨rfl, same⟩ := ih later'
      exact ⟨rfl, same⟩

end Handed

theorem deliver_eq_some_reporting {hook : String} {payload : Payload} {s t : BusState ρ}
    {d : Delivery} : deliver nested hook payload s = some (d, t) ↔ ∃ hs q,
      Handed nested (s.bus.subscribersOf hook) payload s hs q t ∧ d = .reporting hook hs q := by
  rw [deliver_eq_some]
  constructor
  · rintro ⟨failures, delivered, report, progress⟩
    obtain ⟨hs, handed, rfl⟩ := deliverFrom_eq_some.mp delivered
    obtain ⟨_, q, _⟩ := d
    simp only at report progress
    subst report progress
    rw [← handed.length] at *
    exact ⟨hs, q, handed, rfl⟩
  · rintro ⟨hs, q, handed, rfl⟩
    refine ⟨_, deliverFrom_eq_some.mpr ⟨hs, handed, rfl⟩, ?_, ?_⟩
    · rw [← handed.length]
      rfl
    · rw [← handed.length]
      rfl

/-! ### The failures in a report -/

theorem Exchange.failure?_eq_some {e : Exchange ρ} {position : Nat} {f : Failure} :
    e.failure? position = some f ↔ f.position = position ∧ f.subscription = e.subscriber.id ∧
      e.ending.reason? = some f.reason := by
  obtain ⟨id, place, reason⟩ := f
  rw [failure?, Option.map_eq_some_iff]
  constructor
  · rintro ⟨reason', failed, same⟩
    cases same
    exact ⟨rfl, rfl, failed⟩
  · rintro ⟨rfl, rfl, failed⟩
    exact ⟨reason, failed, rfl⟩

theorem failuresFrom_append (position : Nat) (es es' : List (Exchange ρ)) :
    failuresFrom position (es ++ es') =
      failuresFrom position es ++ failuresFrom (position + es.length) es' := by
  induction es generalizing position with
  | nil => rfl
  | cons e rest ih =>
      have next : position + 1 + rest.length = position + (rest.length + 1) := by omega
      simp only [List.cons_append, failuresFrom, List.length_cons, ih, next, List.append_assoc]

/-- A failure that has moved on by one position. -/
def Failure.later (f : Failure) : Failure :=
  { f with position := f.position + 1 }

theorem failuresFrom_succ (position : Nat) (es : List (Exchange ρ)) :
    failuresFrom (position + 1) es = (failuresFrom position es).map Failure.later := by
  induction es generalizing position with
  | nil => rfl
  | cons e rest ih =>
      simp only [failuresFrom, ih (position + 1), List.map_append, Exchange.failure?]
      cases e.ending.reason? <;> rfl

/-- The failures are those of the exchanges that fail, each at its position. -/
theorem mem_failuresFrom {position : Nat} {es : List (Exchange ρ)} {f : Failure} :
    f ∈ failuresFrom position es ↔
      ∃ (i : Nat) (e : Exchange ρ), es[i]? = some e ∧ e.failure? (position + i) = some f := by
  induction es generalizing position with
  | nil => simp [failuresFrom]
  | cons e rest ih =>
      rw [failuresFrom, List.mem_append, Option.mem_toList, ih]
      constructor
      · rintro (here | ⟨i, e', there, failed⟩)
        · exact ⟨0, e, rfl, here⟩
        · refine ⟨i + 1, e', there, ?_⟩
          rwa [Nat.add_assoc, Nat.add_comm 1] at failed
      · rintro ⟨i, e', there, failed⟩
        cases i with
        | zero =>
            obtain rfl := Option.some.inj there
            exact Or.inl failed
        | succ i =>
            refine Or.inr ⟨i, e', there, ?_⟩
            rwa [Nat.add_assoc, Nat.add_comm 1]

theorem position_of_mem_failuresFrom {position : Nat} {es : List (Exchange ρ)} {f : Failure}
    (member : f ∈ failuresFrom position es) :
    position ≤ f.position ∧ f.position < position + es.length := by
  obtain ⟨i, e, there, failed⟩ := mem_failuresFrom.mp member
  have place := (Exchange.failure?_eq_some.mp failed).1
  have below : i < es.length := (List.getElem?_eq_some_iff.mp there).1
  omega

theorem failuresFrom_ascending (position : Nat) (es : List (Exchange ρ)) :
    ((failuresFrom position es).map Failure.position).Pairwise (· < ·) := by
  induction es generalizing position with
  | nil => exact List.Pairwise.nil
  | cons e rest ih =>
      rw [failuresFrom, List.map_append, List.pairwise_append]
      refine ⟨?_, ih (position + 1), ?_⟩
      · cases e.failure? position <;> simp
      · intro i first j later
        obtain ⟨f, here, rfl⟩ := List.mem_map.mp first
        obtain ⟨f', there, rfl⟩ := List.mem_map.mp later
        have place := (Exchange.failure?_eq_some.mp (Option.mem_toList.mp here)).1
        have behind := (position_of_mem_failuresFrom there).1
        omega

/-! ### The account of a dispatch -/

/-- What the subscribers of a hook do in a dispatch that comes back, and how its report and its
    payload follow. -/
structure Account (nested : Dispatcher ρ) (hook : String) (payload : Payload) (s : BusState ρ)
    (d : Delivery) (t : BusState ρ) (hs : List (Handling ρ)) : Prop where
  /-- Every subscriber has its turn, in the order of delivery. -/
  subscribers : hs.map (fun h => h.subscriber) = s.bus.subscribersOf hook
  runs : ∀ h ∈ hs,
    h.subscriber.handler.run nested h.received h.before = some (h.ending, h.left, h.after)
  /-- The first one receives the payload of the dispatch, every other what the one before left, and
      what the last one leaves is the result. -/
  payloads : payload :: hs.map (fun h => h.left) = hs.map (fun h => h.received) ++ [d.payload]
  buses : s :: hs.map Handling.after = hs.map Handling.before ++ [t]
  named : d.report.hook = hook
  delivered : d.report.delivered = hs.length
  ascending : (d.report.failures.map Failure.position).Pairwise (· < ·)
  failed : ∀ f, f ∈ d.report.failures ↔
    ∃ h, hs[f.position]? = some h ∧ f.subscription = h.subscriber.id ∧
      h.ending.reason? = some f.reason
  verdict : d.report.verdict = d.payload.verdict

theorem Handed.account {hook : String} {payload q : Payload} {s t : BusState ρ}
    {hs : List (Handling ρ)} (handed : Handed nested (s.bus.subscribersOf hook) payload s hs q t) :
    Account nested hook payload s (.reporting hook hs q) t hs where
  subscribers := handed.subscribers
  runs := handed.runs
  payloads := handed.chained.1
  buses := handed.chained.2
  named := rfl
  delivered := rfl
  ascending := failuresFrom_ascending _ _
  failed := by
    intro f
    unfold Delivery.reporting
    simp only [mem_failuresFrom, Exchange.failure?_eq_some, List.getElem?_map,
      Option.map_eq_some_iff, Nat.zero_add]
    constructor
    · rintro ⟨i, e, ⟨h, there, rfl⟩, rfl, failed⟩
      exact ⟨h, there, failed⟩
    · rintro ⟨h, there, failed⟩
      exact ⟨f.position, h.toExchange, ⟨h, there, rfl⟩, rfl, failed⟩
  verdict := rfl

theorem Account.handed {hook : String} {payload : Payload} {s t : BusState ρ} {d : Delivery}
    {hs : List (Handling ρ)} (account : Account nested hook payload s d t hs) :
    Handed nested (s.bus.subscribersOf hook) payload s hs d.payload t :=
  .of_chained account.subscribers account.runs account.payloads account.buses

/-! ### Handlers that only transform the payload -/

/-- The handler comes back, and what it leaves of a payload and how it ends depends on nothing but
    the payload. -/
def Script.Transforms (nested : Dispatcher ρ) (h : Script ρ) (f : Payload → Ending × Payload) :
    Prop :=
  ∀ p s, ∃ s', h.run nested p s = some ((f p).1, (f p).2, s')

/-- The handler that applies a function to the payload. -/
def Script.applying (f : Payload → Ending × Payload) : Script ρ :=
  .read fun p => .write (f p).2 (.finish (f p).1)

theorem Script.applying_transforms (f : Payload → Ending × Payload) :
    (applying f : Script ρ).Transforms nested f :=
  fun _ s => ⟨s, rfl⟩

theorem Script.Transforms.returns {h : Script ρ} {f : Payload → Ending × Payload}
    (transforms : h.Transforms nested f) : h.Returns nested := fun p s => by
  obtain ⟨s', ran⟩ := transforms p s
  exact Option.isSome_of_eq_some ran

/-- The bus does not matter to subscribers that transform the payload. -/
theorem Handed.elsewhere {xs : List (Subscriber ρ)} {p q : Payload} {s t : BusState ρ}
    {hs : List (Handling ρ)} (handed : Handed nested xs p s hs q t)
    (transform : ∀ x ∈ xs, ∃ f, x.handler.Transforms nested f) (s' : BusState ρ) :
    ∃ hs' t', Handed nested xs p s' hs' q t' ∧
      hs'.map Handling.toExchange = hs.map Handling.toExchange := by
  induction handed generalizing s' with
  | nil => exact ⟨[], s', .nil, rfl⟩
  | @cons x rest p p' q s s₁ t ending hs ran later ih =>
      obtain ⟨⟨f, first⟩, others⟩ := List.forall_mem_cons.mp transform
      obtain ⟨_, here⟩ := first p s
      obtain ⟨s₂, there⟩ := first p s'
      cases ran.symm.trans here
      obtain ⟨hs', t', handed', same⟩ := ih others s₂
      exact ⟨_, t', .cons there handed', congrArg (List.cons _) same⟩

/-! ### One more subscriber -/

/-- A report's failures with one more, behind which the others have moved on. -/
def insertFailure (extra : Failure) (failures : List Failure) : List Failure :=
  failures.filter (fun f => f.position < extra.position) ++ extra ::
    (failures.filter fun f => extra.position ≤ f.position).map Failure.later

theorem insertFailure_failuresFrom (extra : Failure) (es es' : List (Exchange ρ))
    (place : extra.position = es.length) :
    insertFailure extra (failuresFrom 0 (es ++ es')) =
      failuresFrom 0 es ++ extra :: failuresFrom (es.length + 1) es' := by
  have front : ∀ f ∈ failuresFrom 0 es, f.position < es.length := by
    intro f member
    simpa using (position_of_mem_failuresFrom member).2
  have back : ∀ f ∈ failuresFrom es.length es', es.length ≤ f.position :=
    fun f member => (position_of_mem_failuresFrom member).1
  have kept : (failuresFrom 0 es).filter (fun f => f.position < es.length) = failuresFrom 0 es :=
    List.filter_eq_self.mpr fun f member => decide_eq_true (front f member)
  have none_ : (failuresFrom es.length es').filter (fun f => f.position < es.length) = [] :=
    List.filter_eq_nil_iff.mpr fun f member => by simpa using back f member
  have none' : (failuresFrom 0 es).filter (fun f => es.length ≤ f.position) = [] :=
    List.filter_eq_nil_iff.mpr fun f member => by simpa using front f member
  have moved : (failuresFrom es.length es').filter (fun f => es.length ≤ f.position) =
      failuresFrom es.length es' :=
    List.filter_eq_self.mpr fun f member => decide_eq_true (back f member)
  rw [insertFailure, place, failuresFrom_append, List.filter_append, List.filter_append,
    Nat.zero_add, kept, none_, none', moved, List.append_nil, List.nil_append, failuresFrom_succ]

/-- One more subscriber that leaves the payload as it has received it does not show in the exchanges
    of the others. -/
theorem Handed.without {front back : List (Subscriber ρ)} {extra : Subscriber ρ} {p q : Payload}
    {s t' : BusState ρ} {hs' : List (Handling ρ)}
    (handed : Handed nested (front ++ extra :: back) p s hs' q t') {h : Handling ρ}
    (there : hs'[front.length]? = some h) (quiet : h.left = h.received)
    (transform : ∀ x ∈ front ++ back, ∃ f, x.handler.Transforms nested f) (s' : BusState ρ) :
    h.subscriber = extra ∧ ∃ hs t es es', Handed nested (front ++ back) p s' hs q t ∧
      es.length = front.length ∧ hs.map Handling.toExchange = es ++ es' ∧
      hs'.map Handling.toExchange = es ++ h.toExchange :: es' := by
  obtain ⟨inFront, inBack⟩ := List.forall_mem_append.mp transform
  obtain ⟨first, _, q₁, t₁, rfl, before, _ | ⟨ran, behind⟩⟩ := append_iff.mp handed
  rw [← before.length, List.getElem?_append_right (Nat.le_refl _), Nat.sub_self] at there
  obtain rfl := Option.some.inj there
  simp only at quiet
  subst quiet
  obtain ⟨first', t₂, before', sameFirst⟩ := before.elsewhere inFront s'
  obtain ⟨second', t, behind', sameSecond⟩ := behind.elsewhere inBack t₂
  refine ⟨rfl, first' ++ second', t, first.map Handling.toExchange,
    second'.map Handling.toExchange,
    append_iff.mpr ⟨first', second', _, t₂, rfl, before', behind'⟩, ?_, ?_, ?_⟩
  · rw [List.length_map, before.length]
  · rw [List.map_append, sameFirst]
  · rw [List.map_append, List.map_cons, sameSecond]

/-- The second delivery is the first one with one more subscriber, which has failed. -/
structure Delivery.Gains (d d' : Delivery) (extra : Failure) : Prop where
  payload : d'.payload = d.payload
  verdict : d'.report.verdict = d.report.verdict
  delivered : d'.report.delivered = d.report.delivered + 1
  failures : d'.report.failures = insertFailure extra d.report.failures

theorem deliver_gains {hook : String} {payload : Payload} {s s' t' : BusState ρ}
    {front back : List (Subscriber ρ)} {extra : Subscriber ρ} {d' : Delivery}
    (without : s.bus.subscribersOf hook = front ++ back)
    (with_ : s'.bus.subscribersOf hook = front ++ extra :: back)
    (transform : ∀ x ∈ front ++ back, ∃ f, x.handler.Transforms nested f)
    (delivered : deliver nested hook payload s' = some (d', t')) {hs' : List (Handling ρ)}
    (account : Account nested hook payload s' d' t' hs') {h : Handling ρ} {reason : String}
    (there : hs'[front.length]? = some h) (failed : h.ending.reason? = some reason)
    (quiet : h.left = h.received) : ∃ d t hs, deliver nested hook payload s = some (d, t) ∧
      Account nested hook payload s d t hs ∧
      (hs'.eraseIdx front.length).map Handling.toExchange = hs.map Handling.toExchange ∧
      d.Gains d' ⟨extra.id, front.length, reason⟩ := by
  obtain ⟨_, q, handed', rfl⟩ := deliver_eq_some_reporting.mp delivered
  obtain ⟨rfl, -⟩ := handed'.unique account.handed
  rw [with_] at handed'
  obtain ⟨rfl, hs, t, es, es', handed, place, exchanges, exchanges'⟩ :=
    handed'.without there quiet transform s
  have failure : h.failure? es.length = some ⟨h.subscriber.id, es.length, reason⟩ :=
    Exchange.failure?_eq_some.mpr ⟨rfl, rfl, failed⟩
  have few := handed.length
  have more := handed'.length
  rw [← without] at handed
  refine ⟨_, t, hs, deliver_eq_some_reporting.mpr ⟨hs, q, handed, rfl⟩, handed.account, ?_, ?_⟩
  · rw [← List.eraseIdx_map, exchanges', exchanges, ← place,
      List.eraseIdx_append_of_length_le (Nat.le_refl _)]
    simp
  · constructor
    case payload => rfl
    case verdict => rfl
    case delivered =>
      show hs'.length = hs.length + 1
      rw [few, more]
      simp only [List.length_append, List.length_cons]
      omega
    case failures =>
      show failuresFrom 0 (hs'.map _) = insertFailure _ (failuresFrom 0 (hs.map _))
      rw [exchanges, exchanges', ← place, insertFailure_failuresFrom _ _ _ rfl,
        failuresFrom_append, failuresFrom, Nat.zero_add, failure]
      rfl

/-- What dispatches do, down to any depth.  For all handlers, when a dispatch comes back, the
    subscribers of the hook were run in order, each on what the one before it has left, whatever
    verdict or failure there was; the report counts them and lists those that fail with their ids
    and positions in ascending order, and has the verdict of the last payload.  It always comes back
    when the handlers transform the payload without regard to the bus.  Then another subscriber
    among them that fails and leaves the payload as it has received it changes nothing that the
    others receive and leave, nor the last payload and its verdict.  It is counted, its failure is
    inserted, and the failures behind it move on by one position. -/
theorem deliver_folds (depth : Nat) (hook : String) (payload : Payload) :
    (∀ (s t : BusState ρ) (d : Delivery), s.dispatch? depth hook payload = some (d, t) →
      ∃ hs, Account (dispatchWithin depth) hook payload s d t hs) ∧
    (∀ s : BusState ρ,
      (∀ x ∈ s.bus.subscribersOf hook, ∃ f, x.handler.Transforms (dispatchWithin depth) f) →
      ∃ d t, s.dispatch? depth hook payload = some (d, t)) ∧
    ∀ (s s' : BusState ρ) (front back : List (Subscriber ρ)) (extra : Subscriber ρ),
      s.bus.subscribersOf hook = front ++ back →
      s'.bus.subscribersOf hook = front ++ extra :: back →
      (∀ x ∈ front ++ back, ∃ f, x.handler.Transforms (dispatchWithin depth) f) →
      ∀ (t' : BusState ρ) (d' : Delivery) (hs' : List (Handling ρ)),
        s'.dispatch? depth hook payload = some (d', t') →
        Account (dispatchWithin depth) hook payload s' d' t' hs' →
      ∀ (h : Handling ρ) (reason : String), hs'[front.length]? = some h →
        h.ending.reason? = some reason → h.left = h.received →
        ∃ d t hs, s.dispatch? depth hook payload = some (d, t) ∧
          Account (dispatchWithin depth) hook payload s d t hs ∧
          (hs'.eraseIdx front.length).map Handling.toExchange = hs.map Handling.toExchange ∧
          d.Gains d' ⟨extra.id, front.length, reason⟩ := by
  refine ⟨fun s t d delivered => ?_, fun s transform => ?_, ?_⟩
  · obtain ⟨hs, q, handed, rfl⟩ := deliver_eq_some_reporting.mp delivered
    exact ⟨hs, handed.account⟩
  · have returns : ∀ x ∈ s.bus.subscribersOf hook, x.handler.Returns (dispatchWithin depth) :=
      fun x member => by
        obtain ⟨f, transforms⟩ := transform x member
        exact transforms.returns
    obtain ⟨⟨d, t⟩, came⟩ := Option.isSome_iff_exists.mp (BusState.isSome_dispatch? returns payload)
    exact ⟨d, t, came⟩
  · intro s s' front back extra without with_ transform t' d' hs' delivered account h reason there
      failed quiet
    exact deliver_gains without with_ transform delivered account there failed quiet

/-! ### A quarrel over the damage -/

/-- Fails with a panic, but has denied the event before. -/
def objector : Subscriber Unit :=
  ⟨0, .applying fun p => (.panicked (some "no"), p.deny)⟩

/-- Fails at once. -/
def absentee : Subscriber Unit :=
  ⟨1, .applying fun p => (.failed "offline", p)⟩

/-- Allows the event again, and succeeds. -/
def mediator : Subscriber Unit :=
  ⟨2, .applying fun p => (.done, p.setAllowed true)⟩

/-- A bus with subscribers to the hook `damage`. -/
def damageBus (xs : List (Subscriber Unit)) : BusState Unit :=
  ⟨⟨[("damage", xs)], ["damage", "damage", "damage"]⟩, []⟩

theorem subscribersOf_damageBus (xs : List (Subscriber Unit)) :
    (damageBus xs).bus.subscribersOf "damage" = xs := by
  simp [damageBus, Bus.subscribersOf]

/-- The subscriber in the middle that fails at once is only seen in the failures, between the ones
    that deny and allow the event. -/
theorem absentee_folds :
    (damageBus [objector, mediator]).bus.subscribersOf "damage" = [objector] ++ [mediator] ∧
    (damageBus [objector, absentee, mediator]).bus.subscribersOf "damage" =
      [objector] ++ absentee :: [mediator] ∧
    (∀ x ∈ [objector] ++ [mediator], ∃ f, x.handler.Transforms (dispatchWithin 0) f) ∧
    ∃ d t d' t',
      (damageBus [objector, mediator]).dispatch? 0 "damage" (.action .null true) = some (d, t) ∧
      (damageBus [objector, absentee, mediator]).dispatch? 0 "damage" (.action .null true) =
        some (d', t') ∧
      d.Gains d' ⟨1, 1, "offline"⟩ := by
  have without := subscribersOf_damageBus [objector, mediator]
  have with_ := subscribersOf_damageBus [objector, absentee, mediator]
  have transform : ∀ x ∈ [objector] ++ [mediator],
      ∃ f, x.handler.Transforms (dispatchWithin 0) f := by
    intro x member
    rw [List.singleton_append, List.mem_cons, List.mem_singleton] at member
    rcases member with rfl | rfl
    · exact ⟨_, Script.applying_transforms _⟩
    · exact ⟨_, Script.applying_transforms _⟩
  obtain ⟨-, -, isolated⟩ := deliver_folds (ρ := Unit) 0 "damage" (.action .null true)
  have handed : Handed (dispatchWithin 0) [objector, absentee, mediator] (.action .null true)
      (damageBus [objector, absentee, mediator]) _ _ _ :=
    .cons rfl (.cons rfl (.cons rfl .nil))
  have account : Account (dispatchWithin 0) "damage" (.action .null true)
      (damageBus [objector, absentee, mediator]) _ _ _ :=
    Handed.account (with_.symm ▸ handed)
  have delivered := deliver_eq_some_reporting.mpr ⟨_, _, account.handed, rfl⟩
  obtain ⟨d, t, hs, came, -, -, gains⟩ := isolated _ _ [objector] [mediator] absentee without with_
    transform _ _ _ delivered account _ "offline" rfl rfl rfl
  exact ⟨without, with_, transform, d, t, _, _, came, delivered, gains⟩

end HookSplice.Event
