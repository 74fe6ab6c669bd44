import HookSplice.Event.Invocation
import HookSplice.Order

/-!
# The event bus

Ordered delivery to the subscribers of a hook.  A dispatch runs the subscribers that were live when
it started, whatever their handlers subscribe or unsubscribe meanwhile.  A handler that fails or
panics is noted in the report and skipped.

Handlers are scripts: trees of the operations that a handler can perform, each with what follows
it.  A handler may itself dispatch, also to its own hook, and then the dispatch around it need not
come back.  Dispatches are followed down to a depth of nesting; what has not come back within it has
no result.
-/

namespace HookSplice.Event

/-- How a handler ends. -/
inductive Ending where
  | done
  | failed (reason : String)
  /-- The panic may carry a message. -/
  | panicked (message : Option String)
  deriving DecidableEq

/-- The reason a report gives for an ending, if the handler did not succeed. -/
def Ending.reason? : Ending → Option String
  | done => none
  | failed reason => some reason
  | panicked (some message) => some ("panicked: " ++ message)
  | panicked none => some "panicked"

/-- One registration: pass it back to end it. -/
@[ext]
structure Subscription where
  hook : String
  id : Nat
  deriving DecidableEq

/-- A subscriber that did not succeed in one dispatch. -/
structure Failure where
  subscription : Nat
  /-- The position in the order of delivery. -/
  position : Nat
  reason : String
  deriving DecidableEq

/-- The outcome of one dispatch; `delivered` counts the failed subscribers too. -/
structure DispatchReport where
  hook : String
  delivered : Nat
  failures : List Failure
  verdict : Verdict
  deriving DecidableEq

/-- How many subscribers succeeded. -/
def DispatchReport.succeeded (r : DispatchReport) : Nat :=
  r.delivered - r.failures.length

/-- What a dispatch gives: its report, the payload behind the last subscriber, and what was
    announced before each subscriber: its position and the number of them all. -/
structure Delivery where
  report : DispatchReport
  payload : Payload
  progress : List (Nat × Nat)
  deriving DecidableEq

/-- What a handler can see of the bus: the hooks with a live subscription, each once, in order; how
    many live subscriptions a hook has; and the hook of every subscription ever made, by id. -/
structure BusView where
  hooks : List String
  count : String → Nat
  issued : List String

/-- The subscription with an id, if it was ever made. -/
def BusView.subscription? (v : BusView) (id : Nat) : Option Subscription :=
  (v.issued[id]?).map fun hook => ⟨hook, id⟩

/-- What a handler does, step by step.  `ρ` is the type of the notes that
    handlers leave for each other. -/
inductive Script (ρ : Type) : Type where
  /-- The end. -/
  | finish (ending : Ending)
  /-- Goes on with the payload as it is now. -/
  | read (next : Payload → Script ρ)
  /-- Replaces the payload. -/
  | write (payload : Payload) (next : Script ρ)
  /-- Leaves a note. -/
  | note (entry : ρ) (next : Script ρ)
  /-- Goes on with the notes left so far. -/
  | consult (next : List ρ → Script ρ)
  /-- Looks at the bus. -/
  | survey (next : BusView → Script ρ)
  /-- Subscribes a handler to a hook. -/
  | subscribe (hook : String) (handler : Script ρ) (next : Subscription → Script ρ)
  /-- Ends a subscription, and learns whether it was live. -/
  | unsubscribe (subscription : Subscription) (next : Bool → Script ρ)
  /-- Dispatches a payload of its own. -/
  | dispatch (hook : String) (payload : Payload) (next : Delivery → Script ρ)

/-- A live subscriber of a hook. -/
structure Subscriber (ρ : Type) where
  id : Nat
  handler : Script ρ

/-- The subscribers of every hook that has some, in the order of delivery, and the hook of every
    subscription ever made, by id. -/
structure Bus (ρ : Type) where
  lists : List (String × List (Subscriber ρ))
  issued : List String

namespace Bus

variable {ρ : Type}

/-- The bus without subscribers. -/
def empty : Bus ρ := ⟨[], []⟩

/-- The live subscribers of a hook, in the order of delivery. -/
def subscribersOf (b : Bus ρ) (hook : String) : List (Subscriber ρ) :=
  (b.lists.lookup hook).getD []

/-- How many live subscriptions a hook has. -/
def count (b : Bus ρ) (hook : String) : Nat :=
  (b.subscribersOf hook).length

/-- The hooks with a live subscription, each once, in order. -/
def hooks (b : Bus ρ) : List String :=
  Order.sortByText id (b.lists.map Prod.fst)

/-- What handlers can see of a bus. -/
def view (b : Bus ρ) : BusView :=
  ⟨b.hooks, b.count, b.issued⟩

/-- Gives a hook another list.  Without subscribers it has none. -/
def setList {α : Type} (hook : String) (list : List α) :
    List (String × List α) → List (String × List α)
  | [] => if list.isEmpty then [] else [(hook, list)]
  | (other, old) :: rest =>
      if other = hook then
        if list.isEmpty then rest else (hook, list) :: rest
      else (other, old) :: setList hook list rest

/-- Registers a handler at the end of a hook's order of delivery. -/
def subscribe (b : Bus ρ) (hook : String) (handler : Script ρ) : Subscription × Bus ρ :=
  let id := b.issued.length
  (⟨hook, id⟩, {
    lists := setList hook (b.subscribersOf hook ++ [⟨id, handler⟩]) b.lists
    issued := b.issued ++ [hook] })

/-- Ends a subscription; tells whether it was live. -/
def unsubscribe (b : Bus ρ) (subscription : Subscription) : Bool × Bus ρ :=
  match b.lists.lookup subscription.hook with
  | none => (false, b)
  | some list =>
      let kept := list.filter fun s => s.id != subscription.id
      (kept.length != list.length, { b with lists := setList subscription.hook kept b.lists })

end Bus

/-- A bus and the notes its handlers have left so far. -/
structure BusState (ρ : Type) where
  bus : Bus ρ
  notes : List ρ

/-- How a handler dispatches; there is no result as long as the dispatch has not come back. -/
abbrev Dispatcher (ρ : Type) :=
  String → Payload → BusState ρ → Option (Delivery × BusState ρ)

/-- Runs a handler on a payload, up to a dispatch of its own that does not come back. -/
def Script.run {ρ : Type} (nested : Dispatcher ρ) :
    Script ρ → Payload → BusState ρ → Option (Ending × Payload × BusState ρ)
  | finish ending, p, s => some (ending, p, s)
  | read next, p, s => (next p).run nested p s
  | write payload next, _, s => next.run nested payload s
  | note entry next, p, s => next.run nested p { s with notes := s.notes ++ [entry] }
  | consult next, p, s => (next s.notes).run nested p s
  | survey next, p, s => (next s.bus.view).run nested p s
  | subscribe hook handler next, p, s =>
      let (subscription, bus) := s.bus.subscribe hook handler
      (next subscription).run nested p { s with bus := bus }
  | unsubscribe subscription next, p, s =>
      let (live, bus) := s.bus.unsubscribe subscription
      (next live).run nested p { s with bus := bus }
  | dispatch hook payload next, p, s => do
      let (delivery, s) ← nested hook payload s
      (next delivery).run nested p s

/-- Delivers a payload to subscribers from a position on and gives the failures on the way. -/
def deliverFrom {ρ : Type} (nested : Dispatcher ρ) :
    Nat → List (Subscriber ρ) → Payload → BusState ρ →
      Option (List Failure × Payload × BusState ρ)
  | _, [], p, s => some ([], p, s)
  | position, subscriber :: rest, p, s => do
      let (ending, p, s) ← subscriber.handler.run nested p s
      let (failures, p, s) ← deliverFrom nested (position + 1) rest p s
      match ending.reason? with
      | none => return (failures, p, s)
      | some reason => return (⟨subscriber.id, position, reason⟩ :: failures, p, s)

/-- Delivers a payload to every subscriber of a hook that is live now. -/
def deliver {ρ : Type} (nested : Dispatcher ρ) : Dispatcher ρ := fun hook payload s => do
  let subscribers := s.bus.subscribersOf hook
  let total := subscribers.length
  let (failures, payload, s) ← deliverFrom nested 0 subscribers payload s
  return (⟨⟨hook, total, failures, payload.verdict⟩, payload,
    (List.range total).map fun i => (i, total)⟩, s)

/-- The dispatches that come back with fewer than `n` others running inside each other in them. -/
def dispatchWithin {ρ : Type} : Nat → Dispatcher ρ
  | 0 => fun _ _ _ => none
  | n + 1 => deliver (dispatchWithin n)

namespace BusState

variable {ρ : Type}

/-- A bus without subscribers and without notes. -/
def empty : BusState ρ := ⟨.empty, []⟩

/-- Dispatches a payload, if this comes back with no more than `depth` other dispatches running
    inside each other in it. -/
def dispatch? (s : BusState ρ) (depth : Nat) (hook : String) (payload : Payload) :
    Option (Delivery × BusState ρ) :=
  deliver (dispatchWithin depth) hook payload s

end BusState

/-- A completed invocation as it is noted in a journal. -/
structure InvocationRecord where
  hook : String
  phases : List Phase
  exit : Exit
  report : DispatchReport
  deriving DecidableEq

namespace Invocation

/-- Follows a delivery through the phases of an invocation up to its exit. -/
def ofDelivery (hook : String) (d : Delivery) : Except InvalidTransition Invocation := do
  let i ← (enter hook).advance .payloadConstructed
  let i ← d.progress.foldlM (fun i (index, count) => i.advance (.dispatching index count)) i
  let i ← i.advance .dispatched
  let i ← i.advance (.decided d.report.verdict)
  i.finish

/-- Drives a payload through dispatch and the verdict, if the dispatch comes back within a depth. -/
def run? {ρ : Type} (depth : Nat) (s : BusState ρ) (hook : String) (payload : Payload) :
    Option (Except InvalidTransition Invocation × Delivery × BusState ρ) := do
  let (delivery, s) ← s.dispatch? depth hook payload
  return (ofDelivery hook delivery, delivery, s)

end Invocation

end HookSplice.Event
