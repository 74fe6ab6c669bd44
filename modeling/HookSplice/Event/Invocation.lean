import HookSplice.Event.Payload

/-!
# Invocations

The phases of one invocation of a hook: entered, payload constructed, dispatching to one subscriber
after another, dispatched, decided, and out by the exit that the verdict implies.
-/

namespace HookSplice.Event

/-- Where control goes once the verdict is known. -/
inductive Exit where
  | continuation
  | earlyExit
  deriving DecidableEq

/-- The exit that a verdict implies. -/
def Verdict.exit : Verdict → Exit
  | allowed => .continuation
  | denied => .earlyExit

/-- A phase of an invocation. -/
inductive Phase where
  | entered
  | payloadConstructed
  /-- Subscriber `index` of `count` is about to run. -/
  | dispatching (index count : Nat)
  | dispatched
  | decided (verdict : Verdict)
  | finished (exit : Exit)
  deriving DecidableEq

/-- How messages show a phase; subscribers are counted from one. -/
def Phase.display : Phase → String
  | entered => "entered"
  | payloadConstructed => "payload-constructed"
  | dispatching index count =>
      "dispatching(" ++ toString (index + 1) ++ " of " ++ toString count ++ ")"
  | dispatched => "dispatched"
  | decided verdict => "decided(" ++ verdict.display ++ ")"
  | finished .continuation => "original-continuation"
  | finished .earlyExit => "early-exit"

/-- A step from one phase to another that is not allowed. -/
structure InvalidTransition where
  source : Phase
  target : Phase
  deriving DecidableEq

/-- The wording of an invalid transition. -/
def InvalidTransition.message (t : InvalidTransition) : String :=
  "invalid invocation transition from " ++ t.source.display ++ " to " ++ t.target.display

/-- Whether an invocation may go from one phase to another. -/
def Phase.mayPrecede : Phase → Phase → Bool
  | entered, payloadConstructed => true
  | payloadConstructed, dispatching 0 count => 0 < count
  | dispatching index count, dispatching next count' =>
      count' == count && next == index + 1 && next < count
  | payloadConstructed, dispatched => true
  | dispatching index count, dispatched => index + 1 == count
  | dispatched, decided _ => true
  | decided verdict, finished exit => verdict.exit == exit
  | _, _ => false

/-- One invocation of a hook, with the phases visited after it was entered, in order. -/
structure Invocation where
  hook : String
  later : List Phase
  deriving DecidableEq

namespace Invocation

/-- An invocation that has just been entered. -/
def enter (hook : String) : Invocation := ⟨hook, []⟩

/-- Every phase visited, in order. -/
def history (i : Invocation) : List Phase :=
  .entered :: i.later

/-- The current phase. -/
def phase (i : Invocation) : Phase :=
  i.later.getLast?.getD .entered

/-- The exit that was taken, once the invocation is finished. -/
def exit? (i : Invocation) : Option Exit :=
  match i.phase with
  | .finished exit => some exit
  | _ => none

/-- Whether the invocation is finished. -/
def isFinished (i : Invocation) : Bool :=
  i.exit?.isSome

/-- Goes on to a phase, if it may follow the current one. -/
def advance (i : Invocation) (target : Phase) : Except InvalidTransition Invocation :=
  if i.phase.mayPrecede target then .ok { i with later := i.later ++ [target] }
  else .error ⟨i.phase, target⟩

/-- Takes the exit that the verdict implies. -/
def finish (i : Invocation) : Except InvalidTransition Invocation :=
  match i.phase with
  | .decided verdict => i.advance (.finished verdict.exit)
  | source => .error ⟨source, .finished .continuation⟩

end Invocation

end HookSplice.Event
