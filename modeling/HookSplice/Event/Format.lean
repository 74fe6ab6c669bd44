import HookSplice.Event.Bus
import HookSplice.Json.Decode

/-!
# The JSON format of events

How values, payloads, invocations and reports of dispatches are written as JSON values, and how
values and the names of payload kinds and fields are found in one.
-/

namespace HookSplice

namespace Value

/-- A value as JSON; an object is given by its handle. -/
def toJson : Value → Json
  | null => .null
  | int n => .integer n.toInt
  | text s => .str s
  | object id => .obj [("ref", .nat id.index)]

/-- The value in a JSON value. -/
def ofJson? (j : Json) : Option Value :=
  match j, j.variant? with
  | .null, _ => some null
  | .integer .., _ => j.int64?.map int
  | .text s, _ => s.map text
  | _, some ("ref", some n) => n.natural?.map fun n => object ⟨n⟩
  | _, _ => none

end Value

namespace Event

/-- The kind of a payload in a JSON value. -/
def PayloadKind.ofJson? (j : Json) : Option PayloadKind :=
  j.unit?.bind fun name => PayloadKind.all.find? fun k => k.display == name

/-- The name of a payload field in the format. -/
def PayloadField.jsonName : PayloadField → String
  | .subject => "subject"
  | .target => "target"
  | .amount => "amount"
  | .value => "value"
  | .allowed => "allowed"

/-- The payload field in a JSON value. -/
def PayloadField.ofJson? (j : Json) : Option PayloadField :=
  j.unit?.bind fun name => PayloadField.all.find? fun f => f.jsonName == name

/-- A payload as JSON, the values in the order of its fields. -/
def Payload.toJson (p : Payload) : Json :=
  .obj [("kind", .str p.kind.display), ("values", .array (p.values.map Value.toJson)),
    ("allowed", .bool p.isAllowed), ("verdict", .str p.verdict.display)]

/-- The name of an exit in the format. -/
def Exit.jsonName : Exit → String
  | .continuation => "original_continuation"
  | .earlyExit => "early_exit"

/-- A phase as JSON. -/
def Phase.toJson : Phase → Json
  | .entered => .str "entered"
  | .payloadConstructed => .str "payload_constructed"
  | .dispatching index count =>
      .obj [("dispatching", .obj [("index", .nat index), ("of", .nat count)])]
  | .dispatched => .str "dispatched"
  | .decided v => .obj [("decided", .str v.display)]
  | .finished e => .obj [("finished", .str e.jsonName)]

/-- An invocation as JSON, its history in words. -/
def Invocation.toJson (i : Invocation) : Json :=
  .obj [("hook", .str i.hook), ("history", .array (i.history.map fun p => .str p.display)),
    ("phase", i.phase.toJson), ("exit", .ofText? (i.exit?.map Exit.jsonName)),
    ("finished", .bool i.isFinished)]

/-- A failure as JSON. -/
def Failure.toJson (f : Failure) : Json :=
  .obj [("subscription", .nat f.subscription), ("position", .nat f.position),
    ("reason", .str f.reason)]

/-- The members of a dispatch report. -/
def DispatchReport.members (r : DispatchReport) : List (String × Json) :=
  [("hook", .str r.hook), ("delivered", .nat r.delivered),
    ("failures", .array (r.failures.map Failure.toJson)), ("verdict", .str r.verdict.display)]

/-- A dispatch report as JSON. -/
def DispatchReport.toJson (r : DispatchReport) : Json :=
  .obj r.members

/-- The members that describe a delivery: its report with the successes counted, and the payload
    that the subscribers left. -/
def Delivery.members (d : Delivery) : List (String × Json) :=
  [("report", .obj (d.report.members ++ [("succeeded", .nat d.report.succeeded)])),
    ("payload", d.payload.toJson)]

/-- An entry of a journal as JSON. -/
def InvocationRecord.toJson (r : InvocationRecord) : Json :=
  .obj [("hook", .str r.hook), ("phases", .array (r.phases.map Phase.toJson)),
    ("exit", .str r.exit.jsonName), ("report", r.report.toJson)]

end Event

end HookSplice
