import MailQueue.Value.Reading

/-!
# Health

What a store or a scheduler says of its state, and the two together.

* `HealthReport.ok`, `notBound`, `unavailable` and `error` are the four reports;
* `QueueHealth.code` is the worse of the two codes.
-/

namespace MailQueue

inductive HealthStatus where
  | ok
  /-- No queue uses the store yet. -/
  | notBound
  | unavailable
  | error
  deriving DecidableEq, Repr

namespace HealthStatus

def names : List (String × HealthStatus) :=
  [("ok", ok), ("not_bound", notBound), ("unavailable", unavailable), ("error", error)]

def name : HealthStatus → String
  | ok => "ok"
  | notBound => "not_bound"
  | unavailable => "unavailable"
  | error => "error"

end HealthStatus

/-- A report, with a code as of a web server. -/
structure HealthReport where
  status : HealthStatus
  code : Nat
  detail : Option String
  deriving DecidableEq, Repr

namespace HealthReport

/-- All is well. -/
def ok : HealthReport := ⟨.ok, 200, none⟩

/-- No queue uses the store yet. -/
def notBound : HealthReport :=
  ⟨.notBound, 503, some "mail queue not yet bound to the storage adapter"⟩

/-- There, but of no use for now. -/
def unavailable (detail : String) : HealthReport := ⟨.unavailable, 503, some detail⟩

def error (detail : String) : HealthReport := ⟨.error, 500, some detail⟩

/-- Whether the report says that all is well; its code does not matter. -/
def isOk (r : HealthReport) : Bool := r.status == .ok

def toValue (r : HealthReport) : Value :=
  .object <| [("status", .text r.status.name), ("code", .nat r.code)] ++
    (r.detail.map fun s => ("detail", Value.text s)).toList

/-- Reads the persisted form; unknown keys are passed over. -/
def ofValue (v : Value) : Except ReadError HealthReport := do
  let es ← Reading.record ["status", "code", "detail"] 1 v
  return {
    status := ← Reading.required (Reading.variant HealthStatus.names) es "status"
    code := ← Reading.required (Reading.below UInt16.size) es "code"
    detail := ← Reading.optional Reading.text es "detail" }

end HealthReport

/-- The health of a store, and of the scheduler once there is one. -/
structure QueueHealth where
  store : HealthReport
  scheduler : Option HealthReport
  deriving DecidableEq, Repr

namespace QueueHealth

def isOk (h : QueueHealth) : Bool :=
  h.store.isOk && match h.scheduler with
    | some s => s.isOk
    | none => true

/-- The worse of the codes. -/
def code (h : QueueHealth) : Nat :=
  match h.scheduler with
  | some s => max s.code h.store.code
  | none => h.store.code

def toValue (h : QueueHealth) : Value :=
  .object <| [("store", h.store.toValue)] ++
    (h.scheduler.map fun s => ("scheduler", s.toValue)).toList

end QueueHealth

end MailQueue
