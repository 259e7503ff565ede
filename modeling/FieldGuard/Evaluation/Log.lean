import FieldGuard.Evaluation.Trace

set_option autoImplicit false

namespace FieldGuard

inductive LogLevel where
  | trace
  | debug
  | info
  | error
  deriving DecidableEq

def LogLevel.display : LogLevel → String
  | .trace => "TRACE"
  | .debug => "DEBUG"
  | .info => "INFO"
  | .error => "ERROR"

structure LogLine where
  level : LogLevel
  fields : List (String × String)
  span : Option (String × List (String × String))

namespace Record

def logFields (record : Record) : Option (LogLevel × List (String × String)) :=
  let request := record.request.display
  match record.event with
  | .selected source rule =>
      some (.debug, [("message", "rule selected"), ("source", source.display), ("rule", rule)])
  | .lookup _ rule sharing hit =>
      some (.trace, [("message", "rule cache lookup"), ("rule", rule), ("cache", sharing.title),
        ("hit", toString hit), ("request", request)])
  | .invoking rule field =>
      some (.debug, [("message", "invoking predicate"), ("rule", rule), ("field", field)])
  | .decided decision =>
      some (.debug, [("message", "authorization decided"), ("decision", decision.display)])
  | .denied field message =>
      some (.info, [("message", "field access denied"), ("field", field), ("request", request),
        ("message", message)])
  | .faulted field fault =>
      some (.error, [("message", "rule evaluation failed"), ("field", field),
        ("request", request), ("error", fault.message)])
  | .predicate _ _ _ _ | .resolver _ => none

def spanFields (record : Record) : Option (String × List (String × String)) :=
  record.span.map fun site =>
    ("authorize", [("parent_type", site.parentType), ("field", site.fieldName),
      ("request", record.request.display)])

def logLine? (record : Record) : Option LogLine :=
  record.logFields.map fun (level, fields) => ⟨level, fields, record.spanFields⟩

def step? (record : Record) : Option (String × String) :=
  match record.event with
  | .predicate _ rule _ .called => some (rule, "call")
  | .predicate _ rule _ .stepped => some (rule, "step")
  | .predicate _ rule _ .finished => some (rule, "done")
  | .resolver field => some (field, "resolver")
  | _ => none

end Record

end FieldGuard
