import ProseMap.Json.Basic

/-!
# Log events

What the library reports while it works: a level, a message and named fields.
-/

namespace ProseMap

/-- How much an event matters. -/
inductive Level where
  | trace
  | debug
  | warn
deriving DecidableEq, Repr

namespace Level

def name : Level → String
  | .trace => "trace"
  | .debug => "debug"
  | .warn => "warn"

end Level

/-- One entry of the log. -/
structure Event where
  level : Level
  message : String
  fields : List (String × Json)

end ProseMap
