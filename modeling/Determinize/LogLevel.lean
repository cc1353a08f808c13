import Determinize.Event
import Determinize.Raw.Order
import Determinize.Text.UpperCase
/-!
# The log level

How much of the log is shown is named by a variable of the environment. Case and white space
around the name do not count. A name that is unknown is replaced by the default, and the
replacement is reported, so that a slip of the pen does not stop the program.

## Main definitions

* `LogLevel.known` — the names there are
* `LogLevel.choose` — the level that an environment asks for, and its log
-/

namespace Determinize

namespace LogLevel

/-- The variable that names the level. -/
def variableName : String := "NFA2DFA_LOG_LEVEL"

/-- The level that is used where nothing else is said. -/
def usual : Raw := .str "WARNING"

/-- The names there are. -/
def known : List String :=
  ["CRITICAL", "FATAL", "ERROR", "WARN", "WARNING", "INFO", "DEBUG", "NOTSET"]

/-- The name of a level as it is looked up. -/
def nameOf : Raw → Except Fault String
  | .str s => .ok (Text.upper (Text.trim s))
  | x => .error (.noAttribute x.kind "strip")

/-- The variables set in an environment. Without an environment there are none. -/
def settings : Raw → Except Fault (List (String × Raw))
  | .null => .ok []
  | .record fields => .ok fields
  | x => .error (.noAttribute x.kind "get")

/-- The level that the environment asks for, and what is reported. -/
def choose (environment default : Raw) : Except Fault (Raw × List Event) := do
  let value := ((← settings environment).lookup variableName).getD default
  let name ← nameOf value
  if name ∈ known then return (.str name, [])
  return (default, [.unknownLevel name default.text])

end LogLevel

end Determinize
