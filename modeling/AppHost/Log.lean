/-! Log lines: a level and a text. -/
namespace AppHost

inductive LogLevel where
  | info
  | warn
  | error
  deriving DecidableEq, Repr

def LogLevel.name : LogLevel → String
  | .info => "INFO"
  | .warn => "WARN"
  | .error => "ERROR"

structure LogLine where
  level : LogLevel
  text : String
  deriving DecidableEq, Repr

def LogLine.render (l : LogLine) : String := l.level.name ++ " " ++ l.text

end AppHost
