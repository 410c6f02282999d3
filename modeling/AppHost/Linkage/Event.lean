import AppHost.Log
import AppHost.Object.Format
/-! What loading and linking report as they go. -/
namespace AppHost

inductive LinkEvent where
  | parsed (module : String)
  | redefined (module symbol : String) (previous : Word) (policy : CollisionPolicy)
  | loaded (module : String) (base offset : Word)
  | relocating (module : String) (format : ObjectFormat)
  | failed (module : String) (cause : LoadError)
  deriving DecidableEq, Repr

def CollisionPolicy.name : CollisionPolicy → String
  | .lastWins => "LastWins"
  | .firstWins => "FirstWins"

def LinkEvent.log? : LinkEvent → Option LogLine
  | .parsed _ => none
  | .redefined module symbol previous policy =>
    some ⟨.warn, "loader: " ++ module ++ ": symbol `" ++ symbol ++ "` already defined at " ++
      Text.address previous ++ " (" ++ policy.name ++ ")"⟩
  | .loaded module base offset =>
    some ⟨.info, "loader: " ++ module ++ " loaded to " ++ Text.wideAddress base ++
      " (offset " ++ Text.wideAddress offset ++ ")"⟩
  | .relocating .. => none
  | .failed module cause =>
    some ⟨.error, "loader: dynamic linking failed in " ++ module ++ ": " ++ cause.message⟩

end AppHost
