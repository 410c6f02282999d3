import AppHost.Capability.Catalog
import AppHost.Execution.Context
import AppHost.Host.Error
import AppHost.Linkage.Event
/-! What a host reports: the events of its parts, and the steps of launching and ending
programs. -/
namespace AppHost

open Memory (ResumePoint)

inductive ExitReason where
  | returned (code : Int32)
  | exited (code : Int32)
  deriving DecidableEq, Repr

def ExitReason.code : ExitReason → Int32
  | .returned code => code
  | .exited code => code

inductive HostEvent where
  | link (e : LinkEvent)
  | catalog (e : CatalogEvent)
  | context (e : ContextEvent)
  | cannotOpen (path : String) (cause : FileError)
  | libraryMissing (name : String)
  | cycleFound (name : String)
  | notReady (pid : Pid)
  | starting (pid : Pid) (entry : Word)
  | taskRequested (name : String) (stackBytes : Nat)
  | taskRefused (pid : Pid) (reason : String)
  | startFailed (name : String) (cause : LaunchError)
  | resumePointAsked (pid : Pid) (active : Option Pid)
  | executing (pid : Pid) (active : Option Pid) (point : Option ResumePoint) (entry : Word)
      (argv envp : List String)
  | ended (pid : Pid) (code : Int32)
  /-- The exit hook ran, with so many raw allocations outstanding in all arenas. -/
  | hookRan (pid : Pid) (reason : ExitReason) (live : Nat)

def HostEvent.buffers : HostEvent → List Nat
  | .context (.performed action _) => action.buffers
  | _ => []

def HostEvent.log? : HostEvent → Option LogLine
  | .link e => e.log?
  | .catalog e => some e.log
  | .context e => e.log?
  | .cannotOpen path cause =>
    some ⟨.error, "badgert: cannot open " ++ path ++ ": " ++ cause.message⟩
  | .libraryMissing name => some ⟨.error, "badgert: library not found: " ++ name⟩
  | .cycleFound name => some ⟨.error, "badgert: dependency cycle through " ++ name⟩
  | .notReady pid =>
    some ⟨.error, "badgert: pid " ++ toString pid.toNat ++ " is not ready to run"⟩
  | .starting pid entry =>
    some ⟨.info, "badgert: starting pid " ++ toString pid.toNat ++ " at " ++ Text.address entry⟩
  | .taskRefused pid reason =>
    some ⟨.error, "badgert: failed to create task for pid " ++ toString pid.toNat ++ ": " ++ reason⟩
  | .startFailed name cause =>
    some ⟨.error, "badgert: failed to start " ++ name ++ ": " ++ cause.message⟩
  | .ended pid code =>
    some ⟨.info, "badgert: process " ++ toString pid.toNat ++ " exited with code " ++
      toString code.toInt⟩
  | _ => none

end AppHost
