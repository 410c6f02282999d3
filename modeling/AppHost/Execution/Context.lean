import AppHost.Execution.Action
import AppHost.Log
/-! The context in which a process calls the host. Giving up the unit lets other tasks change
what is bound to it, so every return from a suspension binds the process again. The first exit
code stays; later exits only repeat the transfer to the resume point. -/
namespace AppHost

open Memory

inductive ContextEvent where
  | suspended (how : Suspension)
  | resumed (pid : Pid) (point : ResumePoint) (code : Int32)
  | exitUnrecorded (pid : Pid) (code : Int32)
  | exitUnresumable (pid : Pid) (code : Int32)
  | mapRefused (pid : Pid) (length align : Word) (cause : MapError)
  | unmapUnknown (pid : Pid) (base : Word)
  | performed (action : Action) (reply : Reply)

def ContextEvent.log? : ContextEvent → Option LogLine
  | .exitUnrecorded pid code =>
    some ⟨.warn, "abi: pid " ++ toString pid.toNat ++ " exited with " ++ toString code.toInt ++
      " before a resume point was recorded"⟩
  | .exitUnresumable pid code =>
    some ⟨.warn, "abi: pid " ++ toString pid.toNat ++ " exited with " ++ toString code.toInt ++
      " but nothing can resume it"⟩
  | .mapRefused pid length align cause =>
    some ⟨.warn, "abi: pid " ++ toString pid.toNat ++ " mem_map(" ++ toString length.toNat ++
      ", " ++ toString align.toNat ++ ") failed: " ++ cause.message⟩
  | .unmapUnknown pid base =>
    some ⟨.warn, "abi: pid " ++ toString pid.toNat ++ " mem_unmap(" ++ Text.address base ++
      ") of unknown range"⟩
  | _ => none

structure Context (σ : Type) where
  arena : Arena σ
  unit : ExecUnit
  /-- What other tasks do to the unit while this one is suspended. -/
  others : ExecUnit → ExecUnit
  /-- Whether an exit has somewhere to transfer control to. -/
  resumable : Bool
  exitCode : Option Int32
  entry : Word
  granted : List Word
  journal : List ContextEvent

namespace Context

variable {σ : Type}

def pid (c : Context σ) : Pid := c.arena.pid

def note (c : Context σ) (e : ContextEvent) : Context σ := { c with journal := c.journal ++ [e] }

def enter (c : Context σ) : Context σ := { c with unit := c.unit.activate c.pid }

def suspend (c : Context σ) (how : Suspension) : Context σ :=
  enter { c.note (.suspended how) with unit := c.others c.unit }

def exit (c : Context σ) (code : Int32) : Context σ :=
  let code := c.exitCode.getD code
  let c := { c with exitCode := some code }
  match c.arena.resume, c.resumable with
  | some point, true => c.note (.resumed c.pid point code)
  | none, _ => c.note (.exitUnrecorded c.pid code)
  | some _, false => c.note (.exitUnresumable c.pid code)

def address (c : Context σ) : Operand → Word
  | .literal a => a
  | .granted n offset => c.granted.getD n 0 + offset
  | .entry offset => c.entry + offset

def description (c : Context σ) : List String :=
  ["AbiContext \x7b pid: Pid(" ++ toString c.pid.toNat ++ "), .. \x7d",
    "ExecUnit \x7b active: " ++ toString c.unit.bound.toNat ++ " \x7d"]

variable [Allocator σ]

/-- Maps memory for the application: the base, or zero when refused. -/
def memMap (c : Context σ) (length align : Word) (executable : Bool) : Word × Context σ :=
  match c.arena.map length { Protection.readWrite with execute := executable } align with
  | (.ok base, arena) => (base, { c with arena, granted := c.granted ++ [base] })
  | (.error e, arena) => (0, { c with arena }.note (.mapRefused c.pid length align e))

def memUnmap (c : Context σ) (base : Word) : Context σ :=
  match c.arena.unmap? base with
  | some arena => { c with arena }
  | none => c.note (.unmapUnknown c.pid base)

def perform (c : Context σ) : Action → Reply × Context σ
  | .yield | .yieldNow => (.nothing, c.suspend .yield)
  | .schedYield => (.number 0, c.suspend .yield)
  | .delayMillis millis =>
    (.nothing, if millis < 0 then c else c.suspend (.ofMicros (millis.toNat * 1000)))
  | .delayMicros _ => (.nothing, c)
  | .usleep micros => (.number 0, c.suspend (.ofMicros micros))
  | .sleep micros => (.nothing, c.suspend (.ofMicros micros))
  | .memMap length align executable =>
    let (base, c) := c.memMap length align executable
    (.address base, c)
  | .memUnmap at_ => (.nothing, c.memUnmap (c.address at_))
  | .exit code => (.nothing, c.exit code)
  | .uptime => (.truth true, c)
  | .enter => (.nothing, c.enter)
  | .exitCode => (.code c.exitCode, c)
  | .active => (.process c.unit.active?, c)
  | .activate pid => (.nothing, { c with unit := c.unit.activate pid })
  | .deactivate => (.nothing, { c with unit := c.unit.deactivate })
  | .setResume point => (.nothing, { c with arena := c.arena.setResume point })
  | .resumePoint => (.point c.arena.resume, c)
  | .pid => (.process (some c.pid), c)
  | .mapped => (.mappings c.arena.mapped, c)
  | .read at_ length => (.bytes (c.arena.read (c.address at_) length), c)
  | .write at_ bytes =>
    match c.arena.write (c.address at_) bytes with
    | .ok arena => (.stored (.ok ()), { c with arena })
    | .error e => (.stored (.error e), c)
  | .describe => (.texts c.description, c)

def request (c : Context σ) (action : Action) : Fate (Reply × Context σ) :=
  let result := c.perform action
  .taking (result.2.arena.buffersSince c.arena ++ action.buffers) result

def run (c : Context σ) : List Action → Context σ
  | [] => c
  | action :: rest =>
    let (reply, c) := c.perform action
    run (c.note (.performed action reply)) rest

end Context

end AppHost
