import AppHost.Execution.Unit
/-! What a running program asks of its host, and what it is told. The instructions in between
are not modelled: a program is the sequence of its requests. -/
namespace AppHost

open Memory

/-- An address in a program. Addresses that only the host knows are named by where they come
from. -/
inductive Operand where
  | literal (address : Word)
  /-- The base of the n-th region granted so far, plus an offset. -/
  | granted (n : Nat) (offset : Word)
  | entry (offset : Word)
  deriving DecidableEq, Repr

inductive Action where
  | yield
  | schedYield
  | delayMillis (millis : Int)
  | delayMicros (micros : Int)
  | usleep (micros : Nat)
  | memMap (length align : Word) (executable : Bool)
  | memUnmap (at_ : Operand)
  | exit (code : Int32)
  | uptime
  | enter
  | yieldNow
  | sleep (micros : Nat)
  | exitCode
  | active
  | activate (pid : Pid)
  | deactivate
  | setResume (point : ResumePoint)
  | resumePoint
  | pid
  | mapped
  | read (at_ : Operand) (length : Word)
  | write (at_ : Operand) (bytes : Bytes)
  | describe
  deriving DecidableEq, Repr

def Action.buffers : Action → List Nat
  | .read _ length => [Arena.readBuffer length]
  | _ => []

inductive Reply where
  | nothing
  | number (n : Int)
  | address (a : Word)
  | truth (b : Bool)
  | code (code : Option Int32)
  | process (pid : Option Pid)
  | point (point : Option ResumePoint)
  | mappings (all : List Mapping)
  | bytes (outcome : Except AccessError Bytes)
  | stored (outcome : Except AccessError Unit)
  | texts (all : List String)

inductive Suspension where
  | yield
  | sleep (seconds nanoseconds : Nat)
  deriving DecidableEq, Repr

def Suspension.ofMicros (micros : Nat) : Suspension :=
  .sleep (micros / 1000000) (micros % 1000000 * 1000)

structure Program where
  actions : List Action
  result : Int32
  deriving DecidableEq, Repr

end AppHost
