import AppHost.Memory.Arena
/-! An execution unit and the process bound to it. The identifier zero stands for no process. -/
namespace AppHost

structure ExecUnit where
  bound : Pid
  deriving DecidableEq, Repr

namespace ExecUnit

def idle : ExecUnit := ⟨0⟩

def activate (_ : ExecUnit) (pid : Pid) : ExecUnit := ⟨pid⟩

def deactivate (_ : ExecUnit) : ExecUnit := idle

def active? (u : ExecUnit) : Option Pid := if u.bound = 0 then none else some u.bound

@[simp] theorem active?_activate (u : ExecUnit) (pid : Pid) :
    (u.activate pid).active? = if pid = 0 then none else some pid := rfl

@[simp] theorem active?_deactivate (u : ExecUnit) : u.deactivate.active? = none := rfl

end ExecUnit

end AppHost
