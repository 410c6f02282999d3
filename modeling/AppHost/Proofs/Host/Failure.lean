import AppHost.Proofs.Host.Identifiers
import AppHost.Proofs.Host.Preparing
/-! What is left of a launch that fails. Nothing of its own is; but the identifier that it was given
may have come round, and then the record of the process that has it goes with the launch. -/
namespace AppHost

open Memory

namespace Host

variable {σ γ : Type} [Allocator σ] [CodeGenerator γ] {h after : Host σ γ}

end Host

end AppHost
