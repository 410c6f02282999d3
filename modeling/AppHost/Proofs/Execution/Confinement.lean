import AppHost.Execution.Context
import AppHost.Memory.Operation
/-! A program reaches the memory of its process through its context only, so whatever it asks for,
its arena sees operations and nothing else. -/
namespace AppHost.Context

open Memory

variable {σ : Type}

@[simp] theorem arena_note (c : Context σ) (e : ContextEvent) : (c.note e).arena = c.arena := rfl

@[simp] theorem arena_suspend (c : Context σ) (how : Suspension) :
    (c.suspend how).arena = c.arena := rfl

@[simp] theorem arena_exit (c : Context σ) (code : Int32) : (c.exit code).arena = c.arena := by
  unfold exit
  simp only
  split <;> rfl

variable [Allocator σ]

theorem memMap_eq (c : Context σ) (length align : Word) (executable : Bool) :
    let prot := { Protection.readWrite with execute := executable }
    (c.memMap length align executable).1 = (c.arena.map length prot align).1.toOption.getD 0 ∧
      (c.memMap length align executable).2.arena = (c.arena.map length prot align).2 := by
  intro prot
  unfold memMap
  split <;> rename_i h <;> rw [h]
  · exact ⟨rfl, rfl⟩
  · exact ⟨rfl, rfl⟩

theorem memMap_reaches (c : Context σ) (length align : Word) (executable : Bool) :
    c.arena.Reaches (c.memMap length align executable).2.arena := by
  rw [(c.memMap_eq length align executable).2]
  exact c.arena.reaches_perform (.map length _ align)

theorem memUnmap_reaches (c : Context σ) (base : Word) :
    c.arena.Reaches (c.memUnmap base).arena := by
  have unmapped := Arena.reaches_perform c.arena (.unmap base)
  rw [Arena.perform, Arena.release] at unmapped
  unfold memUnmap
  split <;> rename_i h <;> rw [h] at unmapped <;> exact unmapped

theorem perform_reaches (c : Context σ) (action : Action) :
    c.arena.Reaches (c.perform action).2.arena := by
  cases action with
  | memMap length align executable => exact c.memMap_reaches length align executable
  | memUnmap at_ => exact c.memUnmap_reaches (c.address at_)
  | setResume point => exact Arena.reaches_perform c.arena (.setResume point)
  | write at_ bytes =>
    simp only [perform]
    split
    · rename_i arena written
      exact ⟨[.write (c.address at_) bytes], (Arena.perform_write written).symm⟩
    · exact .refl c.arena
  | exit code =>
    simp only [perform, arena_exit]
    exact .refl c.arena
  | delayMillis millis =>
    simp only [perform]
    split <;> exact .refl c.arena
  | _ => exact .refl c.arena

theorem run_reaches (c : Context σ) (actions : List Action) :
    c.arena.Reaches (c.run actions).arena := by
  induction actions generalizing c with
  | nil => exact .refl c.arena
  | cons action rest ih =>
    have first := c.perform_reaches action
    exact first.trans (ih ((c.perform action).2.note (.performed action (c.perform action).1)))

end AppHost.Context
