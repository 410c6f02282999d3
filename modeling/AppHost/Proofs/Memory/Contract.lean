import AppHost.Memory.Audit
import Mathlib.Data.List.Perm.Basic
/-! What an arena relies on: every region its allocator gives out is aligned to words, as long as
asked, clear of the top of the address space, and apart from the regions live at that moment.
The contract is a property of the allocator's history, so it says nothing about allocators that
some other run would have shown to be broken. -/
namespace AppHost.Memory

namespace Region

def Holds (r : Region) (x : ℕ) : Prop :=
  r.base.toNat ≤ x ∧ x < r.base.toNat + r.length.toNat

def Apart (r s : Region) : Prop := ∀ x, r.Holds x → ¬ s.Holds x

def Within (r s : Region) : Prop :=
  s.base.toNat ≤ r.base.toNat ∧
    r.base.toNat + r.length.toNat ≤ s.base.toNat + s.length.toNat

def Representable (r : Region) : Prop := r.base.toNat + r.length.toNat < 2 ^ 64

theorem Apart.symm {r s : Region} (h : r.Apart s) : s.Apart r :=
  fun x hs hr => h x hr hs

theorem Within.holds {r s : Region} (h : r.Within s) {x : ℕ} (hx : r.Holds x) : s.Holds x := by
  unfold Within at h
  unfold Holds at *
  omega

theorem Apart.mono {r s p q : Region} (h : r.Apart s) (hp : p.Within r) (hq : q.Within s) :
    p.Apart q :=
  fun x hx hy => h x (hp.holds hx) (hq.holds hy)

theorem apart_iff (r s : Region) : r.Apart s ↔ r.length.toNat = 0 ∨ s.length.toNat = 0 ∨
    r.base.toNat + r.length.toNat ≤ s.base.toNat ∨
    s.base.toNat + s.length.toNat ≤ r.base.toNat := by
  constructor
  · intro h
    have hr := h r.base.toNat
    have hs := h s.base.toNat
    unfold Holds at hr hs
    omega
  · intro h x hr hs
    unfold Holds at hr hs
    omega

theorem Apart.base_ne {r s : Region} (h : r.Apart s) (hr : 0 < r.length.toNat)
    (hs : 0 < s.length.toNat) : r.base ≠ s.base := by
  intro eq
  have := (apart_iff r s).mp h
  rw [eq] at this
  omega

theorem covers_within {r s : Region} {address length : Word}
    (h : r.covers address length = true) (hw : r.Within s) (hs : s.Representable) :
    s.covers address length = true := by
  have limits := r.toNat_limit
  have limit := s.toNat_limit
  rw [covers_iff] at *
  unfold Within Representable at *
  omega

theorem holds_of_covers {r : Region} {address length : Word}
    (h : r.covers address length = true) (pos : 0 < length.toNat) : r.Holds address.toNat := by
  have limit := r.toNat_limit
  rw [covers_iff] at h
  unfold Holds
  omega

theorem covers_byte_iff (r : Region) (x : Word) :
    r.covers x 1 = true ↔ r.base.toNat ≤ x.toNat ∧ x.toNat < r.limit.toNat := by
  rw [covers_iff, show (1 : Word).toNat = 1 from rfl, Nat.add_one_le_iff]

theorem covers_byte_of_covers {r : Region} {address length : Word}
    (covers : r.covers address length = true) {i : ℕ} (hi : i < length.toNat) :
    address.toNat + i < 2 ^ 64 ∧
      r.covers (UInt64.ofNat (address.toNat + i)) 1 = true := by
  have top := r.limit.toNat_lt
  rw [covers_iff] at covers
  have small : address.toNat + i < 2 ^ 64 := by omega
  refine ⟨small, ?_⟩
  rw [covers_byte_iff, UInt64.toNat_ofNat_of_lt' small]
  omega

instance (r s : Region) : Decidable (r.Apart s) := decidable_of_iff _ (apart_iff r s).symm

instance (r s : Region) : Decidable (r.Within s) := inferInstanceAs (Decidable (_ ∧ _))

instance (r : Region) : Decidable r.Representable := inferInstanceAs (Decidable (_ < _))

end Region

/-- A region that answers a request for `size` bytes while others are live. -/
structure Fits (size : Word) (r : Region) (live : List Region) : Prop where
  aligned : 8 ∣ r.base.toNat
  long : size.toNat ≤ r.length.toNat
  representable : r.Representable
  apart : ∀ other ∈ live, r.Apart other

instance (size : Word) (r : Region) (live : List Region) : Decidable (Fits size r live) :=
  decidable_of_iff (8 ∣ r.base.toNat ∧ size.toNat ≤ r.length.toNat ∧ r.Representable ∧
    ∀ other ∈ live, r.Apart other)
    ⟨fun ⟨h, i, j, k⟩ => ⟨h, i, j, k⟩, fun ⟨h, i, j, k⟩ => ⟨h, i, j, k⟩⟩

namespace AllocatorEvent

/-- A property of each event of a history, given the regions live just before it. -/
def Throughout (P : List Region → AllocatorEvent → Prop) :
    List Region → List AllocatorEvent → Prop
  | _, [] => True
  | live, e :: rest => P live e ∧ Throughout P (account live e) rest

/-- What is asked of the allocator: that the regions it gives out fit. -/
def Granting (live : List Region) : AllocatorEvent → Prop
  | .granted size r => Fits size r live
  | .released _ => True

/-- What is asked of its client: that it gives back live regions only. -/
def Releasing (live : List Region) : AllocatorEvent → Prop
  | .granted .. => True
  | .released r => r ∈ live

theorem throughout_append {P : List Region → AllocatorEvent → Prop} (live : List Region)
    (first second : List AllocatorEvent) : Throughout P live (first ++ second) ↔
      Throughout P live first ∧ Throughout P (first.foldl account live) second := by
  induction first generalizing live with
  | nil => simp [Throughout]
  | cons e rest ih => simp [Throughout, ih, and_assoc]

instance decidableThroughout (P : List Region → AllocatorEvent → Prop)
    [∀ live e, Decidable (P live e)] :
    (live : List Region) → (events : List AllocatorEvent) → Decidable (Throughout P live events)
  | _, [] => inferInstanceAs (Decidable True)
  | live, e :: rest =>
    have := decidableThroughout P (account live e) rest
    inferInstanceAs (Decidable (_ ∧ _))

instance (live : List Region) : (e : AllocatorEvent) → Decidable (Granting live e)
  | .granted _ _ => inferInstanceAs (Decidable (Fits _ _ _))
  | .released _ => inferInstanceAs (Decidable True)

instance (live : List Region) : (e : AllocatorEvent) → Decidable (Releasing live e)
  | .granted _ _ => inferInstanceAs (Decidable True)
  | .released _ => inferInstanceAs (Decidable (_ ∈ _))

end AllocatorEvent

namespace Audited

open AllocatorEvent

variable {σ : Type}

def Kept (a : Audited σ) : Prop := Throughout Granting [] a.history

/-- Every region taken back was live, so none was taken back twice. -/
def Balanced (a : Audited σ) : Prop := Throughout Releasing [] a.history

instance (a : Audited σ) : Decidable a.Kept := inferInstanceAs (Decidable (Throughout _ _ _))

instance (a : Audited σ) : Decidable a.Balanced := inferInstanceAs (Decidable (Throughout _ _ _))

theorem live_snoc {a b : Audited σ} {e : AllocatorEvent} (h : b.history = a.history ++ [e]) :
    b.live = account a.live e := by
  simp [live, h]

theorem kept_snoc {a b : Audited σ} {e : AllocatorEvent} (h : b.history = a.history ++ [e]) :
    b.Kept ↔ a.Kept ∧ Granting a.live e := by
  simp [Kept, h, throughout_append, Throughout, live]

theorem balanced_snoc {a b : Audited σ} {e : AllocatorEvent} (h : b.history = a.history ++ [e]) :
    b.Balanced ↔ a.Balanced ∧ Releasing a.live e := by
  simp [Balanced, h, throughout_append, Throughout, live]

theorem throughout_releasing_perm {live : List Region} {events : List AllocatorEvent}
    (h : Throughout Releasing live events) :
    (live ++ events.filterMap (·.granted?)).Perm
      (events.filterMap (·.released?) ++ events.foldl account live) := by
  induction events generalizing live with
  | nil => simp
  | cons e rest ih =>
    obtain ⟨first, later⟩ := h
    cases e with
    | granted size r =>
      have perm := ih later
      simpa [account, granted?, released?] using perm
    | released r =>
      have apart : live.Perm (r :: live.erase r) := List.perm_cons_erase first
      have perm := (ih later).cons r
      simp only [List.filterMap_cons, granted?, released?, List.foldl_cons, account]
      exact (apart.append_right _).trans perm

theorem Balanced.perm {a : Audited σ} (h : a.Balanced) :
    a.granted.Perm (a.released ++ a.live) := by
  simpa [granted, released, live] using throughout_releasing_perm h

theorem Kept.of_prefix {a b : Audited σ} (h : b.Kept) (hp : a.history <+: b.history) : a.Kept := by
  obtain ⟨later, hl⟩ := hp
  unfold Kept at *
  rw [← hl] at h
  exact ((throughout_append _ _ _).mp h).1

end Audited

end AppHost.Memory
