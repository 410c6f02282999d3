import AppHost.Memory.Error
import AppHost.Memory.Region
import Mathlib.Data.List.Basic
/-! Memory as its clients know it: ranges apart from each other, each with bytes of its own. Where
a new range lies, and whether there is room for it, is not determined here; everything else is. -/
namespace AppHost.Memory

@[ext]
structure Extent where
  base : Word
  bytes : Bytes
  deriving DecidableEq, Repr

namespace Extent

def Holds (e : Extent) (x : ℕ) : Prop :=
  e.base.toNat ≤ x ∧ x < e.base.toNat + e.bytes.length

def Covers (e : Extent) (address length : ℕ) : Prop :=
  e.base.toNat ≤ address ∧ address + length ≤ e.base.toNat + e.bytes.length

def Apart (e f : Extent) : Prop := ∀ x, e.Holds x → ¬ f.Holds x

def slice (e : Extent) (address length : ℕ) : Bytes :=
  (e.bytes.drop (address - e.base.toNat)).take length

def overlay (e : Extent) (address : ℕ) (bytes : Bytes) : Extent :=
  let before := address - e.base.toNat
  { e with bytes := e.bytes.take before ++ bytes ++ e.bytes.drop (before + bytes.length) }

theorem Covers.holds {e : Extent} {address length : ℕ} (h : e.Covers address length)
    (pos : 0 < length) : e.Holds address := by
  unfold Covers at h
  unfold Holds
  omega

theorem length_overlay {e : Extent} {address : ℕ} {bytes : Bytes}
    (h : e.Covers address bytes.length) :
    (e.overlay address bytes).bytes.length = e.bytes.length := by
  unfold Covers at h
  simp only [overlay, List.length_append, List.length_take, List.length_drop]
  omega

theorem holds_overlay {e : Extent} {address : ℕ} {bytes : Bytes}
    (h : e.Covers address bytes.length) (x : ℕ) :
    (e.overlay address bytes).Holds x ↔ e.Holds x := by
  unfold Holds
  rw [length_overlay h]
  exact Iff.rfl

theorem getElem?_overlay {e : Extent} {address : ℕ} {bytes : Bytes}
    (h : e.Covers address bytes.length) (i : ℕ) :
    (e.overlay address bytes).bytes[i]? =
      if address ≤ e.base.toNat + i ∧ e.base.toNat + i < address + bytes.length
        then bytes[e.base.toNat + i - address]? else e.bytes[i]? := by
  unfold Covers at h
  have before : (e.bytes.take (address - e.base.toNat)).length = address - e.base.toNat := by
    rw [List.length_take]
    omega
  simp only [overlay, List.append_assoc]
  by_cases below : i < address - e.base.toNat
  · rw [if_neg (by omega), List.getElem?_append_left (by omega), List.getElem?_take_of_lt below]
  · rw [List.getElem?_append_right (by omega), before]
    by_cases inside : e.base.toNat + i < address + bytes.length
    · rw [if_pos (by omega), List.getElem?_append_left (by omega)]
      congr 1
      omega
    · rw [if_neg (by omega), List.getElem?_append_right (by omega), List.getElem?_drop]
      congr 1
      omega

end Extent

inductive Request where
  | map (minLength : Word) (prot : Protection) (minAlign : Word)
  | unmap (base : Word)
  | write (address : Word) (bytes : Bytes)
  | read (address length : Word)
  deriving DecidableEq, Repr

def Request.Storable : Request → Prop
  | .write _ bytes => bytes.length < 2 ^ 64
  | .map .. | .unmap _ | .read .. => True

instance : (q : Request) → Decidable q.Storable
  | .write _ bytes => inferInstanceAs (Decidable (bytes.length < 2 ^ 64))
  | .map .. | .unmap _ | .read .. => inferInstanceAs (Decidable True)

inductive Reply where
  | mapped (answer : Except MapError Word)
  | unmapped (found : Bool)
  | written (answer : Except AccessError Unit)
  | bytes (answer : Except AccessError Bytes)
  deriving DecidableEq

/-- Why an access to at least one byte is refused. -/
inductive Faults (memory : List Extent) (address length : Word) : AccessError → Prop where
  | unmapped (outside : ∀ e ∈ memory, ¬ e.Holds address.toNat) :
      Faults memory address length (.unmapped address)
  | outOfBounds (known : ∃ e ∈ memory, e.Holds address.toNat)
      (beyond : ∀ e ∈ memory, ¬ e.Covers address.toNat length.toNat) :
      Faults memory address length (.outOfBounds address length)

/-- How a memory answers a request, and what it is afterwards. -/
inductive Answers : List Extent → Request → Reply → List Extent → Prop where
  | mapped {memory minLength prot minAlign base length}
      (long : minLength.toNat ≤ length) (pos : 0 < length)
      (fresh : ∀ e ∈ memory, e.Apart ⟨base, List.replicate length 0⟩) :
      Answers memory (.map minLength prot minAlign) (.mapped (.ok base))
        (memory ++ [⟨base, List.replicate length 0⟩])
  | noRoom {memory minLength prot minAlign error} :
      Answers memory (.map minLength prot minAlign) (.mapped (.error error)) memory
  | unmapped {before e after} :
      Answers (before ++ e :: after) (.unmap e.base) (.unmapped true) (before ++ after)
  | unknown {memory base} (missing : ∀ e ∈ memory, e.base ≠ base) :
      Answers memory (.unmap base) (.unmapped false) memory
  | wroteNothing {memory address} :
      Answers memory (.write address []) (.written (.ok ())) memory
  | wrote {before e after address bytes} (some_bytes : bytes ≠ [])
      (inside : e.Covers address.toNat bytes.length) :
      Answers (before ++ e :: after) (.write address bytes) (.written (.ok ()))
        (before ++ e.overlay address.toNat bytes :: after)
  | notWritten {memory address bytes error} (some_bytes : bytes ≠ [])
      (fault : Faults memory address (UInt64.ofNat bytes.length) error) :
      Answers memory (.write address bytes) (.written (.error error)) memory
  | readNothing {memory address} :
      Answers memory (.read address 0) (.bytes (.ok [])) memory
  | read {memory e address length} (mem : e ∈ memory) (pos : 0 < length.toNat)
      (inside : e.Covers address.toNat length.toNat) :
      Answers memory (.read address length)
        (.bytes (.ok (e.slice address.toNat length.toNat))) memory
  | notRead {memory address length error} (pos : 0 < length.toNat)
      (fault : Faults memory address length error) :
      Answers memory (.read address length) (.bytes (.error error)) memory

inductive AnswersAll : List Extent → List Request → List Reply → List Extent → Prop where
  | nil (memory) : AnswersAll memory [] [] memory
  | cons {memory between later q r requests replies} (first : Answers memory q r between)
      (rest : AnswersAll between requests replies later) :
      AnswersAll memory (q :: requests) (r :: replies) later

theorem Answers.apart {memory later : List Extent} {q : Request} {r : Reply}
    (h : Answers memory q r later) (apart : memory.Pairwise Extent.Apart) :
    later.Pairwise Extent.Apart := by
  cases h with
  | mapped _ _ fresh =>
    refine List.pairwise_append.mpr ⟨apart, List.pairwise_singleton _ _, fun e he f hf => ?_⟩
    cases List.mem_singleton.mp hf
    exact fresh e he
  | unmapped =>
    exact apart.sublist ((List.sublist_cons_self _ _).append_left _)
  | @wrote before e after address bytes some_bytes inside =>
    have same := Extent.holds_overlay inside
    obtain ⟨front, back, across⟩ := List.pairwise_append.mp apart
    obtain ⟨first, back⟩ := List.pairwise_cons.mp back
    refine List.pairwise_append.mpr ⟨front, List.pairwise_cons.mpr ⟨?_, back⟩, ?_⟩
    · intro f hf x hx
      exact first f hf x ((same x).mp hx)
    · intro f hf g hg
      rcases List.mem_cons.mp hg with rfl | hg
      · intro x hx hg
        exact across f hf e List.mem_cons_self x hx ((same x).mp hg)
      · exact across f hf g (List.mem_cons_of_mem e hg)
  | noRoom | unknown | wroteNothing | notWritten | readNothing | read | notRead => exact apart

theorem AnswersAll.apart {memory later : List Extent} {requests : List Request}
    {replies : List Reply} (h : AnswersAll memory requests replies later)
    (apart : memory.Pairwise Extent.Apart) : later.Pairwise Extent.Apart := by
  induction h with
  | nil => exact apart
  | cons first _ ih => exact ih (first.apart apart)

/-- The answer to an access is settled by where its span lies among the ranges. -/
structure Decides {α : Type} (memory : List Extent) (address length : Word)
    (answer : Except AccessError α) : Prop where
  succeeds : (∃ x, answer = .ok x) ↔ ∃ e ∈ memory, e.Covers address.toNat length.toNat
  unmapped : answer = .error (.unmapped address) ↔ ∀ e ∈ memory, ¬ e.Holds address.toNat
  outOfBounds : answer = .error (.outOfBounds address length) ↔
    (∃ e ∈ memory, e.Holds address.toNat) ∧
      ∀ e ∈ memory, ¬ e.Covers address.toNat length.toNat

theorem Decides.of_map {α β : Type} {f : α → β} {memory : List Extent} {address length : Word}
    {answer : Except AccessError α} (h : Decides memory address length (answer.map f)) :
    Decides memory address length answer := by
  constructor
  · rw [← h.succeeds]
    cases answer <;> simp [Except.map]
  · rw [← h.unmapped]
    cases answer <;> simp [Except.map]
  · rw [← h.outOfBounds]
    cases answer <;> simp [Except.map]

section Access

variable {α : Type} {memory : List Extent} {address length : Word}

theorem decides_of_covers {e : Extent} (mem : e ∈ memory) (pos : 0 < length.toNat)
    (inside : e.Covers address.toNat length.toNat) (x : α) :
    Decides memory address length (.ok x) := by
  constructor
  · exact ⟨fun _ => ⟨e, mem, inside⟩, fun _ => ⟨x, rfl⟩⟩
  · constructor
    · intro no
      cases no
    · intro outside
      exact absurd (inside.holds pos) (outside e mem)
  · constructor
    · intro no
      cases no
    · rintro ⟨-, beyond⟩
      exact absurd inside (beyond e mem)

theorem Faults.decides {error : AccessError} (h : Faults memory address length error)
    (pos : 0 < length.toNat) : Decides (α := α) memory address length (.error error) := by
  cases h with
  | unmapped outside =>
    constructor
    · constructor
      · rintro ⟨x, no⟩
        cases no
      · rintro ⟨e, mem, inside⟩
        exact absurd (inside.holds pos) (outside e mem)
    · exact ⟨fun _ => outside, fun _ => rfl⟩
    · constructor
      · intro no
        cases no
      · rintro ⟨⟨e, mem, holds⟩, -⟩
        exact absurd holds (outside e mem)
  | outOfBounds known beyond =>
    constructor
    · constructor
      · rintro ⟨x, no⟩
        cases no
      · rintro ⟨e, mem, inside⟩
        exact absurd inside (beyond e mem)
    · constructor
      · intro no
        cases no
      · intro outside
        obtain ⟨e, mem, holds⟩ := known
        exact absurd holds (outside e mem)
    · exact ⟨fun _ => ⟨known, beyond⟩, fun _ => rfl⟩

theorem Answers.read_decides {answer : Except AccessError Bytes} {later : List Extent}
    (h : Answers memory (.read address length) (.bytes answer) later) (pos : 0 < length.toNat) :
    Decides memory address length answer := by
  cases h with
  | readNothing => exact absurd pos (by decide)
  | read mem _ inside => exact decides_of_covers mem pos inside _
  | notRead _ fault => exact fault.decides pos

theorem Answers.write_decides {bytes : Bytes} {answer : Except AccessError Unit}
    {later : List Extent} (h : Answers memory (.write address bytes) (.written answer) later)
    (some_bytes : bytes ≠ []) (short : bytes.length < 2 ^ 64) :
    Decides memory address (UInt64.ofNat bytes.length) answer := by
  have size := UInt64.toNat_ofNat_of_lt' short
  have pos : 0 < (UInt64.ofNat bytes.length).toNat := by
    rw [size]
    exact List.length_pos_iff.mpr some_bytes
  cases h with
  | wroteNothing => exact absurd rfl some_bytes
  | wrote _ inside =>
    rw [← size] at inside
    exact decides_of_covers (List.mem_append_right _ List.mem_cons_self) pos inside ()
  | notWritten _ fault => exact fault.decides pos

end Access

end AppHost.Memory
