import AppHost.Proofs.Memory.Contents
import AppHost.Proofs.Memory.Extent
/-! An arena is a memory of ranges apart from each other, one for each of its promises, as long as
its allocator keeps its contract and stores bytes. The two bounds checks, against the promise and
against the storage behind it, never disagree. -/
namespace AppHost.Memory.Arena

variable {σ : Type} [Allocator σ]

def serve (a : Arena σ) : Request → Reply × Arena σ
  | .map minLength prot minAlign =>
    (.mapped (a.map minLength prot minAlign).1, (a.map minLength prot minAlign).2)
  | .unmap base => (.unmapped (a.unmap? base).isSome, a.release base)
  | .write address bytes =>
    (.written ((a.write address bytes).map fun _ => ()), a.perform (.write address bytes))
  | .read address length => (.bytes (a.read address length), a)

def serveAll (a : Arena σ) : List Request → List Reply × Arena σ
  | [] => ([], a)
  | q :: rest =>
    let later := (a.serve q).2.serveAll rest
    ((a.serve q).1 :: later.1, later.2)

theorem reaches_serve (a : Arena σ) (q : Request) : a.Reaches (a.serve q).2 := by
  cases q with
  | map minLength prot minAlign => exact a.reaches_perform (.map minLength prot minAlign)
  | unmap base => exact a.reaches_perform (.unmap base)
  | write address bytes => exact a.reaches_perform (.write address bytes)
  | read address length => exact .refl a

theorem reaches_serveAll (a : Arena σ) (requests : List Request) :
    a.Reaches (a.serveAll requests).2 := by
  induction requests generalizing a with
  | nil => exact .refl a
  | cons q rest ih => exact (a.reaches_serve q).trans (ih (a.serve q).2)

def extentOf (s : σ) (r : Region) : Extent :=
  ⟨r.base, bytesFrom s r.base.toNat r.length.toNat⟩

/-- The memory that an arena stands for. -/
def extents (a : Arena σ) : List Extent := a.mapped.map fun m => extentOf a.allocator m.promise

theorem holds_extentOf (s : σ) (r : Region) (x : ℕ) : (extentOf s r).Holds x ↔ r.Holds x := by
  simp [extentOf, Extent.Holds, Region.Holds]

theorem slice_extentOf {s : σ} {r : Region} {address length : ℕ}
    (h : (extentOf s r).Covers address length) :
    (extentOf s r).slice address length = bytesFrom s address length := by
  unfold Extent.Covers at h
  simp only [extentOf, length_bytesFrom] at h
  refine List.ext_getElem? fun i => ?_
  simp only [Extent.slice, extentOf, List.getElem?_take, List.getElem?_drop, getElem?_bytesFrom]
  by_cases inside : i < length
  · rw [if_pos inside, if_pos inside, if_pos (by omega), ← Nat.add_assoc, Nat.add_sub_cancel' h.1]
  · rw [if_neg inside, if_neg inside]

variable {backs : σ → List Region → Prop} {a b : Arena (Audited σ)}

theorem mem_extents {m : Mapping} (hm : m ∈ a.mapped) :
    extentOf a.allocator m.promise ∈ a.extents :=
  List.mem_map_of_mem hm

theorem Sound.covers_extent (h : a.Sound) {m : Mapping} (hm : m ∈ a.mapped)
    {address length : Word} : m.promise.covers address length = true ↔
      (extentOf a.allocator m.promise).Covers address.toNat length.toNat := by
  rw [h.covers_iff hm]
  simp [extentOf, Extent.Covers]

theorem Sound.extents_apart (h : a.Sound) : a.extents.Pairwise Extent.Apart := by
  refine List.pairwise_map.mpr (h.promises_apart.imp fun {m n} apart x hm hn => ?_)
  exact apart x ((holds_extentOf _ _ x).mp hm) ((holds_extentOf _ _ x).mp hn)

/-- A span that lies in no single promise is refused for the reason that holds of its first byte. -/
theorem Sound.faults (h : a.Sound) {address length : Word}
    (beyond : ∀ m ∈ a.mapped, ¬ m.promise.covers address length = true) :
    ∃ error, a.checkSpan address length = .error error ∧
      Faults a.extents address length error := by
  by_cases known : ∃ m ∈ a.mapped, m.promise.Holds address.toNat
  · obtain ⟨m, hm, holds⟩ := known
    refine ⟨.outOfBounds address length, ?_, .outOfBounds ?_ ?_⟩
    · simp [checkSpan, h.regionOf?_eq_some hm holds, beyond m hm]
    · exact ⟨_, mem_extents hm, (holds_extentOf _ _ _).mpr holds⟩
    · intro e he inside
      obtain ⟨n, hn, rfl⟩ := List.mem_map.mp he
      exact beyond n hn ((h.covers_extent hn).mpr inside)
  · have outside : ∀ m ∈ a.mapped, ¬ m.promise.Holds address.toNat :=
      fun m hm holds => known ⟨m, hm, holds⟩
    refine ⟨.unmapped address, ?_, .unmapped fun e he holds => ?_⟩
    · simp [checkSpan, regionOf?_eq_none outside]
    · obtain ⟨m, hm, rfl⟩ := List.mem_map.mp he
      exact outside m hm ((holds_extentOf _ _ _).mp holds)

theorem Held.extents_kept (h : a.Held backs) (keeps : a.Keeps b) :
    (a.mapped.map fun m => extentOf b.allocator m.promise) = a.extents := by
  refine List.map_congr_left fun m hm => ?_
  unfold extentOf
  rw [h.bytes_kept keeps hm]

theorem Held.answers_map (laws : Storing backs) (h : a.Held backs) {minLength : Word}
    {prot : Protection} {minAlign : Word}
    (kept : (a.map minLength prot minAlign).2.allocator.Kept) :
    Answers a.extents (.map minLength prot minAlign)
      (.mapped (a.map minLength prot minAlign).1) (a.map minLength prot minAlign).2.extents := by
  rcases h.map_cases laws.toBacking kept with ⟨e, b, eq, restored⟩ | ⟨_, _, _, b, eq, -⟩
  · have same : b.extents = a.extents := by
      rw [extents, restored.mapped]
      exact h.extents_kept restored.keeps
    rw [eq, same]
    exact .noRoom
  · rw [eq] at kept ⊢
    obtain ⟨size, raw, promise, base, served, extended, zero⟩ := h.map_ok laws eq kept
    have zeroes : bytesFrom b.allocator promise.base.toNat promise.length.toNat =
        List.replicate promise.length.toNat 0 := by
      refine List.eq_replicate_iff.mpr ⟨length_bytesFrom _ _ _, fun byte hb => ?_⟩
      obtain ⟨i, hi, rfl⟩ := List.mem_map.mp hb
      exact zero _ (Region.holds_add (List.mem_range.mp hi))
    have grown : b.extents = a.extents ++
        [⟨promise.base, List.replicate promise.length.toNat 0⟩] := by
      rw [extents, extended.mapped, List.map_append, h.extents_kept extended.keeps, ← zeroes]
      rfl
    have apart := extended.held.extents_apart
    rw [grown] at apart ⊢
    rw [← base]
    exact .mapped served.least.1.2 (extended.held.nonempty _ extended.latest_mem) fun e he =>
      (List.pairwise_append.mp apart).2.2 e he _ List.mem_cons_self

theorem Held.extents_remove (laws : Storing backs) (h : a.Held backs) {index : ℕ} {m : Mapping}
    (hm : a.mapped[index]? = some m) :
    ∃ before after, a.extents = before ++ extentOf a.allocator m.promise :: after ∧
      (a.remove index m).extents = before ++ after := by
  obtain ⟨-, -, same⟩ := h.remove laws.toBacking hm
  have others : (a.remove index m).extents =
      (a.mapped.eraseIdx index).map fun n => extentOf a.allocator n.promise := by
    rw [extents, mapped_remove, List.map_map]
    refine List.map_congr_left fun n hn => ?_
    obtain ⟨raw, place, mem, within, -⟩ := h.raw_of_promise (List.mem_of_mem_eraseIdx hn)
    have still := (getElem?_remove h.paired hm hn).trans place
    have bytes := (same raw (List.mem_of_getElem? still)).bytesFrom (h.representable raw mem) within
    simp only [Function.comp, extentOf, bytes]
  obtain ⟨hlt, rfl⟩ := List.getElem?_eq_some_iff.mp hm
  refine ⟨(a.mapped.take index).map fun n => extentOf a.allocator n.promise,
    (a.mapped.drop (index + 1)).map fun n => extentOf a.allocator n.promise, ?_, ?_⟩
  · rw [← List.map_cons (f := fun n : Mapping => extentOf a.allocator n.promise),
      List.getElem_cons_drop, ← List.map_append, List.take_append_drop]
    rfl
  · rw [others, List.eraseIdx_eq_take_drop_succ, List.map_append]

theorem Held.answers_unmap (laws : Storing backs) (h : a.Held backs) (base : Word) :
    Answers a.extents (.unmap base) (.unmapped (a.unmap? base).isSome)
      (a.release base).extents := by
  rcases release_cases a base with ⟨eq, hi⟩ | ⟨index, m, hm, rfl, hi, eq⟩
  · have missing : (a.unmap? base).isSome = false := by simp [unmap?, hi]
    rw [missing, eq]
    refine .unknown fun e he same => ?_
    obtain ⟨m, hm, rfl⟩ := List.mem_map.mp he
    have other : ¬ m.promise.base = base := by simpa using List.findIdx?_eq_none_iff.mp hi m hm
    exact other same
  · have found : (a.unmap? m.promise.base).isSome = true := by simp [unmap?, hi, hm]
    obtain ⟨before, after, split, removed⟩ := h.extents_remove laws hm
    rw [found, eq, removed, split]
    exact .unmapped

/-- A write lays its bytes over the promise they lie in. -/
theorem Held.extent_written (laws : Storing backs) (h : a.Held backs) {address : Word}
    {bytes : Bytes} (short : bytes.length < 2 ^ 64) (wrote : a.write address bytes = .ok b)
    {m : Mapping} (hm : m ∈ a.mapped)
    (inside : (extentOf a.allocator m.promise).Covers address.toNat bytes.length) :
    extentOf b.allocator m.promise =
      (extentOf a.allocator m.promise).overlay address.toNat bytes := by
  have base : ((extentOf a.allocator m.promise).overlay address.toNat bytes).base =
      m.promise.base := rfl
  refine Extent.ext base.symm (List.ext_getElem? fun i => ?_)
  rw [Extent.getElem?_overlay inside]
  simp only [extentOf, getElem?_bytesFrom]
  unfold Extent.Covers at inside
  simp only [extentOf, length_bytesFrom] at inside
  by_cases within : i < m.promise.length.toNat
  · have holds := Region.holds_add within
    rw [if_pos within, h.byte_written laws short wrote hm holds, if_pos within]
    split
    · rename_i reached
      rw [List.getD_eq_getElem?_getD, List.getElem?_eq_getElem (by omega)]
      rfl
    · rfl
  · rw [if_neg within, if_neg (by omega), if_neg within]

theorem Held.extent_unwritten (laws : Storing backs) (h : a.Held backs) {address : Word}
    {bytes : Bytes} (short : bytes.length < 2 ^ 64) (wrote : a.write address bytes = .ok b)
    {m n : Mapping} (hn : n ∈ a.mapped) (apart : n.promise.Apart m.promise)
    (inside : (extentOf a.allocator m.promise).Covers address.toNat bytes.length) :
    extentOf b.allocator n.promise = extentOf a.allocator n.promise := by
  unfold extentOf
  congr 1
  refine List.map_congr_left fun i hi => ?_
  have holds := Region.holds_add (List.mem_range.mp hi)
  rw [h.byte_written laws short wrote hn holds, if_neg]
  intro reached
  refine apart _ holds ((holds_extentOf a.allocator _ _).mp ?_)
  unfold Extent.Covers at inside
  unfold Extent.Holds
  omega

theorem Held.extents_written (laws : Storing backs) (h : a.Held backs) {address : Word}
    {bytes : Bytes} (short : bytes.length < 2 ^ 64) (wrote : a.write address bytes = .ok b)
    (mapped : b.mapped = a.mapped) {m : Mapping} (hm : m ∈ a.mapped)
    (inside : (extentOf a.allocator m.promise).Covers address.toNat bytes.length) :
    ∃ before after, a.extents = before ++ extentOf a.allocator m.promise :: after ∧
      b.extents =
        before ++ (extentOf a.allocator m.promise).overlay address.toNat bytes :: after := by
  obtain ⟨before, after, split⟩ := List.append_of_mem hm
  have apart := h.promises_apart
  rw [split] at apart
  obtain ⟨-, back, across⟩ := List.pairwise_append.mp apart
  have first := (List.pairwise_cons.mp back).1
  have front : ∀ n ∈ before, extentOf b.allocator n.promise = extentOf a.allocator n.promise :=
    fun n hn => h.extent_unwritten laws short wrote (split ▸ List.mem_append_left _ hn)
      (across n hn m List.mem_cons_self) inside
  have rear : ∀ n ∈ after, extentOf b.allocator n.promise = extentOf a.allocator n.promise :=
    fun n hn => h.extent_unwritten laws short wrote
      (split ▸ List.mem_append_right _ (List.mem_cons_of_mem m hn)) (first n hn).symm inside
  refine ⟨before.map fun n => extentOf a.allocator n.promise,
    after.map fun n => extentOf a.allocator n.promise, ?_, ?_⟩
  · rw [extents, split, List.map_append, List.map_cons]
  · rw [extents, mapped, split, List.map_append, List.map_cons, List.map_congr_left front,
      List.map_congr_left rear, h.extent_written laws short wrote hm inside]

theorem Held.write_ok (accepts : Accepting backs) (h : a.Held backs) {address : Word}
    {bytes : Bytes} (some_bytes : bytes ≠ []) (short : bytes.length < 2 ^ 64) {m : Mapping}
    (hm : m ∈ a.mapped) (pos : 0 < (UInt64.ofNat bytes.length).toNat)
    (covers : m.promise.covers address (UInt64.ofNat bytes.length) = true) :
    ∃ s, a.write address bytes = .ok { a with allocator := s } := by
  obtain ⟨raw, -, mem, -, whole⟩ := h.raw_of_promise hm
  obtain ⟨s, hs⟩ := Audited.accepting accepts ⟨rfl, h.stored⟩ (h.live.mem_iff.mpr mem) some_bytes
    short (whole covers)
  exact ⟨s, by simp [Arena.write, some_bytes, h.checkSpan_ok hm pos covers, hs]⟩

theorem Held.answers_write (laws : Storing backs) (accepts : Accepting backs) (h : a.Held backs)
    (address : Word) {bytes : Bytes} (short : bytes.length < 2 ^ 64) :
    Answers a.extents (.write address bytes) (.written ((a.write address bytes).map fun _ => ()))
      (a.perform (.write address bytes)).extents := by
  by_cases nothing : bytes = []
  · subst nothing
    exact .wroteNothing
  have size := UInt64.toNat_ofNat_of_lt' short
  have pos : 0 < (UInt64.ofNat bytes.length).toNat := by
    rw [size]
    exact List.length_pos_iff.mpr nothing
  by_cases inside : ∃ m ∈ a.mapped, m.promise.covers address (UInt64.ofNat bytes.length) = true
  · obtain ⟨m, hm, covers⟩ := inside
    obtain ⟨s, wrote⟩ := h.write_ok accepts nothing short hm pos covers
    have covers := (h.covers_extent hm).mp covers
    rw [size] at covers
    obtain ⟨before, after, split, written⟩ := h.extents_written laws short wrote rfl hm covers
    rw [perform_write wrote, wrote, written, split]
    exact .wrote nothing covers
  · obtain ⟨error, refused, fault⟩ := h.faults fun m hm covers => inside ⟨m, hm, covers⟩
    have answer : a.write address bytes = .error error := by simp [Arena.write, nothing, refused]
    have same : a.perform (.write address bytes) = a := by
      simp [perform, answer, Except.toOption]
    rw [same, answer]
    exact .notWritten nothing fault

theorem Held.answers_read (laws : Storing backs) (h : a.Held backs) (address length : Word) :
    Answers a.extents (.read address length) (.bytes (a.read address length)) a.extents := by
  by_cases pos : 0 < length.toNat
  · by_cases inside : ∃ m ∈ a.mapped, m.promise.covers address length = true
    · obtain ⟨m, hm, covers⟩ := inside
      have whole := (h.covers_extent hm).mp covers
      rw [h.read_eq laws hm pos covers, ← slice_extentOf whole]
      exact .read (mem_extents hm) pos whole
    · obtain ⟨error, refused, fault⟩ := h.faults fun m hm covers => inside ⟨m, hm, covers⟩
      have some_bytes : ¬ readBuffer length = 0 := Nat.ne_of_gt pos
      have answer : a.read address length = .error error := by simp [read, some_bytes, refused]
      rw [answer]
      exact .notRead pos fault
  · have zero : length = 0 := UInt64.toNat_inj.mp (Nat.le_zero.mp (Nat.not_lt.mp pos))
    subst zero
    exact .readNothing

theorem Held.answers (laws : Storing backs) (accepts : Accepting backs) (h : a.Held backs)
    {q : Request} (storable : q.Storable) (kept : (a.serve q).2.allocator.Kept) :
    Answers a.extents q (a.serve q).1 (a.serve q).2.extents := by
  cases q with
  | map minLength prot minAlign => exact h.answers_map laws kept
  | unmap base => exact h.answers_unmap laws base
  | write address bytes => exact h.answers_write laws accepts address storable
  | read address length => exact h.answers_read laws address length

theorem Held.answersAll (laws : Storing backs) (accepts : Accepting backs) (h : a.Held backs)
    {requests : List Request} (storable : ∀ q ∈ requests, q.Storable)
    (kept : (a.serveAll requests).2.allocator.Kept) :
    AnswersAll a.extents requests (a.serveAll requests).1 (a.serveAll requests).2.extents := by
  induction requests generalizing a with
  | nil => exact .nil _
  | cons q rest ih =>
    have between : (a.serve q).2.allocator.Kept :=
      ((a.serve q).2.reaches_serveAll rest).kept kept
    have held := h.reaches laws.toBacking (a.reaches_serve q) between
    refine .cons (h.answers laws accepts (storable q List.mem_cons_self) between) ?_
    exact ih held (fun p hp => storable p (List.mem_cons_of_mem q hp)) kept

end AppHost.Memory.Arena
