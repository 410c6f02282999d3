import AppHost.Memory.Heap
import AppHost.Proofs.Memory.Rollback
import AppHost.Proofs.Word
/-! What comes of asking an arena for memory. A request is refused for the first thing wrong with
it, and its allocator hears of the others only, once each; a refusal leaves all as it was. A base
that was promised is taken back once. -/
namespace AppHost.Memory

theorem alignUp?_eq_none_iff {a align : Word} {n : ℕ} (pos : 0 < align.toNat)
    (least : IsLeast {k | align.toNat ∣ k ∧ a.toNat ≤ k} n) :
    Word.alignUp? a align = none ↔ 2 ^ 64 ≤ n := by
  cases rounded : Word.alignUp? a align with
  | some b =>
    obtain ⟨hd, hle, hlt⟩ := Word.alignUp?_spec pos rounded
    obtain rfl := (MapPlan.least_multiple hd hle hlt).unique least
    exact iff_of_false nofun (Nat.not_le.mpr b.toNat_lt)
  | none =>
    refine iff_of_true rfl ?_
    unfold Word.alignUp? at rounded
    split at rounded
    · cases rounded
    · rename_i odd
      rw [Word.mod_beq_zero_iff] at odd
      have next : n = a.toNat + (align.toNat - a.toNat % align.toNat) :=
        least.unique (MapPlan.least_multiple (Word.dvd_add_sub_mod _ pos) (by omega) (by omega))
      by_contra small
      have sum : Word.add? a (align - a % align) = some (a + (align - a % align)) := by
        refine Word.add?_eq_some_iff.mpr ⟨?_, rfl⟩
        rw [Word.toNat_sub_mod a pos]
        omega
      rw [sum] at rounded
      cases rounded

namespace MapRequest

variable {q : MapRequest}

def PowerOfTwo (q : MapRequest) : Prop := ∃ k, q.minAlign.toNat = 2 ^ k

def length (q : MapRequest) : ℕ := q.align * ((q.minLength.toNat + q.align - 1) / q.align)

theorem align_pos (q : MapRequest) : 0 < q.align :=
  Nat.lt_of_lt_of_le (by decide) (Nat.le_max_right _ 8)

theorem length_least (q : MapRequest) :
    IsLeast {n | q.align ∣ n ∧ q.minLength.toNat ≤ n} q.length := by
  have pos := q.align_pos
  have split := Nat.div_add_mod (q.minLength.toNat + q.align - 1) q.align
  have rest := Nat.mod_lt (q.minLength.toNat + q.align - 1) pos
  unfold length
  exact MapPlan.least_multiple (Nat.dvd_mul_right _ _) (by omega) (by omega)

/-- What the allocator is asked for: past word alignment, with room to align inside. -/
def size (q : MapRequest) : ℕ := if q.align ≤ 8 then q.length else q.length + q.align

def TooLarge (q : MapRequest) : Prop :=
  2 ^ 64 ≤ q.length ∨ 8 < q.align ∧ 2 ^ 64 ≤ q.length + q.align

theorem not_tooLarge_iff : ¬ q.TooLarge ↔ q.size < 2 ^ 64 := by
  unfold TooLarge size
  split <;> omega

inductive Refused (q : MapRequest) : MapError → Prop where
  | zeroLength (zero : q.minLength.toNat = 0) : Refused q .zeroLength
  | badAlignment (pos : 0 < q.minLength.toNat) (odd : ¬ q.PowerOfTwo) :
      Refused q (.badAlignment q.minAlign)
  | overflow (pos : 0 < q.minLength.toNat) (power : q.PowerOfTwo) (large : q.TooLarge) :
      Refused q .overflow

structure Valid (q : MapRequest) : Prop where
  pos : 0 < q.minLength.toNat
  power : q.PowerOfTwo
  small : ¬ q.TooLarge

theorem Refused.unique {e f : MapError} (h : q.Refused e) (i : q.Refused f) : e = f := by
  cases h <;> cases i <;> first | rfl | omega | contradiction

theorem Refused.not_valid {e : MapError} (h : q.Refused e) : ¬ q.Valid := by
  rintro ⟨pos, power, small⟩
  cases h with
  | zeroLength zero => omega
  | badAlignment _ odd => exact odd power
  | overflow _ _ large => exact small large

end MapRequest

namespace MapPlan

variable {q : MapRequest}

theorem toNat_align (q : MapRequest) : (max q.minAlign Word.size).toNat = q.align :=
  Word.toNat_max q.minAlign Word.size

theorem refused_or_valid (q : MapRequest) :
    (∃ e, MapPlan.of q.minLength q.minAlign = .error e ∧ q.Refused e) ∨
    (∃ plan, MapPlan.of q.minLength q.minAlign = .ok plan) ∧ q.Valid := by
  have align := toNat_align q
  have least := q.length_least
  have eight : Word.size.toNat = 8 := rfl
  unfold MapPlan.of
  split
  · rename_i zero
    rw [beq_iff_eq] at zero
    exact Or.inl ⟨_, rfl, .zeroLength (congrArg UInt64.toNat zero)⟩
  rename_i nonzero
  have pos : 0 < q.minLength.toNat := Nat.pos_of_ne_zero fun zero =>
    nonzero (beq_iff_eq.mpr (UInt64.toNat_inj.mp zero))
  split
  · rename_i odd
    refine Or.inl ⟨_, rfl, .badAlignment pos ?_⟩
    rw [MapRequest.PowerOfTwo, ← Word.isPowerOfTwo_iff]
    simpa using odd
  rename_i even
  have power : q.PowerOfTwo := Word.isPowerOfTwo_iff.mp (by simpa using even)
  simp only
  rw [← align] at least
  split
  · rename_i unrounded
    have large := (alignUp?_eq_none_iff (align ▸ q.align_pos) least).mp unrounded
    exact Or.inl ⟨_, rfl, .overflow pos power (Or.inl large)⟩
  -- the length is rounded; what can still overflow is the room to align in
  rename_i length rounded
  obtain ⟨hd, hle, hlt⟩ := Word.alignUp?_spec (align ▸ q.align_pos) rounded
  have same : length.toNat = q.length := (least_multiple hd hle hlt).unique least
  have below := length.toNat_lt
  split
  · rename_i small
    rw [UInt64.le_iff_toNat_le, align, eight] at small
    exact Or.inr ⟨⟨_, rfl⟩, pos, power, by unfold MapRequest.TooLarge; omega⟩
  rename_i large
  rw [UInt64.le_iff_toNat_le, align, eight] at large
  split
  · rename_i unpadded
    refine Or.inl ⟨_, rfl, .overflow pos power (Or.inr ⟨Nat.not_le.mp large, ?_⟩)⟩
    by_contra fits
    have sum := Word.add?_eq_some_iff (a := length) (b := max q.minAlign Word.size).mpr
      ⟨by omega, rfl⟩
    rw [unpadded] at sum
    cases sum
  · rename_i padded sum
    have fits := (Word.add?_eq_some_iff.mp sum).1
    exact Or.inr ⟨⟨_, rfl⟩, pos, power, by unfold MapRequest.TooLarge; omega⟩

theorem of_eq_error_iff {e : MapError} :
    MapPlan.of q.minLength q.minAlign = .error e ↔ q.Refused e := by
  rcases refused_or_valid q with ⟨f, planned, refused⟩ | ⟨⟨plan, planned⟩, valid⟩
  · rw [planned, Except.error.injEq]
    exact ⟨fun same => same ▸ refused, refused.unique⟩
  · rw [planned]
    exact iff_of_false nofun fun refused => refused.not_valid valid

theorem valid_of_ok {plan : MapPlan} (h : MapPlan.of q.minLength q.minAlign = .ok plan) :
    q.Valid ∧ plan.align.toNat = q.align ∧ plan.length.toNat = q.length ∧
      plan.size.toNat = q.size := by
  obtain ⟨-, align, least, size⟩ := of_eq_ok h
  have length : plan.length.toNat = q.length := least.unique q.length_least
  have word : plan.align ≤ Word.size ↔ q.align ≤ 8 := by
    rw [UInt64.le_iff_toNat_le, align]
    rfl
  refine ⟨?_, align, length, ?_⟩
  · rcases refused_or_valid q with ⟨e, planned, -⟩ | ⟨-, valid⟩
    · rw [h] at planned
      cases planned
    · exact valid
  · rw [size, length, align, MapRequest.size]
    by_cases small : q.align ≤ 8
    · rw [if_pos (word.mpr small), if_pos small, Nat.add_zero]
    · rw [if_neg (mt word.mp small), if_neg small]
      rfl

end MapPlan

/-- An allocator that also notes the sizes asked of it, granted or not. -/
structure Metered (σ : Type) where
  inner : σ
  asked : List Word

instance {σ : Type} [Allocator σ] : Allocator (Metered σ) where
  allocate a length prot :=
    let (answer, inner) := Allocator.allocate a.inner length prot
    (answer, ⟨inner, a.asked ++ [length]⟩)
  free a r := { a with inner := Allocator.free a.inner r }
  write a address bytes := (Allocator.write a.inner address bytes).map fun inner => { a with inner }
  read a address length := Allocator.read a.inner address length
  backing a r := Allocator.backing a.inner r

namespace Arena

variable {σ : Type}

def bases (a : Arena σ) : List Word := a.mapped.map (·.promise.base)

theorem Sound.bases_nodup {a : Arena (Audited σ)} (h : a.Sound) : a.bases.Nodup := by
  refine List.pairwise_map.mpr (h.promises_apart.imp_of_mem fun {m n} hm hn apart => ?_)
  exact apart.base_ne (h.nonempty m hm) (h.nonempty n hn)

variable [Allocator σ]

/-- What comes of a request for memory, by what its allocator answers. -/
inductive Maps (a : Arena σ) (q : MapRequest) (prot : Protection) :
    Except MapError Word × Arena σ → Prop where
  | refused {e} (wrong : q.Refused e) : Maps a q prot (.error e, a)
  | exhausted {size s} (valid : q.Valid) (words : size.toNat = q.size)
      (asked : Allocator.allocate a.allocator size prot = (none, s)) :
      Maps a q prot (.error (.exhausted size), { a with allocator := s })
  | mapped {size raw s promise} (valid : q.Valid) (words : size.toNat = q.size)
      (asked : Allocator.allocate a.allocator size prot = (some raw, s))
      (first : IsLeast {n | q.align ∣ n ∧ raw.base.toNat ≤ n} promise.base.toNat)
      (length : promise.length.toNat = q.length) :
      Maps a q prot (.ok promise.base, a.grow s raw promise)

variable {q : MapRequest} {prot : Protection}

theorem answer_unique {s : σ} {size size' : Word} {answer answer' : Option Region × σ}
    (words : size.toNat = q.size) (words' : size'.toNat = q.size)
    (asked : Allocator.allocate s size prot = answer)
    (asked' : Allocator.allocate s size' prot = answer') : size = size' ∧ answer = answer' := by
  obtain rfl := UInt64.toNat_inj.mp (words.trans words'.symm)
  exact ⟨rfl, asked.symm.trans asked'⟩

theorem Maps.unique {a : Arena σ} {r r' : Except MapError Word × Arena σ}
    (h : a.Maps q prot r) (i : a.Maps q prot r') : r = r' := by
  cases h with
  | refused wrong =>
    cases i with
    | refused wrong' => rw [wrong.unique wrong']
    | exhausted valid => exact absurd valid wrong.not_valid
    | mapped valid => exact absurd valid wrong.not_valid
  | exhausted valid words asked =>
    cases i with
    | refused wrong => exact absurd valid wrong.not_valid
    | exhausted _ words' asked' =>
      obtain ⟨rfl, same⟩ := answer_unique words words' asked asked'
      cases same
      rfl
    | mapped _ words' asked' => cases (answer_unique words words' asked asked').2
  | @mapped _ _ _ promise valid words asked first length =>
    cases i with
    | refused wrong => exact absurd valid wrong.not_valid
    | exhausted _ words' asked' => cases (answer_unique words words' asked asked').2
    | @mapped _ _ _ promise' _ words' asked' first' length' =>
      obtain ⟨rfl, same⟩ := answer_unique words words' asked asked'
      cases same
      obtain ⟨base, long⟩ := promise
      obtain ⟨base', long'⟩ := promise'
      obtain rfl : base = base' := UInt64.toNat_inj.mp (first.unique first')
      obtain rfl : long = long' := UInt64.toNat_inj.mp (length.trans length'.symm)
      rfl

/-- While the allocator keeps its contract, mapping is what a request comes to. -/
theorem maps {a : Arena (Audited σ)}
    (kept : (a.map q.minLength prot q.minAlign).2.allocator.Kept) :
    a.Maps q prot (a.map q.minLength prot q.minAlign) := by
  rcases map_cases a q.minLength prot q.minAlign with
    ⟨e, planned, eq⟩ | ⟨plan, s, planned, asked, eq⟩ | ⟨plan, raw, s, planned, asked, eq⟩
  · rw [eq]
    exact .refused (MapPlan.of_eq_error_iff.mp planned)
  · obtain ⟨valid, -, -, words⟩ := MapPlan.valid_of_ok planned
    rw [eq]
    exact .exhausted valid words asked
  · obtain ⟨valid, -, length, words⟩ := MapPlan.valid_of_ok planned
    rw [eq] at kept ⊢
    have fits : Fits plan.size raw a.allocator.live :=
      ((Audited.kept_snoc (Audited.history_of_granted asked)).mp kept).2
    have first : IsLeast {n | q.align ∣ n ∧ raw.base.toNat ≤ n}
        (Region.base ⟨plan.baseIn raw, plan.length⟩).toNat := MapPlan.baseIn_least planned fits
    exact .mapped valid words asked first length

theorem map_eq_iff {a : Arena (Audited σ)}
    (kept : (a.map q.minLength prot q.minAlign).2.allocator.Kept)
    (r : Except MapError Word × Arena (Audited σ)) :
    a.map q.minLength prot q.minAlign = r ↔ a.Maps q prot r :=
  ⟨fun same => same ▸ maps kept, (maps kept).unique⟩

theorem asked_of_allocate {s t : Metered σ} {size : Word} {answer : Option Region}
    (h : Allocator.allocate s size prot = (answer, t)) : t.asked = s.asked ++ [size] := by
  cases h
  rfl

theorem asked_of_map (a : Arena (Metered σ)) (q : MapRequest) (prot : Protection) :
    (¬ q.Valid ∧ (a.map q.minLength prot q.minAlign).2.allocator.asked = a.allocator.asked) ∨
    q.Valid ∧ ∃ size : Word, size.toNat = q.size ∧
      (a.map q.minLength prot q.minAlign).2.allocator.asked = a.allocator.asked ++ [size] := by
  rcases map_cases a q.minLength prot q.minAlign with
    ⟨e, planned, eq⟩ | ⟨plan, s, planned, asked, eq⟩ | ⟨plan, raw, s, planned, asked, eq⟩
  · rw [eq]
    exact Or.inl ⟨(MapPlan.of_eq_error_iff.mp planned).not_valid, rfl⟩
  · obtain ⟨valid, -, -, words⟩ := MapPlan.valid_of_ok planned
    rw [eq]
    exact Or.inr ⟨valid, plan.size, words, asked_of_allocate asked⟩
  · obtain ⟨valid, -, -, words⟩ := MapPlan.valid_of_ok planned
    rw [eq]
    exact Or.inr ⟨valid, plan.size, words, asked_of_allocate asked⟩

theorem map_error {a b : Arena (Audited σ)} {e : MapError}
    (h : a.map q.minLength prot q.minAlign = (.error e, b)) :
    b.actual = a.actual ∧ b.mapped = a.mapped ∧ b.allocator.live = a.allocator.live ∧
      ∀ backs, Backing backs → a.Held backs → a.Keeps b := by
  rcases map_cases a q.minLength prot q.minAlign with
    ⟨f, -, eq⟩ | ⟨plan, s, -, asked, eq⟩ | ⟨plan, raw, s, -, -, eq⟩
  · cases h.symm.trans eq
    exact ⟨rfl, rfl, rfl, fun _ _ _ => Keeps.refl a⟩
  · cases h.symm.trans eq
    refine ⟨rfl, rfl, ?_, fun _ laws held => (held.refused laws asked).2⟩
    exact congrArg (List.foldl AllocatorEvent.account []) (Audited.history_of_refused asked)
  · cases h.symm.trans eq

theorem unmap?_cases (a : Arena σ) (base : Word) :
    (a.unmap? base = none ∧ base ∉ a.bases) ∨ ∃ index m, a.mapped[index]? = some m ∧
      m.promise.base = base ∧ a.unmap? base = some (a.remove index m) := by
  unfold unmap?
  cases found : a.mapped.findIdx? (·.promise.base == base) with
  | none =>
    refine Or.inl ⟨rfl, fun promised => ?_⟩
    obtain ⟨m, hm, same⟩ := List.mem_map.mp promised
    have other := List.findIdx?_eq_none_iff.mp found m hm
    rw [same, beq_self_eq_true] at other
    cases other
  | some index =>
    obtain ⟨hlt, same, -⟩ := List.findIdx?_eq_some_iff_getElem.mp found
    have hm : a.mapped[index]? = some a.mapped[index] := List.getElem?_eq_getElem hlt
    exact Or.inr ⟨index, _, hm, by simpa using same, by simp [hm]⟩

theorem unmap?_isSome_iff {a : Arena σ} {base : Word} :
    (a.unmap? base).isSome ↔ base ∈ a.bases := by
  rcases a.unmap?_cases base with ⟨missing, absent⟩ | ⟨index, m, hm, rfl, found⟩
  · rw [missing]
    exact iff_of_false nofun absent
  · rw [found]
    exact iff_of_true rfl (List.mem_map_of_mem (List.mem_of_getElem? hm))

theorem bases_remove {a : Arena σ} {index : ℕ} {m : Mapping} (hm : a.mapped[index]? = some m) :
    (m.promise.base :: (a.remove index m).bases).Perm a.bases := by
  obtain ⟨hlt, rfl⟩ := List.getElem?_eq_some_iff.mp hm
  have whole := (List.getElem_cons_eraseIdx_perm hlt).map (·.promise.base)
  unfold bases
  rw [mapped_remove, List.map_map]
  exact whole

inductive Notice where
  | mapped (base : Word)
  | unmapped (base : Word)
  deriving DecidableEq, Repr

def notice? (a : Arena σ) : Operation → Option Notice
  | .map minLength prot minAlign => (a.map minLength prot minAlign).1.toOption.map .mapped
  | .unmap base => (a.unmap? base).map fun _ => .unmapped base
  | .write .. | .setResume _ => none

def notices (a : Arena σ) : List Operation → List Notice
  | [] => []
  | o :: rest => (a.notice? o).toList ++ (a.perform o).notices rest

/-- An operation adds one promise to those at a base, or takes one away, exactly when it says so. -/
theorem count_bases_perform (a : Arena σ) (o : Operation) (base : Word) :
    a.bases.count base + (a.notice? o).toList.count (.mapped base) =
      (a.notice? o).toList.count (.unmapped base) + (a.perform o).bases.count base := by
  cases o with
  | map minLength prot minAlign =>
    rcases map_cases a minLength prot minAlign with
      ⟨e, -, eq⟩ | ⟨plan, s, -, -, eq⟩ | ⟨plan, raw, s, -, -, eq⟩
    all_goals simp only [notice?, perform, eq, Except.toOption, Option.map_none, Option.map_some]
    · simp
    · simp [bases]
    · simp [bases, grow, List.count_singleton]
  | unmap b =>
    rcases a.unmap?_cases b with ⟨missing, -⟩ | ⟨index, m, hm, rfl, found⟩
    · simp [notice?, perform, release, missing]
    · have count := (bases_remove hm).count_eq base
      simp only [notice?, perform, release, found]
      by_cases same : m.promise.base = base
      · subst same
        rw [List.count_cons_self] at count
        simp
        omega
      · rw [List.count_cons_of_ne same] at count
        simp [same, count]
  | write address bytes =>
    rcases perform_write_cases a address bytes with eq | ⟨s, -, -, -, eq⟩
    · simp [notice?, eq]
    · simp [notice?, eq, bases]
  | setResume point => simp [notice?, perform, setResume, bases]

theorem count_bases_run (a : Arena σ) (operations : List Operation) (base : Word) :
    a.bases.count base + (a.notices operations).count (.mapped base) =
      (a.notices operations).count (.unmapped base) + (a.run operations).bases.count base := by
  induction operations generalizing a with
  | nil => simp [notices]
  | cons o rest ih =>
    have step := a.count_bases_perform o base
    have later := ih (a.perform o)
    rw [notices, run_cons, List.count_append, List.count_append]
    omega

theorem unmapped_once {a : Arena (Audited σ)} {base : Word} (promised : base ∈ a.bases)
    (nodup : a.bases.Nodup) {later : List Operation} (kept : (a.run later).bases.Nodup) :
    (a.notices later).count (.unmapped base) ≤ (a.notices later).count (.mapped base) + 1 ∧
      (((a.run later).unmap? base).isSome ↔
        (a.notices later).count (.unmapped base) = (a.notices later).count (.mapped base)) := by
  -- a base is promised by one mapping at most, before the run and after it
  have balance := a.count_bases_run later base
  rw [List.count_eq_one_of_mem nodup promised] at balance
  rw [unmap?_isSome_iff]
  by_cases still : base ∈ (a.run later).bases
  · rw [List.count_eq_one_of_mem kept still] at balance
    exact ⟨by omega, iff_of_true still (by omega)⟩
  · rw [List.count_eq_zero_of_not_mem still] at balance
    exact ⟨by omega, iff_of_false still (by omega)⟩

/-- How an arena answers requests for memory, and what becomes of the bases it promised. -/
structure Orderly (a : Arena (Audited σ)) : Prop where
  outcome : ∀ q prot, (a.map q.minLength prot q.minAlign).2.allocator.Kept →
    ∀ r, a.map q.minLength prot q.minAlign = r ↔ a.Maps q prot r
  failed : ∀ minLength prot minAlign e b, a.map minLength prot minAlign = (.error e, b) →
    b.actual = a.actual ∧ b.mapped = a.mapped ∧ b.allocator.live = a.allocator.live ∧
      ∀ backs, Backing backs → backs a.allocator.inner a.allocator.live → a.Keeps b
  unmaps : ∀ base, (a.unmap? base).isSome ↔ ∃ m ∈ a.mapped, m.promise.base = base
  missed : ∀ base, a.unmap? base = none → a.release base = a
  once : ∀ minLength prot minAlign base b, a.map minLength prot minAlign = (.ok base, b) →
    ∀ later, (b.run later).allocator.Kept →
      (b.notices later).count (.unmapped base) ≤ (b.notices later).count (.mapped base) + 1 ∧
      (((b.run later).unmap? base).isSome ↔
        (b.notices later).count (.unmapped base) = (b.notices later).count (.mapped base))

theorem Sound.orderly {a : Arena (Audited σ)} (h : a.Sound) : a.Orderly where
  outcome q prot kept r := map_eq_iff kept r
  failed minLength prot minAlign e b failed := by
    obtain ⟨actual, mapped, live, keeps⟩ := map_error (q := ⟨minLength, minAlign⟩) failed
    exact ⟨actual, mapped, live, fun backs laws stored => keeps backs laws ⟨h, stored⟩⟩
  unmaps base := unmap?_isSome_iff.trans List.mem_map
  missed base missing := by rw [release, missing, Option.getD_none]
  once minLength prot minAlign base b made later kept := by
    have reached := a.reaches_perform (.map minLength prot minAlign)
    rw [perform, made] at reached
    have between : b.allocator.Kept := Reaches.kept ⟨later, rfl⟩ kept
    have sound : b.Sound := h.reaches reached between
    have promised : base ∈ b.bases := by
      rcases map_cases a minLength prot minAlign with
        ⟨e, -, eq⟩ | ⟨plan, s, -, -, eq⟩ | ⟨plan, raw, s, -, -, eq⟩ <;> cases made.symm.trans eq
      exact List.mem_map_of_mem (List.mem_append_right a.mapped List.mem_cons_self)
    exact unmapped_once promised sound.bases_nodup (sound.reaches ⟨later, rfl⟩ kept).bases_nodup

/-- Whatever an arena did before, it decides each request by what the request asks for and by one
answer of its allocator at most, and each base that it promised is taken back once. -/
theorem requests_decided_and_bases_unmapped_once (pid : Pid) (allocator : σ)
    (earlier : List Operation) :
    let a := (Arena.empty pid (Audited.ofAllocator allocator)).run earlier
    (a.allocator.Kept → a.Orderly) ∧ ∀ (b : Arena (Metered σ)) (q : MapRequest) (prot : Protection),
      (¬ q.Valid ∧ (b.map q.minLength prot q.minAlign).2.allocator.asked = b.allocator.asked) ∨
      q.Valid ∧ ∃ size : Word, size.toNat = q.size ∧
        (b.map q.minLength prot q.minAlign).2.allocator.asked = b.allocator.asked ++ [size] := by
  intro a
  refine ⟨fun kept => ?_, asked_of_map⟩
  have sound : a.Sound := (sound_empty pid allocator).reaches ⟨earlier, rfl⟩ kept
  exact sound.orderly

/-- A base that was taken back and promised again. -/
theorem orderly_after_reuse :
    let host : ℕ → Word → Word := fun n _ => if n = 1 then 0x30001 else 0x20003
    let a := (Arena.empty 1 (Audited.ofAllocator (HostHeap.empty (some 300) host))).run
      [.map 20 .readWrite 1, .map 100 .readWrite 64, .unmap 0x20008, .map 5 .readWrite 8]
    a.bases = [0x30040, 0x20008] ∧ a.allocator.Kept ∧ a.Orderly :=
  ⟨by decide, by decide, (requests_decided_and_bases_unmapped_once 1 _ _).1 (by decide)⟩

end Arena

end AppHost.Memory
