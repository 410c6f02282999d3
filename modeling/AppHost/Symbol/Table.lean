import AppHost.Word
/-! Symbol tables: names bound to addresses, kept in the byte order of the names' UTF-8 form,
which is the order of their code points. -/
namespace AppHost

inductive CollisionPolicy where
  | lastWins
  | firstWins
  deriving DecidableEq, Repr

structure SymbolTable where
  entries : List (String × Word)
  deriving DecidableEq, Repr

namespace SymbolTable

def empty : SymbolTable := ⟨[]⟩

def get? (t : SymbolTable) (name : String) : Option Word :=
  t.entries.lookup name

def contains (t : SymbolTable) (name : String) : Bool := (t.get? name).isSome

def size (t : SymbolTable) : Nat := t.entries.length

/-- Binds a name in entries sorted by name, replacing its address if it has one. -/
def bind (name : String) (address : Word) : List (String × Word) → List (String × Word)
  | [] => [(name, address)]
  | (n, a) :: rest =>
    if n < name then (n, a) :: bind name address rest
    else if n == name then (name, address) :: rest
    else (name, address) :: (n, a) :: rest

def insert (t : SymbolTable) (name : String) (address : Word) : SymbolTable :=
  ⟨bind name address t.entries⟩

/-- Binds a name under a policy: under `firstWins` an earlier definition stays. -/
def insertWith (t : SymbolTable) (policy : CollisionPolicy) (name : String) (address : Word) :
    SymbolTable :=
  match policy with
  | .lastWins => t.insert name address
  | .firstWins => if t.contains name then t else t.insert name address

def insertAll (t : SymbolTable) (pairs : List (String × Word)) : SymbolTable :=
  pairs.foldl (fun t (name, address) => t.insert name address) t

def ofList (pairs : List (String × Word)) : SymbolTable := empty.insertAll pairs

/-- All entries of both tables; `other` wins where they disagree. -/
def merge (t other : SymbolTable) : SymbolTable := t.insertAll other.entries

def names (t : SymbolTable) : List String := t.entries.map (·.1)

def mapAddresses (t : SymbolTable) (f : Nat → Word → Word) : SymbolTable :=
  ⟨t.entries.mapIdx fun i (name, address) => (name, f i address)⟩

@[simp] theorem get?_empty (name : String) : empty.get? name = none := rfl

theorem lookup_bind (name other : String) (address : Word) (entries : List (String × Word)) :
    (bind name address entries).lookup other =
      if other = name then some address else entries.lookup other := by
  induction entries with
  | nil => by_cases h : other = name <;> simp [bind, List.lookup_cons, h, beq_false_of_ne]
  | cons e rest ih =>
    obtain ⟨n, a⟩ := e
    unfold bind
    split
    · rename_i lt
      by_cases h : other = n
      · subst h
        have ne : other ≠ name := fun e => String.lt_irrefl name (e ▸ lt)
        simp [ne]
      · have : (other == n) = false := by simpa using h
        simp [List.lookup_cons, this, ih]
    · split
      · rename_i eq
        have eq : n = name := by simpa using eq
        subst eq
        by_cases h : other = n <;> simp [List.lookup_cons, h]
        have : (other == n) = false := by simpa using h
        simp [this]
      · by_cases h : other = name <;> simp [List.lookup_cons, h]
        have : (other == name) = false := by simpa using h
        simp [this]

theorem get?_insert (t : SymbolTable) (name other : String) (address : Word) :
    (t.insert name address).get? other = if other = name then some address else t.get? other :=
  lookup_bind name other address t.entries

theorem get?_insertWith_firstWins (t : SymbolTable) (name other : String) (address : Word) :
    (t.insertWith .firstWins name address).get? other =
      if other = name then some ((t.get? name).getD address) else t.get? other := by
  unfold insertWith contains
  cases h : t.get? name with
  | none => simp [get?_insert]
  | some previous => by_cases same : other = name <;> simp [same, h]

theorem get?_insertWith_lastWins (t : SymbolTable) (name other : String) (address : Word) :
    (t.insertWith .lastWins name address).get? other =
      if other = name then some address else t.get? other :=
  t.get?_insert name other address

end SymbolTable

end AppHost
