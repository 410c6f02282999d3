import AppHost.Number.Binary
/-! Arithmetic on the patterns of a format: each operation is exact on values and rounds once. -/
namespace AppHost.Number

namespace Value

def negative : Value → Bool
  | .nan => false
  | .infinite s => s
  | .finite s _ _ => s

def scaled (negative : Bool) (m : Nat) (from_ e : Int) : Int :=
  let n : Int := (m <<< (from_ - e).toNat : Nat)
  if negative then -n else n

def order? : Value → Value → Option Ordering
  | .nan, _ => none
  | _, .nan => none
  | .infinite s, .infinite t => some (compare t s)
  | .infinite s, .finite .. => some (if s then .lt else .gt)
  | .finite .., .infinite t => some (if t then .gt else .lt)
  | .finite s m e, .finite t n d =>
    let least := min e d
    some (compare (scaled s m e least) (scaled t n d least))

end Value

namespace Format

variable (f : Format)

def negate (a : Nat) : Nat := if a < f.signBit then a + f.signBit else a - f.signBit

def magnitude (a : Nat) : Nat := if a < f.signBit then a else a - f.signBit

/-- The sum. Opposite values add up to positive zero. -/
def add (a b : Nat) : Nat :=
  match f.decode a, f.decode b with
  | .nan, _ => f.quiet
  | _, .nan => f.quiet
  | .infinite s, .infinite t => if s = t then f.signed s f.infinity else f.quiet
  | .infinite s, .finite .. => f.signed s f.infinity
  | .finite .., .infinite t => f.signed t f.infinity
  | .finite s m e, .finite t n d =>
    let least := min e d
    let sum := Value.scaled s m e least + Value.scaled t n d least
    if sum = 0 then f.signed (s && t) 0
    else f.round (decide (sum < 0)) sum.natAbs least false

def subtract (a b : Nat) : Nat := f.add a (f.negate b)

def multiply (a b : Nat) : Nat :=
  match f.decode a, f.decode b with
  | .nan, _ => f.quiet
  | _, .nan => f.quiet
  | .infinite s, .infinite t => f.signed (s != t) f.infinity
  | .infinite s, .finite t n _ => if n = 0 then f.quiet else f.signed (s != t) f.infinity
  | .finite s m _, .infinite t => if m = 0 then f.quiet else f.signed (s != t) f.infinity
  | .finite s m e, .finite t n d => f.round (s != t) (m * n) (e + d) false

def divideFinite (negative : Bool) (m : Nat) (e : Int) (n : Nat) (d : Int) : Nat :=
  let extra := f.fractionBits + 3 + n.log2 - m.log2
  let scaled := m <<< extra
  f.round negative (scaled / n) (e - d - extra) (scaled % n != 0)

def divide (a b : Nat) : Nat :=
  match f.decode a, f.decode b with
  | .nan, _ => f.quiet
  | _, .nan => f.quiet
  | .infinite _, .infinite _ => f.quiet
  | .infinite s, .finite t _ _ => f.signed (s != t) f.infinity
  | .finite s _ _, .infinite t => f.signed (s != t) 0
  | .finite s m e, .finite t n d =>
    if n = 0 then (if m = 0 then f.quiet else f.signed (s != t) f.infinity)
    else f.divideFinite (s != t) m e n d

/-- The remainder of division truncated toward zero, with the sign of the dividend. -/
def modulo (a b : Nat) : Nat :=
  match f.decode a, f.decode b with
  | .nan, _ => f.quiet
  | _, .nan => f.quiet
  | .infinite _, _ => f.quiet
  | .finite .., .infinite _ => a
  | .finite s m e, .finite _ n d =>
    if n = 0 then f.quiet
    else
      let least := min e d
      f.round s ((m <<< (e - least).toNat) % (n <<< (d - least).toNat)) least false

def rootFinite (m : Nat) (e : Int) : Nat :=
  let extra := 2 * f.fractionBits + 8 + (e % 2).toNat
  let scaled := m <<< extra
  let root := scaled.sqrt
  f.round false root ((e - extra) / 2) (root * root != scaled)

def squareRoot (a : Nat) : Nat :=
  match f.decode a with
  | .nan => f.quiet
  | .infinite s => if s then f.quiet else a
  | .finite s m e => if m = 0 then a else if s then f.quiet else f.rootFinite m e

/-- The length of the hypotenuse. An infinite side makes it infinite even if the other is no
number, but not if the other is a signaling one. -/
def hypotenuse (a b : Nat) : Nat :=
  if f.isSignaling a || f.isSignaling b then f.quiet
  else match f.decode a, f.decode b with
  | .infinite _, _ => f.infinity
  | _, .infinite _ => f.infinity
  | .nan, _ => f.quiet
  | _, .nan => f.quiet
  | .finite _ m e, .finite _ n d =>
    let least := min e d
    let sum := (m <<< (e - least).toNat) ^ 2 + (n <<< (d - least).toNat) ^ 2
    if sum = 0 then 0 else f.rootFinite sum (2 * least)

/-- Rounds to an integer, away from zero by one where `up` says so of the part cut off. -/
def integral (up : Bool → Ordering → Bool → Bool) (a : Nat) : Nat :=
  match f.decode a with
  | .nan => f.quiet
  | .infinite _ => a
  | .finite s m e =>
    let (whole, half, inexact) := truncated m e
    f.round s (if up s half inexact then whole + 1 else whole) 0 false

def truncate (a : Nat) : Nat := f.integral (fun _ _ _ => false) a

def floor (a : Nat) : Nat := f.integral (fun negative _ inexact => negative && inexact) a

def ceiling (a : Nat) : Nat := f.integral (fun negative _ inexact => !negative && inexact) a

def nearest (a : Nat) : Nat := f.integral (fun _ half _ => half != .lt) a

/-- The lesser value; of a number and no number, the number. -/
def minimum (a b : Nat) : Nat :=
  match f.decode a, f.decode b with
  | .nan, .nan => f.quiet
  | .nan, _ => b
  | _, .nan => a
  | v, w => if v.order? w = some .gt then b else a

def maximum (a b : Nat) : Nat :=
  match f.decode a, f.decode b with
  | .nan, .nan => f.quiet
  | .nan, _ => b
  | _, .nan => a
  | v, w => if v.order? w = some .lt then b else a

def compareOr (unordered : Int) (a b : Nat) : Int :=
  match (f.decode a).order? (f.decode b) with
  | some .lt => -1
  | some .eq => 0
  | some .gt => 1
  | none => unordered

def isUnordered (a b : Nat) : Bool := ((f.decode a).order? (f.decode b)).isNone

/-- The integer between `low` and `high` nearest to the truncated value; no number is zero. -/
def toInteger (low high : Int) (a : Nat) : Int :=
  match f.decode a with
  | .nan => 0
  | .infinite s => if s then low else high
  | .finite s m e =>
    let whole : Int := (truncated m e).1
    max low (min high (if s then -whole else whole))

def ofInteger (n : Int) : Nat :=
  if n = 0 then 0 else f.round (decide (n < 0)) n.natAbs 0 false

def convert (g : Format) (a : Nat) : Nat := g.encode (f.decode a)

end Format

end AppHost.Number
