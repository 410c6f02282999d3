import AppHost.Number.Power
/-! Binary floating-point formats. A pattern of bits stands for an exact value `±m · 2^e`, for an
infinity, or for no number; an exact value is written back by rounding once, to the nearest
pattern, a tie to the even one. -/
namespace AppHost.Number

structure Format where
  exponentBits : Nat
  fractionBits : Nat
  deriving DecidableEq, Repr

def single : Format := ⟨8, 23⟩

def double : Format := ⟨11, 52⟩

inductive Value where
  | nan
  | infinite (negative : Bool)
  | finite (negative : Bool) (m : Nat) (e : Int)
  deriving DecidableEq, Repr

namespace Format

def leastExponent (f : Format) : Int := 2 - 2 ^ (f.exponentBits - 1) - f.fractionBits

def infinity (f : Format) : Nat := (2 ^ f.exponentBits - 1) * 2 ^ f.fractionBits

def signBit (f : Format) : Nat := 2 ^ (f.exponentBits + f.fractionBits)

def quiet (f : Format) : Nat := f.infinity + 2 ^ (f.fractionBits - 1)

def decode (f : Format) (pattern : Nat) : Value :=
  let negative := pattern / f.signBit % 2 == 1
  let field := pattern / 2 ^ f.fractionBits % 2 ^ f.exponentBits
  let fraction := pattern % 2 ^ f.fractionBits
  if field = 2 ^ f.exponentBits - 1 then
    if fraction = 0 then .infinite negative else .nan
  else if field = 0 then .finite negative fraction f.leastExponent
  else .finite negative (2 ^ f.fractionBits + fraction) (f.leastExponent + (field - 1))

def isSignaling (f : Format) (pattern : Nat) : Bool :=
  f.decode pattern == .nan && !pattern.testBit (f.fractionBits - 1)

def signed (f : Format) (negative : Bool) (magnitude : Nat) : Nat :=
  if negative then f.signBit + magnitude else magnitude

/-- `m` without its `shift` low bits, rounded to the nearest integer, a tie to the even one.
`more` says that the true value lies a little above `m`. -/
def roundShift (m shift : Nat) (more : Bool) : Nat :=
  let kept := m >>> shift
  let dropped := 2 * (m % 2 ^ shift)
  if 2 ^ shift < dropped || (dropped = 2 ^ shift && (more || kept % 2 = 1)) then kept + 1 else kept

/-- The pattern nearest to `m · 2^e`, or to a little above it if `more`. A carry out of the
fraction moves into the exponent, and past the greatest exponent lies infinity. -/
def round (f : Format) (negative : Bool) (m : Nat) (e : Int) (more : Bool) : Nat :=
  let place := max f.leastExponent (e + m.log2 - f.fractionBits)
  let kept :=
    if place ≤ e then m <<< (e - place).toNat else roundShift m (place - e).toNat more
  let magnitude :=
    if kept = 0 then 0 else kept + (place - f.leastExponent).toNat * 2 ^ f.fractionBits
  f.signed negative (min magnitude f.infinity)

def encode (f : Format) : Value → Nat
  | .nan => f.quiet
  | .infinite negative => f.signed negative f.infinity
  | .finite negative m e => f.round negative m e false

end Format

/-- The integer nearest to zero among those that a finite value lies between, as sign-free
magnitude, with twice the part cut off measured against one: below, equal to or above it. -/
def truncated (m : Nat) (e : Int) : Nat × Ordering × Bool :=
  if 0 ≤ e then (m <<< e.toNat, .lt, false)
  else
    let shift := (-e).toNat
    let cut := m % 2 ^ shift
    (m >>> shift, compare (2 * cut) (2 ^ shift), cut != 0)

end AppHost.Number
