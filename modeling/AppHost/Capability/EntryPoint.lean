import AppHost.Number.Arithmetic
import AppHost.Number.Elementary
import AppHost.Number.Integer
import AppHost.Word
/-! The numeric functions offered to applications: mathematics in both precisions, and the
arithmetic that compiled code calls for on hosts without it. Operands and results are patterns
in the low bits of words. -/
namespace AppHost

open Number

inductive NumberType where
  | signed32
  | unsigned32
  | signed64
  | unsigned64
  | single
  | double
  deriving DecidableEq, Repr

namespace NumberType

def width : NumberType → Nat
  | .signed32 | .unsigned32 | .single => 32
  | .signed64 | .unsigned64 | .double => 64

def format? : NumberType → Option Format
  | .single => some Number.single
  | .double => some Number.double
  | _ => none

/-- The integer a pattern stands for; of a float, the pattern itself. -/
def toInt (t : NumberType) (w : Word) : Int :=
  let bits := BitVec.ofNat t.width w.toNat
  match t with
  | .signed32 | .signed64 => bits.toInt
  | _ => bits.toNat

def least : NumberType → Int
  | .signed32 => -2 ^ 31
  | .signed64 => -2 ^ 63
  | _ => 0

def greatest : NumberType → Int
  | .signed32 => 2 ^ 31 - 1
  | .unsigned32 => 2 ^ 32 - 1
  | .signed64 => 2 ^ 63 - 1
  | _ => 2 ^ 64 - 1

end NumberType

structure EntryPoint where
  name : String
  parameters : List NumberType
  result : NumberType
  /-- Whether every host gives the same result to the last bit. -/
  exact : Bool
  call : List Word → Word

namespace EntryPoint

def pattern (arguments : List Word) (i : Nat) : Nat := (arguments.getD i 0).toNat

def ofInt (n : Int) : Word := UInt64.ofNat (n % 2 ^ 64).toNat

def integer (name : String) (t : NumberType)
    (f : BitVec t.width → BitVec t.width → BitVec t.width) : EntryPoint :=
  ⟨name, [t, t], t, true, fun a =>
    UInt64.ofNat (f (BitVec.ofNat _ (pattern a 0)) (BitVec.ofNat _ (pattern a 1))).toNat⟩

def unary (name : String) (t : NumberType) (f : Nat → Nat) : EntryPoint :=
  ⟨name, [t], t, true, fun a => UInt64.ofNat (f (pattern a 0))⟩

def binary (name : String) (t : NumberType) (f : Nat → Nat → Nat) : EntryPoint :=
  ⟨name, [t, t], t, true, fun a => UInt64.ofNat (f (pattern a 0) (pattern a 1))⟩

/-- A function whose last bits are the host's. -/
def inexact (e : EntryPoint) : EntryPoint := { e with exact := false }

def fix (name : String) (t u : NumberType) (f : Format) : EntryPoint :=
  ⟨name, [t], u, true, fun a => ofInt (f.toInteger u.least u.greatest (pattern a 0))⟩

def float (name : String) (t u : NumberType) (f : Format) : EntryPoint :=
  ⟨name, [t], u, true, fun a => UInt64.ofNat (f.ofInteger (t.toInt (a.getD 0 0)))⟩

def comparison (name : String) (t : NumberType) (f : Format) (unordered : Int) : EntryPoint :=
  ⟨name, [t, t], .signed32, true,
    fun a => ofInt (f.compareOr unordered (pattern a 0) (pattern a 1))⟩

end EntryPoint

open EntryPoint

/-- The elementary functions, in double and, with a final `f`, in single precision. -/
def elementaryEntries : List EntryPoint :=
  elementary.flatMap (fun e => [
    (unary e.name .double (onDouble e.double)).inexact,
    (unary (e.name ++ "f") .single (onSingle e.single)).inexact]) ++ [
  (binary "atan2" .double (onDoubles Float.atan2)).inexact,
  (binary "atan2f" .single (onSingles Float32.atan2)).inexact,
  (binary "pow" .double (onDoubles Float.pow)).inexact,
  (binary "powf" .single (onSingles Float32.pow)).inexact,
  (binary "hypot" .double double.hypotenuse).inexact,
  (binary "hypotf" .single single.hypotenuse).inexact]

/-- The functions of a format that are exact or rounded correctly; `suffix` ends their names. -/
def roundedEntries (t : NumberType) (f : Format) (suffix : String) : List EntryPoint := [
  unary ("sqrt" ++ suffix) t f.squareRoot,
  unary ("ceil" ++ suffix) t f.ceiling,
  unary ("floor" ++ suffix) t f.floor,
  unary ("fabs" ++ suffix) t f.magnitude,
  unary ("round" ++ suffix) t f.nearest,
  unary ("trunc" ++ suffix) t f.truncate,
  binary ("fmod" ++ suffix) t f.modulo,
  binary ("fmin" ++ suffix) t f.minimum,
  binary ("fmax" ++ suffix) t f.maximum]

def mathEntries : List EntryPoint :=
  elementaryEntries ++ roundedEntries .double double "" ++ roundedEntries .single single "f"

def integerEntries : List EntryPoint := [
  integer "__mulsi3" .signed32 product,
  integer "__divsi3" .signed32 signedQuotient,
  integer "__udivsi3" .unsigned32 quotient,
  integer "__modsi3" .signed32 signedRemainder,
  integer "__umodsi3" .unsigned32 remainder,
  integer "__muldi3" .signed64 product,
  integer "__divdi3" .signed64 signedQuotient,
  integer "__udivdi3" .unsigned64 quotient,
  integer "__moddi3" .signed64 signedRemainder,
  integer "__umoddi3" .unsigned64 remainder]

/-- Arithmetic and comparison in a format; `mode` is its name among compiler helpers. -/
def formatEntries (t : NumberType) (f : Format) (mode : String) : List EntryPoint := [
  binary ("__add" ++ mode ++ "3") t f.add,
  binary ("__sub" ++ mode ++ "3") t f.subtract,
  binary ("__mul" ++ mode ++ "3") t f.multiply,
  binary ("__div" ++ mode ++ "3") t f.divide,
  unary ("__neg" ++ mode ++ "2") t f.negate,
  fix ("__fix" ++ mode ++ "si") t .signed32 f,
  fix ("__fix" ++ mode ++ "di") t .signed64 f,
  fix ("__fixuns" ++ mode ++ "si") t .unsigned32 f,
  float ("__floatsi" ++ mode) .signed32 t f,
  float ("__floatdi" ++ mode) .signed64 t f,
  float ("__floatunsi" ++ mode) .unsigned32 t f,
  comparison ("__eq" ++ mode ++ "2") t f 1,
  comparison ("__ne" ++ mode ++ "2") t f 1,
  comparison ("__lt" ++ mode ++ "2") t f 1,
  comparison ("__le" ++ mode ++ "2") t f 1,
  comparison ("__gt" ++ mode ++ "2") t f (-1),
  comparison ("__ge" ++ mode ++ "2") t f (-1),
  ⟨"__unord" ++ mode ++ "2", [t, t], .signed32, true,
    fun a => if f.isUnordered (pattern a 0) (pattern a 1) then 1 else 0⟩]

def softFloatEntries : List EntryPoint :=
  formatEntries .single single "sf" ++ formatEntries .double double "df" ++ [
  ⟨"__extendsfdf2", [.single], .double, true,
    fun a => UInt64.ofNat (single.convert double (pattern a 0))⟩,
  ⟨"__truncdfsf2", [.double], .single, true,
    fun a => UInt64.ofNat (double.convert single (pattern a 0))⟩]

def entryPoint? (name : String) : Option EntryPoint :=
  (mathEntries ++ integerEntries ++ softFloatEntries).find? (·.name == name)

end AppHost
