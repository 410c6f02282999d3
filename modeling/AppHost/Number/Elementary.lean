import AppHost.Number.Binary
/-! Elementary functions on the patterns of both formats, by the host's mathematical library.
Their last bits are the host's. A signaling operand leaves no number, also where a quiet one
would not matter. -/
namespace AppHost.Number

def onDouble (f : Float → Float) (a : Nat) : Nat :=
  (f (Float.ofBits (UInt64.ofNat a))).toBits.toNat

def onDoubles (f : Float → Float → Float) (a b : Nat) : Nat :=
  if double.isSignaling a || double.isSignaling b then double.quiet
  else (f (Float.ofBits (UInt64.ofNat a)) (Float.ofBits (UInt64.ofNat b))).toBits.toNat

def onSingle (f : Float32 → Float32) (a : Nat) : Nat :=
  (f (Float32.ofBits (UInt32.ofNat a))).toBits.toNat

def onSingles (f : Float32 → Float32 → Float32) (a b : Nat) : Nat :=
  if single.isSignaling a || single.isSignaling b then single.quiet
  else (f (Float32.ofBits (UInt32.ofNat a)) (Float32.ofBits (UInt32.ofNat b))).toBits.toNat

structure Elementary where
  name : String
  double : Float → Float
  single : Float32 → Float32

def elementary : List Elementary := [
  ⟨"acos", Float.acos, Float32.acos⟩, ⟨"asin", Float.asin, Float32.asin⟩,
  ⟨"atan", Float.atan, Float32.atan⟩, ⟨"cos", Float.cos, Float32.cos⟩,
  ⟨"sin", Float.sin, Float32.sin⟩, ⟨"tan", Float.tan, Float32.tan⟩,
  ⟨"cosh", Float.cosh, Float32.cosh⟩, ⟨"sinh", Float.sinh, Float32.sinh⟩,
  ⟨"tanh", Float.tanh, Float32.tanh⟩, ⟨"exp", Float.exp, Float32.exp⟩,
  ⟨"log", Float.log, Float32.log⟩, ⟨"log10", Float.log10, Float32.log10⟩]

end AppHost.Number
