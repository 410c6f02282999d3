import AppHost.Text.Hex
/-! Why a mapping or a memory access is refused. -/
namespace AppHost.Memory

inductive MapError where
  | zeroLength
  | badAlignment (align : Word)
  | exhausted (size : Word)
  | overflow
  deriving DecidableEq, Repr

def MapError.message : MapError → String
  | .zeroLength => "zero-length mapping"
  | .badAlignment align => "alignment " ++ toString align.toNat ++ " is not a power of two"
  | .exhausted size => "allocator exhausted (" ++ toString size.toNat ++ " bytes requested)"
  | .overflow => "mapping size overflow"

inductive AccessError where
  | unmapped (address : Word)
  | outOfBounds (address length : Word)
  deriving DecidableEq, Repr

def AccessError.message : AccessError → String
  | .unmapped a => "address " ++ Text.address a ++ " is not mapped"
  | .outOfBounds a length =>
    "access at " ++ Text.address a ++ " of " ++ toString length.toNat ++
      " bytes crosses a range boundary"

end AppHost.Memory
