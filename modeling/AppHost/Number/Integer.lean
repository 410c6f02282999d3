/-! Division helpers on fixed-width integers. Division and remainder by zero are zero; all else
truncates toward zero and wraps. -/
namespace AppHost.Number

variable {w : Nat}

def product (a b : BitVec w) : BitVec w := a * b

def quotient (a b : BitVec w) : BitVec w := if b = 0 then 0 else a.udiv b

def remainder (a b : BitVec w) : BitVec w := if b = 0 then 0 else a.umod b

/-- The most negative dividend over -1 wraps to itself. -/
def signedQuotient (a b : BitVec w) : BitVec w := if b = 0 then 0 else a.sdiv b

/-- The remainder is zero or has the sign of the dividend. -/
def signedRemainder (a b : BitVec w) : BitVec w := if b = 0 then 0 else a.srem b

end AppHost.Number
