import AppHost.Word
/-! Addresses in messages: lower-case hexadecimal after `0x`. -/
namespace AppHost.Text

def hexDigits (n digits : Nat) : String :=
  let plain := Nat.toDigits 16 n
  String.ofList (List.replicate (digits - plain.length) '0' ++ plain)

def address (a : Word) : String := "0x" ++ hexDigits a.toNat 0

/-- An address as written in load reports, with at least eight digits. -/
def wideAddress (a : Word) : String := "0x" ++ hexDigits a.toNat 8

end AppHost.Text
