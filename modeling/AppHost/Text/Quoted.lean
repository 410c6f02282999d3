import AppHost.Text.Hex
import AppHost.Text.Unseen
/-! Quoted text in descriptions: a character that a reader would not see stands as an escape. -/
namespace AppHost.Text

def escaped (c : Char) : String :=
  match c with
  | '\x00' => "\\0"
  | '\t' => "\\t"
  | '\n' => "\\n"
  | '\r' => "\\r"
  | '"' => "\\\""
  | '\\' => "\\\\"
  | c => if isSeen c then String.singleton c else "\\u\x7b" ++ hexDigits c.toNat 0 ++ "\x7d"

def quoted (s : String) : String := "\"" ++ String.join (s.toList.map escaped) ++ "\""

end AppHost.Text
