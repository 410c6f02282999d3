import AppHost.Number.Power
import AppHost.Toml.Value
/-! The scalars of TOML: the four kinds of string, and what can be told from a word of letters,
digits and signs: booleans, integers, floats, dates and times. -/
namespace AppHost.Toml

/-- Whether a character may stand for itself in a string or a comment: no control but the tab. -/
def isTextChar (c : Char) : Bool := c == '\t' || ('\x20' ≤ c && c != '\x7f')

def isBlank (c : Char) : Bool := c == ' ' || c == '\t'

def skipBlanks (cs : List Char) : List Char := cs.dropWhile isBlank

def hexValue? (c : Char) : Option Nat :=
  if c.isDigit then some (c.toNat - '0'.toNat)
  else if 'a' ≤ c && c ≤ 'f' then some (c.toNat - 'a'.toNat + 10)
  else if 'A' ≤ c && c ≤ 'F' then some (c.toNat - 'A'.toNat + 10)
  else none

def scalar? (digits : List Char) : Option Char := do
  let n := (← digits.mapM hexValue?).foldl (fun n d => 16 * n + d) 0
  if n.isValidChar then some (Char.ofNat n) else none

def escape? : Char → Option Char
  | 'b' => some '\x08'
  | 't' => some '\t'
  | 'n' => some '\n'
  | 'f' => some '\x0c'
  | 'r' => some '\r'
  | '"' => some '"'
  | '\\' => some '\\'
  | _ => none

abbrev Scanned := Option (List Char × List Char)

def Scanned.cons (c : Char) (s : Scanned) : Scanned := s.map fun (text, rest) => (c :: text, rest)

def basic : List Char → Scanned
  | '"' :: rest => some ([], rest)
  | '\\' :: 'u' :: a :: b :: c :: d :: rest =>
    (scalar? [a, b, c, d]).bind fun x => Scanned.cons x (basic rest)
  | '\\' :: 'U' :: a :: b :: c :: d :: e :: f :: g :: h :: rest =>
    (scalar? [a, b, c, d, e, f, g, h]).bind fun x => Scanned.cons x (basic rest)
  | '\\' :: c :: rest => (escape? c).bind fun x => Scanned.cons x (basic rest)
  | c :: rest => if c != '\\' && isTextChar c then Scanned.cons c (basic rest) else none
  | [] => none

def literal : List Char → Scanned
  | '\'' :: rest => some ([], rest)
  | c :: rest => if isTextChar c then Scanned.cons c (literal rest) else none
  | [] => none

def endsLine (cs : List Char) : Bool :=
  match skipBlanks cs with
  | '\n' :: _ => true
  | '\r' :: '\n' :: _ => true
  | _ => false

/-- The rest of a basic string of several lines. `trimming` is on after a backslash at the end of
a line: blanks and line ends are dropped up to the next other character. -/
def basicLines (trimming : Bool) : List Char → Scanned
  | '"' :: '"' :: '"' :: '"' :: '"' :: rest => some (['"', '"'], rest)
  | '"' :: '"' :: '"' :: '"' :: rest => some (['"'], rest)
  | '"' :: '"' :: '"' :: rest => some ([], rest)
  | '\\' :: 'u' :: a :: b :: c :: d :: rest =>
    (scalar? [a, b, c, d]).bind fun x => Scanned.cons x (basicLines false rest)
  | '\\' :: 'U' :: a :: b :: c :: d :: e :: f :: g :: h :: rest =>
    (scalar? [a, b, c, d, e, f, g, h]).bind fun x => Scanned.cons x (basicLines false rest)
  | '\\' :: c :: rest =>
    match escape? c with
    | some x => Scanned.cons x (basicLines false rest)
    | none => if endsLine (c :: rest) then basicLines true rest else none
  | '\r' :: '\n' :: rest =>
    if trimming then basicLines true rest else Scanned.cons '\n' (basicLines false rest)
  | c :: rest =>
    if trimming && (isBlank c || c == '\n') then basicLines true rest
    else if c == '\n' || (c != '\\' && isTextChar c) then
      Scanned.cons c (basicLines false rest)
    else none
  | [] => none

def literalLines : List Char → Scanned
  | '\'' :: '\'' :: '\'' :: '\'' :: '\'' :: rest => some (['\'', '\''], rest)
  | '\'' :: '\'' :: '\'' :: '\'' :: rest => some (['\''], rest)
  | '\'' :: '\'' :: '\'' :: rest => some ([], rest)
  | '\r' :: '\n' :: rest => Scanned.cons '\n' (literalLines rest)
  | c :: rest =>
    if c == '\n' || isTextChar c then Scanned.cons c (literalLines rest) else none
  | [] => none

def dropLineEnd : List Char → List Char
  | '\n' :: rest => rest
  | '\r' :: '\n' :: rest => rest
  | cs => cs

def string? : List Char → Option (String × List Char)
  | '"' :: '"' :: '"' :: rest =>
    (basicLines false (dropLineEnd rest)).map fun (s, r) => (.ofList s, r)
  | '\'' :: '\'' :: '\'' :: rest =>
    (literalLines (dropLineEnd rest)).map fun (s, r) => (.ofList s, r)
  | '"' :: rest => (basic rest).map fun (s, r) => (.ofList s, r)
  | '\'' :: rest => (literal rest).map fun (s, r) => (.ofList s, r)
  | _ => none

/-- The digits of a number whose underscores each stand between two digits. -/
def digits? (isDigit : Char → Bool) (cs : List Char) : Option (List Char) :=
  let groups := cs.splitOn '_'
  if groups.all fun g => !g.isEmpty && g.all isDigit then some groups.flatten else none

def decimal? (cs : List Char) : Option Nat := do
  let ds ← digits? Char.isDigit cs
  if ds.head? == some '0' && cs.length != 1 then none
  else some (ds.foldl (fun n d => 10 * n + (d.toNat - '0'.toNat)) 0)

def signed : List Char → Bool × List Char
  | '-' :: rest => (true, rest)
  | '+' :: rest => (false, rest)
  | cs => (false, cs)

def inBase? (base : Nat) (cs : List Char) : Option Nat := do
  let ds ← digits? (fun c => (hexValue? c).any (· < base)) cs
  return ds.foldl (fun n d => base * n + (hexValue? d).getD 0) 0

def magnitude? : List Char → Option Int
  | '0' :: 'x' :: rest => (inBase? 16 rest).map Int.ofNat
  | '0' :: 'o' :: rest => (inBase? 8 rest).map Int.ofNat
  | '0' :: 'b' :: rest => (inBase? 2 rest).map Int.ofNat
  | cs =>
    let (negative, ds) := signed cs
    (decimal? ds).map fun n => if negative then -(n : Int) else n

def integer? (cs : List Char) : Option Int :=
  (magnitude? cs).filter fun n => -2 ^ 63 ≤ n && n < 2 ^ 63

def isFloatTail (cs : List Char) : Bool :=
  let exponent := fun (cs : List Char) => match cs with
    | 'e' :: rest | 'E' :: rest => (digits? Char.isDigit (signed rest).2).isSome
    | _ => false
  match cs with
  | '.' :: rest =>
    let (fraction, rest) := rest.span fun c => c.isDigit || c == '_'
    (digits? Char.isDigit fraction).isSome && (rest.isEmpty || exponent rest)
  | _ => exponent cs

def isFloat (cs : List Char) : Bool :=
  let (_, body) := signed cs
  let (whole, rest) := body.span fun c => c.isDigit || c == '_'
  body == "inf".toList || body == "nan".toList || ((decimal? whole).isSome && isFloatTail rest)

def field? (width low high : Nat) (cs : List Char) : Option (Nat × List Char) :=
  let ds := cs.take width
  let n := ds.foldl (fun n d => 10 * n + (d.toNat - '0'.toNat)) 0
  if ds.length == width && ds.all Char.isDigit && low ≤ n && n ≤ high then
    some (n, cs.drop width)
  else none

def after? (c : Char) (cs : List Char) : Option (List Char) :=
  if cs.head? == some c then some cs.tail else none

def isLeap (year : Nat) : Bool := year % 4 == 0 && (year % 100 != 0 || year % 400 == 0)

def daysIn (year month : Nat) : Nat :=
  if month == 2 then (if isLeap year then 29 else 28)
  else if [4, 6, 9, 11].contains month then 30 else 31

def date? (cs : List Char) : Option (List Char) := do
  let (year, cs) ← field? 4 0 9999 cs
  let (month, cs) ← field? 2 1 12 (← after? '-' cs)
  let (_, cs) ← field? 2 1 (daysIn year month) (← after? '-' cs)
  return cs

def fraction? : List Char → Option (List Char)
  | '.' :: rest =>
    if (rest.takeWhile Char.isDigit).isEmpty then none else some (rest.dropWhile Char.isDigit)
  | cs => some cs

def time? (cs : List Char) : Option (List Char) := do
  let (_, cs) ← field? 2 0 23 cs
  let (_, cs) ← field? 2 0 59 (← after? ':' cs)
  let (_, cs) ← field? 2 0 60 (← after? ':' cs)
  fraction? cs

def isOffset (cs : List Char) : Bool :=
  match cs with
  | [] => true
  | ['Z'] | ['z'] => true
  | '+' :: rest | '-' :: rest =>
    match (do
      let (_, cs) ← field? 2 0 23 rest
      let (_, cs) ← field? 2 0 59 (← after? ':' cs)
      return cs.isEmpty : Option Bool) with
    | some b => b
    | none => false
  | _ => false

def isDateTime (cs : List Char) : Bool :=
  match date? cs, time? cs with
  | some [], _ => true
  | some (d :: rest), _ => (d == 'T' || d == 't' || d == ' ') && ((time? rest).any isOffset)
  | none, some [] => true
  | none, _ => false

def isWordChar (c : Char) : Bool :=
  c.isAlphanum || c == '_' || c == '+' || c == '-' || c == '.' || c == ':'

/-- The text of a scalar that is no string. A date may go on with a time after one blank. -/
def word (cs : List Char) : List Char × List Char :=
  let (first, rest) := cs.span isWordChar
  match rest with
  | ' ' :: d :: more =>
    if d.isDigit && date? first == some [] then
      let (second, rest) := (d :: more).span isWordChar
      (first ++ ' ' :: second, rest)
    else (first, rest)
  | _ => (first, rest)

def wordValue? (cs : List Char) : Option Value :=
  if cs == "true".toList then some (.boolean true)
  else if cs == "false".toList then some (.boolean false)
  else match integer? cs with
    | some n => some (.integer n)
    | none =>
      if isFloat cs then some (.float (.ofList cs))
      else if isDateTime cs then some (.dateTime (.ofList cs))
      else none

end AppHost.Toml
