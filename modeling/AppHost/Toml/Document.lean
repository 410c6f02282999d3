import AppHost.Toml.Scalar
/-! TOML documents: lines that hold a key with its value, a table header, or nothing, each
perhaps with a comment. Recursion is bounded by the length of the text. -/
namespace AppHost.Toml

def isBareChar (c : Char) : Bool := c.isAlphanum || c == '_' || c == '-'

def keyPart? (cs : List Char) : Option (String × List Char) :=
  match cs with
  | '"' :: rest => (basic rest).map fun (s, r) => (.ofList s, r)
  | '\'' :: rest => (literal rest).map fun (s, r) => (.ofList s, r)
  | _ =>
    let (part, rest) := cs.span isBareChar
    if part.isEmpty then none else some (.ofList part, rest)

/-- A key as its parents and its last part, with blanks around dots and after it skipped. -/
def key? : Nat → List Char → Option (List String × String × List Char)
  | 0, _ => none
  | fuel + 1, cs => do
    let (part, rest) ← keyPart? cs
    match skipBlanks rest with
    | '.' :: rest =>
      let (parents, last, rest) ← key? fuel (skipBlanks rest)
      return (part :: parents, last, rest)
    | rest => return ([], part, rest)

def skipLines : Nat → List Char → Option (List Char)
  | 0, _ => none
  | fuel + 1, cs =>
    match skipBlanks cs with
    | '\n' :: rest => skipLines fuel rest
    | '\r' :: '\n' :: rest => skipLines fuel rest
    | '#' :: rest => skipLines fuel (rest.dropWhile isTextChar)
    | rest => some rest

mutual

def value? : Nat → List Char → Option (Value × List Char)
  | 0, _ => none
  | fuel + 1, cs =>
    match cs with
    | '"' :: _ | '\'' :: _ => (string? cs).map fun (s, r) => (.string s, r)
    | '[' :: rest => (items? fuel rest).map fun (items, r) => (.array items, r)
    | '{' :: rest =>
      match skipBlanks rest with
      | '}' :: rest => some (.table .inlined [], rest)
      | rest => (pairs? fuel rest []).map fun (es, r) => (.table .inlined es, r)
    | _ =>
      let (text, rest) := word cs
      (wordValue? text).map fun v => (v, rest)

def items? : Nat → List Char → Option (List Value × List Char)
  | 0, _ => none
  | fuel + 1, cs => do
    match ← skipLines (cs.length + 1) cs with
    | ']' :: rest => return ([], rest)
    | cs =>
      let (v, rest) ← value? fuel cs
      match ← skipLines (rest.length + 1) rest with
      | ',' :: rest =>
        let (items, rest) ← items? fuel rest
        return (v :: items, rest)
      | ']' :: rest => return ([v], rest)
      | _ => none

/-- The pairs of an inline table up to its end, which is on the same line. -/
def pairs? : Nat → List Char → Entries → Option (Entries × List Char)
  | 0, _, _ => none
  | fuel + 1, cs, es => do
    let (parents, last, rest) ← key? (cs.length + 1) (skipBlanks cs)
    let (v, rest) ← value? fuel (skipBlanks (← after? '=' rest))
    let es ← es.addKey .inlined parents last v
    match skipBlanks rest with
    | ',' :: rest => pairs? fuel rest es
    | '}' :: rest => return (es, rest)
    | _ => none

end

def lineEnd? (cs : List Char) : Option (List Char) :=
  let cs := match skipBlanks cs with
    | '#' :: rest => rest.dropWhile isTextChar
    | rest => rest
  match cs with
  | [] => some []
  | '\n' :: rest => some rest
  | '\r' :: '\n' :: rest => some rest
  | _ => none

/-- A document as read so far: its entries, and the path of the table that lines add to. -/
structure Open where
  entries : Entries
  path : List String

def line? (o : Open) (cs : List Char) : Option (Open × List Char) :=
  let fuel := cs.length + 1
  match skipBlanks cs with
  | '[' :: '[' :: rest => do
    let (parents, last, rest) ← key? fuel (skipBlanks rest)
    let rest ← lineEnd? (← after? ']' (← after? ']' rest))
    let entries ← o.entries.modifyAt false (Entries.openElement last) parents .header
    return (⟨entries, parents ++ [last]⟩, rest)
  | '[' :: rest => do
    let (parents, last, rest) ← key? fuel (skipBlanks rest)
    let rest ← lineEnd? (← after? ']' rest)
    let entries ← o.entries.modifyAt false (Entries.openTable last) parents .header
    return (⟨entries, parents ++ [last]⟩, rest)
  | rest => do
    if let some next := lineEnd? rest then return (o, next)
    let (parents, last, rest) ← key? fuel rest
    let (v, rest) ← value? fuel (skipBlanks (← after? '=' rest))
    let rest ← lineEnd? rest
    let add := fun form es => Entries.addKey es form parents last v
    return (⟨← o.entries.modifyAt false add o.path .header, o.path⟩, rest)

def lines? : Nat → Open → List Char → Option Entries
  | 0, _, _ => none
  | _ + 1, o, [] => some o.entries
  | fuel + 1, o, cs => do
    let (o, rest) ← line? o cs
    lines? fuel o rest

def document? (text : String) : Option Entries :=
  let cs := match text.toList with
    | '\ufeff' :: rest => rest
    | cs => cs
  lines? (cs.length + 1) ⟨[], []⟩ cs

end AppHost.Toml
