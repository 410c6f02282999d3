/-! TOML values, and the rules by which keys and headers build up tables: no key is defined
twice, a table has at most one header, and a table written inline or by dotted keys is closed to
headers of its own. -/
namespace AppHost.Toml

inductive TableForm where
  /-- By its own header, or as the document itself. -/
  | header
  /-- As a parent in a header. -/
  | implied
  /-- As a parent in a dotted key. -/
  | dotted
  /-- Written inline, and closed. -/
  | inlined
  deriving DecidableEq, Repr

inductive Value where
  | string (text : String)
  | integer (n : Int)
  | boolean (b : Bool)
  | float (text : String)
  | dateTime (text : String)
  | array (items : List Value)
  | table (form : TableForm) (entries : List (String × Value))
  /-- Tables given one by one, each under a header of its own; the last is open. -/
  | tables (all : List (List (String × Value)))
  deriving Repr

abbrev Entries := List (String × Value)

namespace Entries

def replace (es : Entries) (key : String) (v : Value) : Entries :=
  es.map fun e => if e.1 == key then (key, v) else e

/-- Changes the entries of the table at a path, making tables on the way. `byKeys` says that the
path is of a dotted key, which must not reach into a table that has a header. -/
def modifyAt (byKeys : Bool) (change : TableForm → Entries → Option Entries) :
    List String → TableForm → Entries → Option Entries
  | [], form, es => change form es
  | key :: rest, _, es =>
    match es.lookup key with
    | none =>
      let form := if byKeys then .dotted else .implied
      (modifyAt byKeys change rest form []).map fun inner => es ++ [(key, .table form inner)]
    | some (.table form inner) =>
      if form == .inlined || (byKeys && form == .header) then none
      else (modifyAt byKeys change rest form inner).map fun inner =>
        es.replace key (.table form inner)
    | some (.tables all) =>
      (modifyAt byKeys change rest .header (all.getLast?.getD [])).map fun inner =>
        es.replace key (.tables (all.dropLast ++ [inner]))
    | some _ => none

/-- Adds a key to a table. A dotted key may only extend tables made by dotted keys. -/
def define (extended : Bool) (key : String) (v : Value) (form : TableForm) (es : Entries) :
    Option Entries :=
  if (form == .dotted) != extended || (es.lookup key).isSome then none else some (es ++ [(key, v)])

def addKey (es : Entries) (form : TableForm) (parents : List String) (key : String) (v : Value) :
    Option Entries :=
  modifyAt true (define (!parents.isEmpty) key v) parents form es

/-- Opens the table of a header. Only a table that a header implied may be there before. -/
def openTable (key : String) (_ : TableForm) (es : Entries) : Option Entries :=
  match es.lookup key with
  | none => some (es ++ [(key, .table .header [])])
  | some (.table .implied inner) =>
    some (es.filter (·.1 != key) ++ [(key, .table .header inner)])
  | some _ => none

def openElement (key : String) (_ : TableForm) (es : Entries) : Option Entries :=
  match es.lookup key with
  | none => some (es ++ [(key, .tables [[]])])
  | some (.tables all) => some (es.replace key (.tables (all ++ [[]])))
  | some _ => none

end Entries

end AppHost.Toml
