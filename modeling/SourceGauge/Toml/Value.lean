namespace SourceGauge.Toml

inductive Magnitude where
  /-- The number `digits * 10 ^ exponent`. -/
  | finite (digits : Nat) (exponent : Int)
  | infinity
  | nan
deriving DecidableEq, Repr

/-- How a table came to be decides whether a later line may still add to it. -/
inductive Origin where
  /-- Written between braces. It is complete at once. -/
  | inline
  /-- Opened by its own header. -/
  | header
  /-- Only passed by the header of a table below it. -/
  | implied
  /-- Made by a dotted key. -/
  | dotted
deriving DecidableEq, Repr

inductive Value where
  | string (text : String)
  | integer (value : Int)
  | float (negative : Bool) (magnitude : Magnitude)
  | boolean (value : Bool)
  | datetime (text : String)
  /-- Only an array of tables made by headers can grow. -/
  | array (ofTables : Bool) (items : List Value)
  | table (origin : Origin) (entries : List (String × Value))

abbrev Entries := List (String × Value)

/-- Replaces the value under a key, or appends one, as `f` decides. -/
def alter (key : String) (f : Option Value → Option Value) : Entries → Option Entries
  | [] => (f none).map fun v => [(key, v)]
  | (k, v) :: rest =>
    if k = key then (f (some v)).map fun w => (k, w) :: rest
    else (alter key f rest).map ((k, v) :: ·)

/-- Puts a value under a dotted key. The tables on the way must be made by dotted keys or only be
implied, and the last key must be new. -/
def insert (value : Value) : List String → Entries → Option Entries
  | [], _ => none
  | [key], es => alter key (fun old => if old.isNone then some value else none) es
  | key :: keys, es =>
    alter key (fun
      | none => (insert value keys []).map (.table .dotted)
      | some (.table origin inner) =>
        if origin = .dotted || origin = .implied then
          (insert value keys inner).map (.table origin)
        else none
      | some _ => none) es

/-- Changes the table that a header passes. In an array of tables that is the last one. -/
def pass (f : Entries → Option Entries) : Option Value → Option Value
  | none => (f []).map (.table .implied)
  | some (.table origin inner) =>
    if origin = .inline then none else (f inner).map (.table origin)
  | some (.array true items) =>
    match items.getLast? with
    | some (.table origin inner) =>
      (f inner).map fun es => .array true (items.dropLast ++ [.table origin es])
    | _ => none
  | some _ => none

/-- Changes the table at a path of headers. -/
def descend (f : Entries → Option Entries) : List String → Entries → Option Entries
  | [], es => f es
  | key :: keys, es => alter key (pass (descend f keys)) es

/-- A header opens a new table, or one that was only implied so far. -/
def openTable (path : List String) (es : Entries) : Option Entries :=
  path.getLast?.bind fun key =>
    descend (alter key fun
      | none => some (.table .header [])
      | some (.table .implied inner) => some (.table .header inner)
      | some _ => none) path.dropLast es

/-- A doubled header appends a table to an array of tables. -/
def openElement (path : List String) (es : Entries) : Option Entries :=
  path.getLast?.bind fun key =>
    descend (alter key fun
      | none => some (.array true [.table .header []])
      | some (.array true items) => some (.array true (items ++ [.table .header []]))
      | some _ => none) path.dropLast es

end SourceGauge.Toml
