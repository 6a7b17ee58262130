import MidiScore.Value

/-!
# Tables of TOML

A TOML text says field by field what its tables hold, in any order of tables, and the rules
for what may be said twice depend on how a table came about.  A `Node` keeps that.

A table is *stated* by its own header, *implied* by the header of a table inside it, or
*dotted*, that is, opened by a field with a dotted name.  A header may state an implied table
once.  A dotted name may go on in a dotted or an implied table but ends in a dotted one.
-/

namespace MidiScore.Toml

/-- How a table came about. -/
inductive Standing where
  | stated
  | implied
  | dotted
  deriving DecidableEq

/-- A part of a document that is being read. -/
inductive Node where
  | value (value : Value)
  | table (standing : Standing) (fields : List (String × Node))
  /-- Tables under one repeated header. -/
  | tables (items : List (List (String × Node)))

namespace Node

/-- The fields of a table. -/
abbrev Fields := List (String × Node)

/-- The fields after the node of one name has been replaced. -/
def replace (name : String) (node : Node) : Fields → Fields
  | [] => []
  | (key, old) :: rest =>
    if key = name then (key, node) :: rest else (key, old) :: replace name node rest

/-- The tables after the last one has been changed, if there is one. -/
def changeLast? (change : Fields → Option Fields) : List Fields → Option (List Fields)
  | [] => none
  | [last] => (change last).map fun fields => [fields]
  | first :: rest => (changeLast? change rest).map (first :: ·)

/-- Changes the table at the end of a path of headers.  Tables on the way that are not there
yet are implied; of repeated tables the last one is meant. -/
def change? (change : Fields → Option Fields) : List String → Fields → Option Fields
  | [], fields => change fields
  | name :: path, fields =>
    match fields.lookup name with
    | none => (change? change path []).map fun inner => fields ++ [(name, .table .implied inner)]
    | some (.value _) => none
    | some (.tables items) =>
      (changeLast? (change? change path) items).map fun items =>
        replace name (.tables items) fields
    | some (.table standing inner) =>
      (change? change path inner).map fun inner => replace name (.table standing inner) fields

/-- States the table of a header in its parent. -/
def state? (name : String) (fields : Fields) : Option Fields :=
  match fields.lookup name with
  | none => some (fields ++ [(name, .table .stated [])])
  | some (.table .implied inner) => some (replace name (.table .stated inner) fields)
  | some _ => none

/-- Adds a table under a repeated header in its parent. -/
def repeat? (name : String) (fields : Fields) : Option Fields :=
  match fields.lookup name with
  | none => some (fields ++ [(name, .tables [[]])])
  | some (.tables items) => some (replace name (.tables (items ++ [[]])) fields)
  | some _ => none

/-- Puts a value under a possibly dotted name.  `ends` says whether the name may end in this
table. -/
def put? (name : String) (value : Value) : Bool → List String → Fields → Option Fields
  | ends, [], fields =>
    if ends ∧ (fields.lookup name).isNone then some (fields ++ [(name, .value value)]) else none
  | _, key :: path, fields =>
    match fields.lookup key with
    | none =>
      (put? name value true path []).map fun inner => fields ++ [(key, .table .dotted inner)]
    | some (.value _) => none
    | some (.tables items) =>
      (changeLast? (put? name value false path) items).map fun items =>
        replace key (.tables items) fields
    | some (.table .stated _) => none
    | some (.table standing inner) =>
      (put? name value (standing = .dotted) path inner).map fun inner =>
        replace key (.table standing inner) fields

/-! ## Results -/

mutual

/-- What a node says. -/
def toValue : Node → Value
  | .value v => v
  | .table _ fields => .object (fieldValues fields)
  | .tables items => .list (tableValues items)

/-- What the fields of a table say. -/
def fieldValues : List (String × Node) → List (String × Value)
  | [] => []
  | (name, node) :: rest => (name, toValue node) :: fieldValues rest

/-- What repeated tables say. -/
def tableValues : List (List (String × Node)) → List Value
  | [] => []
  | fields :: rest => .object (fieldValues fields) :: tableValues rest

end

end Node

end MidiScore.Toml
