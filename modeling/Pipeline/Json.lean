/-!
# JSON values

* `Json`: the values. Objects keep their fields in the order in which they were written, with
  repetitions.
* `Json.field?`, `Json.item?`: the parts of a value.
-/

namespace Pipeline

/-- A JSON value. Integers and other numbers are told apart; of a number that is no integer the
written form is kept. -/
inductive Json where
  | null
  | bool (b : Bool)
  | int (i : Int)
  | real (digits : String)
  | str (s : String)
  | arr (items : List Json)
  | obj (fields : List (String × Json))
  deriving Inhabited, Repr

namespace Json

/-- The value of the first field of the given name. -/
def field? (name : String) : Json → Option Json
  | .obj fields => fields.lookup name
  | _ => none

/-- The entry at a position of a list. -/
def item? (i : Nat) : Json → Option Json
  | .arr items => items[i]?
  | _ => none

/-- The list of texts as a value. -/
def texts (ss : List String) : Json := .arr (ss.map .str)

/-- A natural number as a value. -/
def nat (n : Nat) : Json := .int n

/-- A value that may be missing. -/
def optional {α : Type} (f : α → Json) : Option α → Json
  | none => .null
  | some a => f a

/-- A text that may be missing. -/
def optionalText : Option String → Json := optional .str

/-- Every object of a value with its fields ordered by their names. -/
def sorted : Json → Json
  | .arr items => .arr (sortedItems items)
  | .obj fields => .obj ((sortedFields fields).mergeSort fun a b => decide (a.1 ≤ b.1))
  | v => v
where
  sortedItems : List Json → List Json
    | [] => []
    | v :: vs => v.sorted :: sortedItems vs
  sortedFields : List (String × Json) → List (String × Json)
    | [] => []
    | (k, v) :: rest => (k, v.sorted) :: sortedFields rest

end Json

end Pipeline
