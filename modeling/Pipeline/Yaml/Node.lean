import Pipeline.Yaml.Tree
import Pipeline.Yaml.Token.Layout

/-!
# Documents as values

* `Yaml.Node`: a value in which every alias is replaced by what it names.
* `Yaml.Node.ofText?`: the document of a text.

An anchor is known by the number of different names that were in use when it was set, so a name
that is set again may share its number with the next new name; the last value with the number
is the one that its aliases name. A value that contains itself has no end, and so stands for
nothing that can be read; neither does what is nested more than 128 levels deep, nor what lies
behind too many aliases.
-/

namespace Pipeline

namespace Yaml

/-- A value with its aliases resolved. -/
inductive Node where
  | scalar (style : Style) (tag : Option String) (text : String)
  | sequence (tag : Option String) (items : List Node)
  | mapping (tag : Option String) (entries : List (Node × Node))
  /-- What cannot be read because it has no end. -/
  | endless
  deriving Repr, Inhabited

/-- A value whose anchors are known by numbers. -/
abbrev NumberedTree := Tree Nat

namespace Tree

/-- The names that are in use, each with its number, the last one first. -/
abbrev Names := List (String × Nat)

/-- Sets an anchor. -/
def setAnchor (names : Names) (p : Properties String) : Names × Properties Nat :=
  match p.anchor with
  | none => (names, ⟨none, p.tag⟩)
  | some name =>
    let n := (names.map Prod.fst).eraseDups.length
    ((name, n) :: names, ⟨some n, p.tag⟩)

mutual

/-- Goes through a value in order and numbers its anchors. An alias of a name that is not in
use is refused. -/
def number? (names : Names) : NamedTree → Option (NumberedTree × Names)
  | .scalar p style text =>
    let (names, p) := setAnchor names p
    some (.scalar p style text, names)
  | .sequence p items =>
    let (names, p) := setAnchor names p
    (numberItems? names items).map fun (items, names) => (.sequence p items, names)
  | .mapping p entries =>
    let (names, p) := setAnchor names p
    (numberEntries? names entries).map fun (entries, names) => (.mapping p entries, names)
  | .alias name => (names.lookup name).map fun n => (.alias n, names)

/-- Goes through the items of a sequence. -/
def numberItems? (names : Names) : List NamedTree → Option (List NumberedTree × Names)
  | [] => some ([], names)
  | t :: ts =>
    match number? names t with
    | none => none
    | some (t, names) => (numberItems? names ts).map fun (ts, names) => (t :: ts, names)

/-- Goes through the entries of a mapping. -/
def numberEntries? (names : Names) :
    List (NamedTree × NamedTree) → Option (List (NumberedTree × NumberedTree) × Names)
  | [] => some ([], names)
  | (k, v) :: es =>
    match number? names k with
    | none => none
    | some (k, names) =>
      match number? names v with
      | none => none
      | some (v, names) =>
        (numberEntries? names es).map fun (es, names) => ((k, v) :: es, names)

end

/-- The properties of a value. -/
def properties {Anchor : Type} : Tree Anchor → Properties Anchor
  | .scalar p _ _ | .sequence p _ | .mapping p _ => p
  | .alias _ => ⟨none, none⟩

/-- The value itself if it has an anchor, with its number. -/
def ownAnchor (t : NumberedTree) : List (Nat × NumberedTree) :=
  match t.properties.anchor with
  | some n => [(n, t)]
  | none => []

mutual

/-- The values that have anchors, the last ones first. -/
def anchored : NumberedTree → List (Nat × NumberedTree)
  | .scalar p style text => ownAnchor (.scalar p style text)
  | .sequence p items => anchoredItems items ++ ownAnchor (.sequence p items)
  | .mapping p entries => anchoredEntries entries ++ ownAnchor (.mapping p entries)
  | .alias _ => []

/-- The values with anchors in a list. -/
def anchoredItems : List NumberedTree → List (Nat × NumberedTree)
  | [] => []
  | t :: ts => anchoredItems ts ++ anchored t

/-- The values with anchors in a list of pairs. -/
def anchoredEntries : List (NumberedTree × NumberedTree) → List (Nat × NumberedTree)
  | [] => []
  | (k, v) :: es => anchoredEntries es ++ (anchored v ++ anchored k)

end

mutual

/-- How many marks and scalars a value is written with. -/
def size : NumberedTree → Nat
  | .scalar _ _ _ | .alias _ => 1
  | .sequence _ items => 2 + sizeItems items
  | .mapping _ entries => 2 + sizeEntries entries

/-- How many marks and scalars a list is written with. -/
def sizeItems : List NumberedTree → Nat
  | [] => 0
  | t :: ts => size t + sizeItems ts

/-- How many marks and scalars a list of pairs is written with. -/
def sizeEntries : List (NumberedTree × NumberedTree) → Nat
  | [] => 0
  | (k, v) :: es => size k + size v + sizeEntries es

end

end Tree

namespace Node

/-- Goes through a list with a count that each step may change. -/
def mapCount {α β : Type} (f : Nat → α → β × Nat) (count : Nat) : List α → List β × Nat
  | [] => ([], count)
  | a :: as =>
    let (b, count) := f count a
    let (bs, count) := mapCount f count as
    (b :: bs, count)

/-- The value that an alias names, together with the numbers of the values around it. -/
def follow (table : List (Nat × NumberedTree)) (around : List Nat) :
    NumberedTree → Option (NumberedTree × List Nat)
  | .alias n =>
    if n ∈ around then none else (table.lookup n).map fun t => (t, n :: around)
  | t =>
    match t.properties.anchor with
    | some n => some (t, n :: around)
    | none => some (t, around)

/-- Resolves the aliases of a value down to a depth. `around` holds the numbers of the values
around it, `count` how many more aliases may be followed; what is left of it is returned. -/
def resolve (table : List (Nat × NumberedTree)) :
    Nat → List Nat → Nat → NumberedTree → Node × Nat
  | depth, around, count, t =>
    let isAlias := match t with | .alias _ => true | _ => false
    if isAlias && count == 0 then (.endless, 0)
    else
      let count := if isAlias then count - 1 else count
      match follow table around t with
      | none => (.endless, count)
      | some (.alias _, _) => (.endless, count)
      | some (.scalar p style text, _) => (.scalar style p.tag text, count)
      | some (.sequence p items, around) =>
        match depth with
        | 0 => (.endless, count)
        | depth + 1 =>
          let (items, count) := mapCount (resolve table depth around) count items
          (.sequence p.tag items, count)
      | some (.mapping p entries, around) =>
        match depth with
        | 0 => (.endless, count)
        | depth + 1 =>
          let pair (count : Nat) (e : NumberedTree × NumberedTree) : (Node × Node) × Nat :=
            let (k, count) := resolve table depth around count e.1
            let (v, count) := resolve table depth around count e.2
            ((k, v), count)
          let (entries, count) := mapCount pair count entries
          (.mapping p.tag entries, count)

/-- How deep values may nest. -/
def depthLimit : Nat := 128

/-- How many aliases may be followed in a value of the given size. -/
def aliasLimit (size : Nat) : Nat := 100 * size

/-- The value of a document. -/
def ofTree? (t : NamedTree) : Option Node :=
  (t.number? []).map fun (t, _) =>
    (resolve t.anchored depthLimit [] (aliasLimit t.size) t).1

/-- The value of the one document of a text. -/
def ofText? (s : String) : Option Node :=
  (tokens? s).bind fun ts => (Tree.ofTokens? ts).bind ofTree?

end Node

end Yaml

end Pipeline
