import Pipeline.Json
import Pipeline.Yaml.Plain

/-!
# Where specifications are read from

A specification is written in JSON or in YAML. Both are read through one interface, so that
each part of a specification is read in one way.

In YAML a value is read as what is asked for: any scalar is a text where a text is wanted. Some
parts are settled before it is known what they are to be, and then a scalar is what its spelling
says.

* `Source`: a value to read from.
* `Source.text?`, `Source.flag?`, `Source.natural?`, `Source.optional?`, `Source.items?`: read
  values of the simple kinds.
* `Source.record?`: reads the fields of a record, by name or by position.
* `Source.members?`: reads some fields, and leaves the other parts for another record.
* `Source.tagged?`: reads a value whose part `type` tells its kind.
* `Source.option?`: reads one of several names.
-/

namespace Pipeline

/-- A value to read from. The flag tells whether its scalars are settled. -/
inductive Source where
  | json (settled : Bool) (v : Json)
  | yaml (settled : Bool) (n : Yaml.Node)
  deriving Inhabited

/-- How one of several kinds is told: by its name, or by its position among them. -/
inductive Label where
  | name (s : String)
  | position (n : Nat)
  deriving DecidableEq, Repr, Inhabited

/-- The option that a label tells. -/
def Label.pick? {α : Type} (options : List (String × α)) : Label → Option α
  | .name s => options.lookup s
  | .position n => (options[n]?).map Prod.snd

/-- Fields that were found, each with the value to read it from. -/
abbrev Record := List (String × Source)

namespace Record

/-- Reads a field that has to be there. -/
def required {α : Type} (r : Record) (name : String) (read : Source → Option α) : Option α :=
  (r.lookup name).bind read

/-- Reads a field that has a value of its own when it is not there. -/
def withDefault {α : Type} (r : Record) (name : String) (a : α) (read : Source → Option α) :
    Option α :=
  match r.lookup name with
  | none => some a
  | some s => read s

/-- The fields with the given names, unless one of them occurs twice. -/
def known? (names : List String) (r : Record) : Option Record :=
  let found := r.filter fun f => names.contains f.1
  if (found.map Prod.fst).Nodup then some found else none

end Record

namespace Source

/-! ## Simple values -/

/-- The value of a scalar whose kind its spelling tells. -/
def settledScalar? : Yaml.Node → Option Json
  | .scalar style tag text => Yaml.settle? style tag text
  | _ => none

/-- Whether a scalar may be read as a value of a kind that only plain scalars spell. A literal
block may spell it too if it has the tag of the kind. -/
def spells (kind : String) (style : Yaml.Style) (tag : Option String) : Bool :=
  style == .plain || (style == .literal && tag == some (Yaml.standardTag kind))

/-- A text. -/
def text? : Source → Option String
  | .json _ (.str s) => some s
  | .yaml false (.scalar _ _ s) => some s
  | .yaml true n =>
    match settledScalar? n with
    | some (.str s) => some s
    | _ => none
  | _ => none

/-- A boolean. -/
def flag? : Source → Option Bool
  | .json _ (.bool b) => some b
  | .yaml false (.scalar style tag s) => if spells "bool" style tag then Yaml.boolean? s else none
  | .yaml true n =>
    match settledScalar? n with
    | some (.bool b) => some b
    | _ => none
  | _ => none

/-- An integer as a natural number below `limit`. -/
def naturalOfInt? (limit : Nat) : Int → Option Nat
  | .ofNat n => if n < limit then some n else none
  | .negSucc _ => none

/-- A natural number below `limit`. -/
def natural? (limit : Nat) : Source → Option Nat
  | .json _ (.int i) => naturalOfInt? limit i
  | .yaml false (.scalar style tag s) =>
    if spells "int" style tag then (Yaml.unsigned? s).filter (· < limit) else none
  | .yaml true n =>
    match settledScalar? n with
    | some (.int i) => naturalOfInt? limit i
    | _ => none
  | _ => none

/-- A number of 32 bits. -/
def word32? (s : Source) : Option UInt32 := (s.natural? UInt32.size).map UInt32.ofNat

/-- A number of 64 bits. -/
def word64? (s : Source) : Option UInt64 := (s.natural? UInt64.size).map UInt64.ofNat

/-- Whether a value stands for a missing one; nothing if it has the tag of null without being
null. -/
def isMissing? : Source → Option Bool
  | .json _ v => some (match v with | .null => true | _ => false)
  | .yaml false (.scalar style tag s) =>
    if style != .plain then some false
    else
      match tag with
      | none => some (s.isEmpty || Yaml.isNull s)
      | some t =>
        if t = Yaml.standardTag "null" then if Yaml.isNull s then some true else none
        else some false
  | .yaml false _ => some false
  | .yaml true n =>
    some (match settledScalar? n with
      | some .null => true
      | _ => false)

/-- A value that may be missing. -/
def optional? {α : Type} (read : Source → Option α) (s : Source) : Option (Option α) :=
  match s.isMissing? with
  | none => none
  | some true => some none
  | some false => (read s).map some

/-- Whether a node is a scalar of which nothing is written. -/
def isBare : Yaml.Node → Bool
  | .scalar style _ s => style == .plain && s.isEmpty
  | _ => false

/-- The items of a list. In YAML a list of which nothing is written is empty. -/
def items? : Source → Option (List Source)
  | .json settled (.arr vs) => some (vs.map (.json settled))
  | .yaml settled (.sequence _ ns) => some (ns.map (.yaml settled))
  | .yaml false n => if isBare n then some [] else none
  | _ => none

/-- A list of values that are all read in one way. -/
def list? {α : Type} (read : Source → Option α) (s : Source) : Option (List α) :=
  s.items?.bind fun items => items.mapM read

/-- A list of texts. -/
def texts? (s : Source) : Option (List String) := s.list? text?

/-! ## Records -/

/-- The name of a field that a key of a settled mapping tells: itself, or the one at its
position. -/
def keyName? (names : List String) (key : Yaml.Node) : Option String :=
  match settledScalar? key with
  | some (.str s) => some s
  | some (.int (.ofNat n)) => some (names[n]?.getD "")
  | _ => none

/-- The named parts of a value. The names of the fields that are wanted serve keys that tell a
position. -/
def namedParts? (names : List String) : Source → Option Record
  | .json settled (.obj fields) => some (fields.map fun (k, v) => (k, .json settled v))
  | .yaml false (.mapping _ entries) =>
    entries.mapM fun (k, v) => (text? (.yaml false k)).map fun k => (k, .yaml false v)
  | .yaml false n => if isBare n then some [] else none
  | .yaml true (.mapping _ entries) =>
    entries.mapM fun (k, v) => (keyName? names k).map fun k => (k, .yaml true v)
  | _ => none

/-- The parts of a value that is a list: they belong to the fields in order. -/
def listedParts? : Source → Option (List Source)
  | .json settled (.arr vs) => some (vs.map (.json settled))
  | .yaml true (.sequence _ ns) => some (ns.map (.yaml true))
  | _ => none

/-- The fields of a record with the given names. No field may occur twice; parts of other names
are ignored. A list gives the fields in order, and may end early. -/
def record? (names : List String) (s : Source) : Option Record :=
  match s.listedParts? with
  | some parts => if parts.length ≤ names.length then some (names.zip parts) else none
  | none => (s.namedParts? names).bind (Record.known? names)

/-- The value with its scalars settled. -/
def settle? : Source → Option Source
  | .json _ v => some (.json true v)
  | .yaml _ n => if n.settles then some (.yaml true n) else none

/-- The named parts of a settled mapping without those of the given names. Every key is taken as
a text. -/
def otherEntries (names : List String) (entries : List (Yaml.Node × Yaml.Node)) :
    List (Yaml.Node × Yaml.Node) :=
  entries.filterMap fun (k, v) =>
    match text? (.yaml false k) with
    | some name => if names.contains name then none else some (.scalar .quoted none name, v)
    | none => none

/-- The fields of the given names as they are, no name twice, and the value without them,
settled. The value has to have named parts. -/
def members? (names : List String) (s : Source) : Option (Record × Source) :=
  match (s.namedParts? []).bind (Record.known? names), s with
  | some found, .json _ (.obj fields) =>
    some (found, .json true (.obj (fields.filter fun f => !names.contains f.1)))
  | some found, .yaml _ (.mapping _ entries) =>
    ((yaml false (.mapping none (otherEntries names entries))).settle?).map fun rest =>
      (found, rest)
  | some found, .yaml _ _ => some (found, .yaml true (.mapping none []))
  | _, _ => none

/-! ## Kinds -/

/-- The label that a value is, where it is already settled: a name or a position. -/
def settledLabel? : Json → Option Label
  | .str s => some (.name s)
  | .int (.ofNat n) => some (.position n)
  | _ => none

/-- The label that a value is. -/
def label? : Source → Option Label
  | .json false v => (text? (.json false v)).map .name
  | .json true v => settledLabel? v
  | .yaml false n => (text? (.yaml false n)).map .name
  | .yaml true n => (settledScalar? n).bind settledLabel?

/-- The name of the part that tells the kind of a value. -/
def kindKey : String := "type"

/-- Whether a key is the name of the part that tells the kind. -/
def isKindKey (key : Yaml.Node) : Bool :=
  match settledScalar? key with
  | some (.str s) => s == kindKey
  | _ => false

/-- The label of the kind of a value and the value without it, settled. The label is the part
`type` of a value with named parts, and the first item of a list. -/
def tagged? : Source → Option (Label × Source)
  | .json settled (.obj fields) =>
    match fields.filter fun f => f.1 == kindKey with
    | [(_, v)] =>
      (label? (.json settled v)).map fun l =>
        (l, .json true (.obj (fields.filter fun f => f.1 != kindKey)))
    | _ => none
  | .json settled (.arr (v :: vs)) =>
    (label? (.json settled v)).map fun l => (l, .json true (.arr vs))
  | .yaml settled (.mapping tag entries) =>
    let rest := entries.filter fun e => !isKindKey e.1
    if Yaml.Node.isPlainTag tag && Yaml.Node.entriesSettle rest then
      match entries.filter fun e => isKindKey e.1 with
      | [(_, n)] => (label? (.yaml settled n)).map fun l => (l, .yaml true (.mapping none rest))
      | _ => none
    else none
  | .yaml settled (.sequence tag (n :: ns)) =>
    if Yaml.Node.isPlainTag tag && Yaml.Node.itemsSettle ns then
      (label? (.yaml settled n)).map fun l => (l, .yaml true (.sequence none ns))
    else none
  | _ => none

/-- A kind without fields: any named parts are ignored, but a list may hold nothing. -/
def noFields? : Source → Option Unit
  | .json _ (.obj _) => some ()
  | .json _ (.arr []) => some ()
  | .yaml _ (.mapping _ _) => some ()
  | .yaml _ (.sequence _ []) => some ()
  | _ => none

/-- Whether a value holds nothing, as it may stand beside a name. -/
def isNothing : Source → Bool
  | .json settled v =>
    match v with
    | .null => true
    | .obj [] => settled
    | _ => false
  | .yaml _ n =>
    match n with
    | .mapping _ [] => true
    | n =>
      match settledScalar? n with
      | some .null => true
      | _ => false

/-- One of several names: the name itself, or a single name beside which nothing stands. In
YAML that is not settled the name may also be a local tag of nothing. -/
def option? : Source → Option Label
  | .json _ (.str s) => some (.name s)
  | .json settled (.obj [(k, v)]) =>
    if isNothing (.json settled v) then some (.name k) else none
  | .yaml false (.scalar style tag s) =>
    match tag.filter Yaml.isLocalTag with
    | none => some (.name s)
    | some t =>
      if style = .plain ∧ (s.isEmpty ∨ Yaml.isNull s)
      then some (.name (String.ofList (t.toList.drop 1))) else none
  | .yaml true (.mapping _ [(k, v)]) =>
    if isNothing (.yaml true v) then label? (.yaml true k) else none
  | .yaml true n =>
    match settledScalar? n with
    | some (.str s) => some (.name s)
    | _ => none
  | _ => none

/-- One of several options, each of which has a name. -/
def oneOf? {α : Type} (options : List (String × α)) (s : Source) : Option α :=
  s.option?.bind (Label.pick? options)

end Source

end Pipeline
