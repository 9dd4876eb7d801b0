import Pipeline.Yaml.Token

/-!
# Documents as trees

The words of a stream make up a tree of scalars, sequences and mappings. Anchors and aliases
stay what they are.

* `Yaml.Tree`: a value as it is written.
* `Yaml.Tree.ofTokens?`: the one document of a stream. A stream without a document holds the
  empty scalar; a stream with several is refused.
-/

namespace Pipeline

namespace Yaml

/-- What may stand before a value: an anchor, which names it, and a tag. -/
structure Properties (Anchor : Type) where
  anchor : Option Anchor
  tag : Option String
  deriving DecidableEq, Repr, Inhabited

/-- A value as it is written. -/
inductive Tree (Anchor : Type) where
  | scalar (properties : Properties Anchor) (style : Style) (text : String)
  | sequence (properties : Properties Anchor) (items : List (Tree Anchor))
  | mapping (properties : Properties Anchor) (entries : List (Tree Anchor × Tree Anchor))
  | alias (anchor : Anchor)
  deriving Repr, Inhabited

/-- A value whose anchors are the names in the text. -/
abbrev NamedTree := Tree String

namespace Tree

/-- Nothing before a value. -/
def noProperties : Properties String := ⟨none, none⟩

/-- The value that is left out. -/
def empty : NamedTree := .scalar noProperties .plain ""

/-- What tag handles stand for. -/
abbrev Handles := List (String × String)

/-- The handles that need no directive. -/
def defaultHandles : Handles := [("!", "!"), ("!!", "tag:yaml.org,2002:")]

/-- A tag in full. -/
def fullTag? (handles : Handles) (handle suffix : String) : Option String :=
  if handle.isEmpty then some suffix
  else (handles.lookup handle).map (· ++ suffix)

/-- Reads an anchor and a tag, in either order; both may be missing. -/
def properties? (handles : Handles) : List Token → Option (Properties String × List Token)
  | .anchor name :: .tag handle suffix :: rest =>
    (fullTag? handles handle suffix).map fun t => (⟨some name, some t⟩, rest)
  | .tag handle suffix :: .anchor name :: rest =>
    (fullTag? handles handle suffix).map fun t => (⟨some name, some t⟩, rest)
  | .anchor name :: rest => some (⟨some name, none⟩, rest)
  | .tag handle suffix :: rest =>
    (fullTag? handles handle suffix).map fun t => (⟨none, some t⟩, rest)
  | rest => some (noProperties, rest)

/-- The properties of a scalar: a tag that says nothing is dropped. -/
def ofScalar (p : Properties String) : Properties String :=
  ⟨p.anchor, p.tag.filter (· != "!")⟩

/-- Whether a value is left out before the next word, in a block mapping. -/
def endsMappingValue : List Token → Bool
  | .key :: _ | .value :: _ | .blockEnd :: _ => true
  | _ => false

/-- Whether an entry is left out before the next word, in a block sequence. -/
def endsEntry : List Token → Bool
  | .blockEntry :: _ | .blockEnd :: _ => true
  | _ => false

/-- Whether an entry is left out before the next word, in a sequence that is not indented. -/
def endsPlainEntry : List Token → Bool
  | .blockEntry :: _ | .key :: _ | .value :: _ | .blockEnd :: _ => true
  | _ => false

/-- Whether the next word is the given one. -/
def isNext (t : Token) : List Token → Bool
  | u :: _ => t == u
  | [] => false

mutual

/-- Reads a value. A block collection may begin where `block` holds, and a sequence that is not
indented where `flat` holds. -/
def node? (handles : Handles) (fuel : Nat) (block flat : Bool) (ts : List Token) :
    Option (NamedTree × List Token) :=
  match fuel with
  | 0 => none
  | fuel + 1 =>
    match ts with
    | .alias name :: rest => some (.alias name, rest)
    | _ =>
      match properties? handles ts with
      | none => none
      | some (p, rest) =>
        match rest with
        | .scalar style text :: rest => some (.scalar (ofScalar p) style text, rest)
        | .flowSequenceStart :: rest =>
          (flowItems? handles fuel true rest).map fun (items, rest) => (.sequence p items, rest)
        | .flowMappingStart :: rest =>
          (flowEntries? handles fuel true rest).map fun (es, rest) => (.mapping p es, rest)
        | .blockEntry :: more =>
          if flat then
            (flatItems? handles fuel (.blockEntry :: more)).map fun (items, rest) =>
              (.sequence p items, rest)
          else emptyNode? p (.blockEntry :: more)
        | .blockSequenceStart :: more =>
          if block then
            (blockItems? handles fuel more).map fun (items, rest) => (.sequence p items, rest)
          else emptyNode? p (.blockSequenceStart :: more)
        | .blockMappingStart :: more =>
          if block then
            (blockEntries? handles fuel more).map fun (es, rest) => (.mapping p es, rest)
          else emptyNode? p (.blockMappingStart :: more)
        | rest => emptyNode? p rest

/-- The value of which nothing but properties is written. -/
def emptyNode? (p : Properties String) (rest : List Token) : Option (NamedTree × List Token) :=
  if p.anchor.isSome || p.tag.isSome then some (.scalar p .plain "", rest) else none

/-- Reads the entries of a block sequence. -/
def blockItems? (handles : Handles) (fuel : Nat) (ts : List Token) :
    Option (List NamedTree × List Token) :=
  match fuel, ts with
  | _ + 1, .blockEnd :: rest => some ([], rest)
  | fuel + 1, .blockEntry :: rest =>
    let item? := if endsEntry rest then some (empty, rest) else node? handles fuel true false rest
    match item? with
    | none => none
    | some (item, rest) =>
      (blockItems? handles fuel rest).map fun (items, rest) => (item :: items, rest)
  | _, _ => none

/-- Reads the entries of a sequence that is not indented deeper than its key. -/
def flatItems? (handles : Handles) (fuel : Nat) (ts : List Token) :
    Option (List NamedTree × List Token) :=
  match fuel, ts with
  | 0, _ => none
  | fuel + 1, .blockEntry :: rest =>
    let item? :=
      if endsPlainEntry rest then some (empty, rest) else node? handles fuel true false rest
    match item? with
    | none => none
    | some (item, rest) =>
      (flatItems? handles fuel rest).map fun (items, rest) => (item :: items, rest)
  | _ + 1, rest => some ([], rest)

/-- Reads the entries of a block mapping. -/
def blockEntries? (handles : Handles) (fuel : Nat) (ts : List Token) :
    Option (List (NamedTree × NamedTree) × List Token) :=
  match fuel, ts with
  | _ + 1, .blockEnd :: rest => some ([], rest)
  | fuel + 1, .key :: rest =>
    let key? :=
      if endsMappingValue rest then some (empty, rest) else node? handles fuel true true rest
    match key? with
    | none => none
    | some (key, rest) =>
      let value? :=
        match rest with
        | .value :: more =>
          if endsMappingValue more then some (empty, more)
          else node? handles fuel true true more
        | _ => some (empty, rest)
      match value? with
      | none => none
      | some (value, rest) =>
        (blockEntries? handles fuel rest).map fun (es, rest) => ((key, value) :: es, rest)
  | _, _ => none

/-- Reads the entries of a flow sequence. A mapping of a single pair needs no braces. -/
def flowItems? (handles : Handles) (fuel : Nat) (first : Bool) (ts : List Token) :
    Option (List NamedTree × List Token) :=
  match fuel with
  | 0 => none
  | fuel + 1 =>
    match ts with
    | .flowSequenceEnd :: rest => some ([], rest)
    | _ =>
      let entry? :=
        if first then some ts
        else
          match ts with
          | .flowEntry :: rest => some rest
          | _ => none
      match entry? with
      | none => none
      | some (.flowSequenceEnd :: rest) => some ([], rest)
      | some (.key :: rest) =>
        match pair? handles fuel rest with
        | none => none
        | some (pair, rest) =>
          (flowItems? handles fuel false rest).map fun (items, rest) =>
            (.mapping noProperties [pair] :: items, rest)
      | some rest =>
        match node? handles fuel false false rest with
        | none => none
        | some (item, rest) =>
          (flowItems? handles fuel false rest).map fun (items, rest) => (item :: items, rest)

/-- Reads a pair inside a flow sequence, behind the announcement of its key. Where the key is
left out, the word that shows this is passed. -/
def pair? (handles : Handles) (fuel : Nat) (ts : List Token) :
    Option ((NamedTree × NamedTree) × List Token) :=
  match fuel with
  | 0 => none
  | fuel + 1 =>
    let key? :=
      match ts with
      | .value :: rest | .flowEntry :: rest | .flowSequenceEnd :: rest => some (empty, rest)
      | _ => node? handles fuel false false ts
    match key? with
    | none => none
    | some (key, rest) =>
      let value? :=
        match rest with
        | .value :: more =>
          if isNext .flowEntry more || isNext .flowSequenceEnd more then some (empty, more)
          else node? handles fuel false false more
        | _ => some (empty, rest)
      value?.map fun (value, rest) => ((key, value), rest)

/-- Reads the entries of a flow mapping. -/
def flowEntries? (handles : Handles) (fuel : Nat) (first : Bool) (ts : List Token) :
    Option (List (NamedTree × NamedTree) × List Token) :=
  match fuel with
  | 0 => none
  | fuel + 1 =>
    match ts with
    | .flowMappingEnd :: rest => some ([], rest)
    | _ =>
      let entry? :=
        if first then some ts
        else
          match ts with
          | .flowEntry :: rest => some rest
          | _ => none
      match entry? with
      | none => none
      | some (.flowMappingEnd :: rest) => some ([], rest)
      | some (.key :: rest) =>
        let ends (ts : List Token) : Bool := isNext .flowEntry ts || isNext .flowMappingEnd ts
        let key? :=
          if isNext .value rest || ends rest then some (empty, rest)
          else node? handles fuel false false rest
        match key? with
        | none => none
        | some (key, rest) =>
          let value? :=
            match rest with
            | .value :: more =>
              if ends more then some (empty, more) else node? handles fuel false false more
            | _ => some (empty, rest)
          match value? with
          | none => none
          | some (value, rest) =>
            (flowEntries? handles fuel false rest).map fun (es, rest) =>
              ((key, value) :: es, rest)
      | some rest =>
        match node? handles fuel false false rest with
        | none => none
        | some (key, rest) =>
          (flowEntries? handles fuel false rest).map fun (es, rest) =>
            ((key, empty) :: es, rest)

end

/-- The directives before a document. -/
structure Directives where
  versioned : Bool
  handles : Handles

/-- Reads the directives before a document up to its mark. A stream may say at most once in
which version it is written, and give a handle at most one meaning. -/
def directives? (d : Directives) : List Token → Option (Directives × List Token)
  | .version major minor :: rest =>
    if d.versioned || major != 1 || !(minor == 1 || minor == 2) then none
    else directives? ⟨true, d.handles⟩ rest
  | .tagDirective handle start :: rest =>
    if (d.handles.lookup handle).isSome then none
    else directives? ⟨d.versioned, d.handles ++ [(handle, start)]⟩ rest
  | .documentStart :: rest => some (d, rest)
  | _ => none

/-- Whether a document begins with a directive or a mark. -/
def isMarked : List Token → Bool
  | .version _ _ :: _ | .tagDirective _ _ :: _ | .documentStart :: _ => true
  | _ => false

/-- Whether nothing is written of a document behind its mark. -/
def isEmptyDocument : List Token → Bool
  | [] | .documentEnd :: _ => true
  | ts => isMarked ts

/-- How many steps it takes to read that many words at the most. -/
def steps (words : Nat) : Nat := 4 * words + 8

/-- The one document of a stream. -/
def ofTokens? (ts : List Token) : Option NamedTree :=
  let content? : Option (NamedTree × List Token) :=
    if isMarked ts then
      match directives? ⟨false, []⟩ ts with
      | none => none
      | some (d, rest) =>
        if isEmptyDocument rest then some (empty, rest)
        else node? (d.handles ++ defaultHandles) (steps rest.length) true false rest
    else if ts.isEmpty then some (empty, [])
    else node? defaultHandles (steps ts.length) true false ts
  match content? with
  | some (tree, rest) => if rest.all (· == .documentEnd) then some tree else none
  | none => none

end Tree

end Yaml

end Pipeline
