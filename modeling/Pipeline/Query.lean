import Pipeline.CommitId

/-!
# Build queries

Builds are searched by conditions on quoted fields: `"Commit" is "abc" and "Job" is "test"`.

* `Query.quote`: writes a text in quotes.
* `Query.readQuoted?`: reads a quoted text and returns what follows it.
* `Query.forBuild?`: the query for the builds of a job at a commit.
-/

namespace Pipeline

namespace Query

/-- Writes a character inside quotes: quotes and backslashes get a backslash before them. -/
def quotedChar (c : Char) : List Char := if c = '"' ∨ c = '\\' then ['\\', c] else [c]

/-- Writes characters in quotes. -/
def quoteChars (cs : List Char) : List Char := '"' :: cs.flatMap quotedChar ++ ['"']

/-- Writes a text in quotes. -/
def quote (s : String) : String := String.ofList (quoteChars s.toList)

/-- Reads up to the first quote that has no backslash before it. -/
def readToQuote? : List Char → Option (List Char × List Char)
  | [] => none
  | '"' :: rest => some ([], rest)
  | '\\' :: c :: rest => (readToQuote? rest).map fun (read, left) => (c :: read, left)
  | c :: rest => (readToQuote? rest).map fun (read, left) => (c :: read, left)

/-- Reads a quoted text; what follows it is left. -/
def readQuoted? : List Char → Option (List Char × List Char)
  | '"' :: rest => readToQuote? rest
  | _ => none

/-- The query for the builds of a job at a commit, if the job has a name. -/
def forBuild? (commit : CommitId) (job : String) : Option String :=
  if Text.isBlank job then none
  else
    some (quote "Commit" ++ " is " ++ quote commit.text ++ " and " ++ quote "Job" ++ " is " ++
      quote job)

/-- What is wrong with a job without a name. -/
def blankJobReason : String := "job name may not be empty"

/-- What is said of a job without a name. -/
def refusal : String := "Invalid argument: " ++ blankJobReason

end Query

end Pipeline
