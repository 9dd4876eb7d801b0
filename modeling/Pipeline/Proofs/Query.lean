import Pipeline.Query

/-!
# Queries are read as they were meant

Job names are any text, so a name may hold quotes, backslashes, and what looks like a query.

* `Query.readQuoted?_quote`: a quoted text ends at the quote that was put behind it, whatever it
  holds and whatever follows.
* `Query.Reads`: a query as the list of its words; `Query.reads_write` says that the written form
  of a list of words is read as that list and as no other.
* `Query.forBuild?_readable`: a query for a build tells its commit and its job.
-/

namespace Pipeline

namespace Query

/-! ## Quoted texts -/

theorem readToQuote?_quotedChar (c : Char) (cs : List Char) :
    readToQuote? (quotedChar c ++ cs) =
      (readToQuote? cs).map fun (read, left) => (c :: read, left) := by
  by_cases hc : c = '"' ∨ c = '\\'
  · simp [quotedChar, hc, readToQuote?]
  · obtain ⟨hquote, hescape⟩ := not_or.mp hc
    simp [quotedChar, readToQuote?, hquote, hescape]

theorem readToQuote?_flatMap (cs rest : List Char) :
    readToQuote? (cs.flatMap quotedChar ++ '"' :: rest) = some (cs, rest) := by
  induction cs with
  | nil => rfl
  | cons c cs ih =>
    rw [List.flatMap_cons, List.append_assoc, readToQuote?_quotedChar, ih, Option.map_some]

theorem quoteChars_append (cs rest : List Char) :
    quoteChars cs ++ rest = '"' :: (cs.flatMap quotedChar ++ '"' :: rest) := by
  simp [quoteChars]

theorem readQuoted?_quoteChars (cs rest : List Char) :
    readQuoted? (quoteChars cs ++ rest) = some (cs, rest) := by
  rw [quoteChars_append]
  exact readToQuote?_flatMap cs rest

theorem toList_quote (s : String) : (quote s).toList = quoteChars s.toList :=
  String.toList_ofList

/-- A quoted text is read as the text, and what follows it is left. -/
theorem readQuoted?_quote (s : String) (rest : List Char) :
    readQuoted? ((quote s).toList ++ rest) = some (s.toList, rest) := by
  rw [toList_quote, readQuoted?_quoteChars]

/-! ## Words -/

/-- A word of a query: a quoted text, or one of the words that join them. -/
inductive Token where
  | literal (text : String)
  | is
  | and
  deriving DecidableEq, Repr

/-- The written form of a word. -/
def Token.write : Token → List Char
  | .literal text => quoteChars text.toList
  | .is => ['i', 's']
  | .and => ['a', 'n', 'd']

/-- The written form of a query: its words with a space between each two. -/
def write : List Token → List Char
  | [] => []
  | [t] => t.write
  | t :: u :: ts => t.write ++ ' ' :: write (u :: ts)

/-- Reads a word; what follows it is left. -/
def readToken? : List Char → Option (Token × List Char)
  | 'i' :: 's' :: rest => some (.is, rest)
  | 'a' :: 'n' :: 'd' :: rest => some (.and, rest)
  | cs => (readQuoted? cs).map fun (text, left) => (.literal (String.ofList text), left)

/-- The characters are a query of these words: one is read after the other, with a space between
each two, and nothing is left behind the last one. -/
inductive Reads : List Char → List Token → Prop
  | last {cs : List Char} {t : Token} (head : readToken? cs = some (t, [])) : Reads cs [t]
  | next {cs rest : List Char} {t : Token} {ts : List Token}
      (head : readToken? cs = some (t, ' ' :: rest)) (tail : Reads rest ts) : Reads cs (t :: ts)

theorem readToken?_write (t : Token) (rest : List Char) :
    readToken? (t.write ++ rest) = some (t, rest) := by
  cases t with
  | literal text =>
    have hread := readQuoted?_quoteChars text.toList rest
    rw [quoteChars_append] at hread
    rw [Token.write, quoteChars_append]
    simp [readToken?, hread]
  | is => rfl
  | and => rfl

/-- The written form of words is read as these words, and in no other way. -/
theorem reads_write {ts us : List Token} (h : ts ≠ []) : Reads (write ts) us ↔ us = ts := by
  induction ts generalizing us with
  | nil => exact absurd rfl h
  | cons t ts ih =>
    cases ts with
    | nil =>
      have hread : readToken? (write [t]) = some (t, []) := by
        simpa [write] using readToken?_write t []
      constructor
      · rintro (hlast | ⟨hnext, -⟩)
        · obtain rfl : t = _ := by simpa [hread] using hlast
          rfl
        · simp [hread] at hnext
      · rintro rfl
        exact .last hread
    | cons u ts =>
      have hread : readToken? (write (t :: u :: ts)) = some (t, ' ' :: write (u :: ts)) :=
        readToken?_write t _
      constructor
      · rintro (hlast | ⟨hnext, htail⟩)
        · simp [hread] at hlast
        · obtain ⟨rfl, rfl⟩ : t = _ ∧ write (u :: ts) = _ := by simpa [hread] using hnext
          rw [(ih (by simp)).mp htail]
      · rintro rfl
        exact .next hread ((ih (by simp)).mpr rfl)

/-! ## Queries for builds -/

/-- What the query for the builds of a job at a commit is to say. -/
def buildTokens (commit : CommitId) (job : String) : List Token :=
  [.literal "Commit", .is, .literal commit.text, .and, .literal "Job", .is, .literal job]

theorem forBuild?_eq (commit : CommitId) (job : String) :
    forBuild? commit job =
      if Text.isBlank job then none else some (String.ofList (write (buildTokens commit job))) := by
  have htext : (quote "Commit" ++ " is " ++ quote commit.text ++ " and " ++ quote "Job" ++ " is " ++
      quote job).toList = write (buildTokens commit job) := by
    simp [buildTokens, write, Token.write, toList_quote]
  rw [forBuild?, ← htext, String.ofList_toList]

variable {commit commit' : CommitId} {job job' query : String}

/-- The query is read as what it is to say, and in no other way. -/
theorem reads_forBuild? (h : forBuild? commit job = some query) (tokens : List Token) :
    Reads query.toList tokens ↔ tokens = buildTokens commit job := by
  rw [forBuild?_eq] at h
  split at h
  · cases h
  · rw [← Option.some.inj h, String.toList_ofList, reads_write (by simp [buildTokens])]

/-- What the query says tells the commit and the job. -/
theorem buildTokens_inj :
    buildTokens commit job = buildTokens commit' job' ↔ commit = commit' ∧ job = job' := by
  cases commit
  cases commit'
  simp [buildTokens]

/-- A quoted text is read as the text with nothing of what follows it. So the query for the builds
of a job at a commit, which there is unless the job has a blank name, is read in one way only, and
no other commit or job has the same query. -/
theorem forBuild?_readable :
    (∀ (text : String) (rest : List Char),
      readQuoted? ((quote text).toList ++ rest) = some (text.toList, rest)) ∧
    ∀ (commit : CommitId) (job : String),
      (forBuild? commit job = none ↔ Text.isBlank job = true) ∧
      ∀ query, forBuild? commit job = some query →
        (∀ tokens, Reads query.toList tokens ↔ tokens = buildTokens commit job) ∧
        ∀ commit' job', forBuild? commit' job' = some query → commit' = commit ∧ job' = job := by
  refine ⟨readQuoted?_quote, fun commit job => ⟨by simp [forBuild?_eq], fun query h => ?_⟩⟩
  refine ⟨reads_forBuild? h, fun commit' job' h' => ?_⟩
  have hread : Reads query.toList (buildTokens commit' job') := (reads_forBuild? h' _).mpr rfl
  exact buildTokens_inj.mp ((reads_forBuild? h _).mp hread)

/-- A commit. -/
def tip : CommitId := ⟨"c0ffee", by decide +kernel⟩

/-- A job whose name ends in a backslash and looks like the rest of a query. -/
def trickyJob : String := "unit\" and \"Job\" is \"deploy\\"

/-- The query for the builds of `trickyJob`. -/
def trickyQuery : String :=
  "\"Commit\" is \"c0ffee\" and \"Job\" is \"unit\\\" and \\\"Job\\\" is \\\"deploy\\\\\""

theorem forBuild?_readable_tricky :
    forBuild? tip trickyJob = some trickyQuery ∧
    (∀ tokens, Reads trickyQuery.toList tokens ↔ tokens = buildTokens tip trickyJob) ∧
    ∀ commit job, forBuild? commit job = some trickyQuery → commit = tip ∧ job = trickyJob := by
  have h : forBuild? tip trickyJob = some trickyQuery := by decide +kernel
  exact ⟨h, (forBuild?_readable.2 tip trickyJob).2 trickyQuery h⟩

end Query

end Pipeline
