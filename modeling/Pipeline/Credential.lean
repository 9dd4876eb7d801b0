import Pipeline.Source
import Pipeline.Text.Split

/-!
# Credentials

A credential serves to clone the submodules whose address matches. Credentials can only be sent
to addresses of the web.
-/

namespace Pipeline

/-- A credential for submodules. The password is named by a secret of the job. -/
structure Credential where
  url : Option String
  userName : Option String
  passwordSecret : Option String
  deriving DecidableEq, Repr, Inhabited

namespace Credential

/-- A credential that says nothing but its address. -/
def ofUrl (url : String) : Credential := ⟨some url, none, none⟩

/-- The written form. -/
def encode (c : Credential) : Json :=
  .obj [("url", .optionalText c.url), ("user_name", .optionalText c.userName),
    ("password_secret", .optionalText c.passwordSecret)]

/-- Reads the written form. -/
def decode? (s : Source) : Option Credential := do
  let r ← s.record? ["url", "user_name", "password_secret"]
  let url ← r.withDefault "url" none (Source.optional? Source.text?)
  let userName ← r.withDefault "user_name" none (Source.optional? Source.text?)
  let passwordSecret ← r.withDefault "password_secret" none (Source.optional? Source.text?)
  some { url, userName, passwordSecret }

/-- Whether credentials can be sent to the address, if there is one. -/
def isWeb (c : Credential) : Bool :=
  match c.url with
  | none => true
  | some url =>
    (Text.afterStart? "http://".toList url.toList).isSome ||
      (Text.afterStart? "https://".toList url.toList).isSome

end Credential

end Pipeline
