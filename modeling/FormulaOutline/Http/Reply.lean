import FormulaOutline.Number.Reading
import FormulaOutline.Provider.Error
import FormulaOutline.Text.Line

/-!
# Replies

* `Reply.outcome` is what a reply means to the client: a body, a wait, or a failure.
-/

namespace FormulaOutline.Http

/-- What a server sends back. -/
structure Reply where
  status : Nat
  body : String
  /-- The time after which to ask again, in seconds. -/
  retryAfter : Option String
  /-- Whether the connection ends before the body does. -/
  broken : Bool

/-- What a request comes to. -/
inductive Outcome
  | body (text : String)
  | rateLimited (retryAfterMs : Nat)
  | failed (e : ProviderError)
deriving DecidableEq, Repr

/-- The greatest number of milliseconds. -/
def longestWait : Nat := Nat.pow 2 64 - 1

/-- A character of a field that is read as text. -/
def isFieldChar (c : Char) : Bool := c == '\t' || (0x20 ≤ c.toNat && c.toNat < 0x7F)

/-- A time in seconds as milliseconds. -/
def milliseconds? (seconds : String) : Option Nat :=
  if seconds.toList.all isFieldChar then
    match Number.readChars? (Text.trim seconds.toList) with
    | some x =>
        if Number.isFinite x && 0 ≤ x then some (Number.truncateTo longestWait (x * 1000)) else none
    | none => none
  else none

def noAnswer (provider : String) : ProviderError := .requestFailed provider 0 "no answer"

namespace Reply

/-- The time after which to ask again, at once if it cannot be read. -/
def retryAfterMs (r : Reply) : Nat := (r.retryAfter.bind milliseconds?).getD 0

/-- A reply that only announces another one, or that has no status. -/
def isNoAnswer (r : Reply) : Bool :=
  (r.status < 200 && r.status != 101) || 1000 ≤ r.status

/-- Replies with these statuses have no body. -/
def isBodiless (r : Reply) : Bool := [101, 204, 304].contains r.status

/-- The body, if it arrives. -/
def content? (r : Reply) : Option String :=
  if r.isBodiless then some "" else if r.broken then none else some r.body

def isSuccess (r : Reply) : Bool := 200 ≤ r.status && r.status < 300

/-- What a reply means to the client of a provider. -/
def outcome (r : Reply) (provider : String) : Outcome :=
  if r.isNoAnswer then .failed (noAnswer provider)
  else if r.isSuccess then
    match r.content? with
    | some text => .body text
    | none => .failed (.invalidResponse provider "Failed to read response: the body breaks off")
  else if r.status = 429 then .rateLimited r.retryAfterMs
  else .failed (.requestFailed provider r.status (r.content?.getD "Unknown error"))

end Reply

end FormulaOutline.Http
