import FormulaOutline.Config.Basic
import FormulaOutline.Http.Address
import FormulaOutline.Http.Reply
import FormulaOutline.Json.Decode
import FormulaOutline.Text.Quoted

/-!
# Clients

A client asks the service of one provider for JSON. Its requests keep a distance in time. Times are in
milliseconds.

* `Pacing.wait` is how long a request is held back, `Pacing.sent` notes that it has gone out.
* `retrying` asks again, after a pause, while a server says that it is asked too often.
* `Client.get` makes a request in a `Line` to a server and decodes the answer.
-/

namespace FormulaOutline.Http

/-! ## Pacing -/

structure Pacing where
  /-- The least time between two requests. -/
  interval : Nat
  /-- When the last request went out. -/
  last : Option Nat
deriving DecidableEq, Repr

namespace Pacing

/-- The least interval, whatever the number of requests a minute. -/
def leastInterval : Nat := 10

/-- The pacing of a client with a number of requests a minute, one at least. -/
def perMinute (requests : Nat) : Pacing := ⟨max (60000 / max requests 1) leastInterval, none⟩

/-- How long a request that could go out now is held back. -/
def wait (p : Pacing) (now : Nat) : Nat :=
  match p.last with
  | none => 0
  | some t => p.interval - (now - t)

def sent (p : Pacing) (now : Nat) : Pacing := { p with last := some now }

end Pacing

/-! ## Asking again -/

/-- A longer time is not waited out. -/
def longestPause : Nat := 5000

/-- Sends a request, and again, at most `retries` times, as long as the outcome is a time to wait
that is not too long. Before each repetition that time passes. -/
def retrying {σ : Type} (send : σ → Outcome × σ) (pause : Nat → σ → σ) :
    (retries : Nat) → σ → Outcome × σ
  | 0, s => send s
  | retries + 1, s =>
      match send s with
      | (.rateLimited ms, s) =>
          if ms ≤ longestPause then retrying send pause retries (pause ms s)
          else (.rateLimited ms, s)
      | (.body text, s) => (.body text, s)
      | (.failed e, s) => (.failed e, s)

/-! ## Clients -/

structure Request where
  target : String
  authorization : Option String
deriving DecidableEq, Repr

structure Client where
  provider : String
  /-- The address of the service, without slashes at its end. -/
  baseUrl : String
  apiKey : Option String
  /-- The pacing of a client that has not sent anything. -/
  pacing : Pacing
  /-- How often a request is repeated. -/
  retries : Nat

/-- A line to a server: what it will reply, and what has been sent. -/
structure Line where
  replies : List Reply
  /-- The requests that have been sent, the first one first. -/
  requests : List Request
  /-- The time in milliseconds. -/
  now : Nat
  pacing : Pacing

namespace Line

def pass (l : Line) (ms : Nat) : Line := { l with now := l.now + ms }

/-- Holds a request back until it may go out. -/
def keepPace (l : Line) : Line :=
  let l := l.pass (l.pacing.wait l.now)
  { l with pacing := l.pacing.sent l.now }

end Line

namespace Client

def ofEndpoint (provider : String) (e : Endpoint) (requestsPerMinute : Nat) : Client :=
  { provider
    baseUrl := String.ofList (e.baseUrl.toList.reverse.dropWhile (· == '/')).reverse
    apiKey := e.apiKey
    pacing := .perMinute requestsPerMinute
    retries := 1 }

/-- A line of the client to a server that has not been asked anything. -/
def line (c : Client) (replies : List Reply) : Line := ⟨replies, [], 0, c.pacing⟩

/-- A description that does not tell the key. -/
def describe (c : Client) : String :=
  let key := match c.apiKey with
    | some _ => "Some(\"[REDACTED]\")"
    | none => "None"
  "ProviderClient \x7b provider: " ++ Text.quoted c.provider ++ ", base_url: " ++
    Text.quoted c.baseUrl ++ ", api_key: " ++ key ++ " \x7d"

/-! ## Requests -/

/-- A character that may stand in a field of a request. -/
def isHeaderChar (c : Char) : Bool := c == '\t' || (0x20 ≤ c.toNat && c.toNat != 0x7F)

/-- The field that names the key, if the key can be written. -/
def authorization? (c : Client) : Option (Option String) :=
  match c.apiKey with
  | none => some none
  | some key => if key.toList.all isHeaderChar then some (some ("Bearer " ++ key)) else none

/-- The request for a path below the address of the service. -/
def request? (c : Client) (path : String) (query : List (String × String)) : Option Request := do
  let relative := String.ofList (path.toList.dropWhile (· == '/'))
  let address ← Address.read? (c.baseUrl ++ "/" ++ relative).toList
  let authorization ← c.authorization?
  some ⟨(address.withPairs query).target, authorization⟩

/-- Sends a request once. One that cannot be written or is not answered fails. -/
def sendOnce (c : Client) (request : Option Request) (l : Line) : Outcome × Line :=
  let l := l.keepPace
  match request, l.replies with
  | some r, reply :: replies =>
      (reply.outcome c.provider, { l with replies, requests := l.requests ++ [r] })
  | _, _ => (.failed (noAnswer c.provider), l)

/-- Decodes the body that a request has come to. -/
def decode {α : Type} (c : Client) (d : Json.Decoder α) : Outcome → Except ProviderError α
  | .body text =>
      match (Json.parse text.toList).bind d with
      | some a => .ok a
      | none => .error (.invalidResponse c.provider "Failed to parse response: unexpected content")
  | .rateLimited ms => .error (.rateLimited c.provider ms)
  | .failed e => .error e

/-- Asks for a path and decodes the answer. -/
def get {α : Type} (c : Client) (path : String) (query : List (String × String))
    (d : Json.Decoder α) (l : Line) : Except ProviderError α × Line :=
  let (outcome, l) :=
    retrying (c.sendOnce (c.request? path query)) (fun ms l => l.pass ms) c.retries l
  (c.decode d outcome, l)

end Client

end FormulaOutline.Http
