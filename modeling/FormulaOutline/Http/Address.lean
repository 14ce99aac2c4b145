import FormulaOutline.Number.Reading
import FormulaOutline.Text.Percent

/-!
# Addresses

What of an address is sent to its host: the path and the query.

* `Address.read?` reads an address; in its path, dots go to the same place and up.
* `Address.target` is the line part that asks for an address.
-/

namespace FormulaOutline.Http

open Text

/-- The part of an address that follows the host. -/
structure Address where
  /-- The parts of the path, each of which follows a slash. -/
  path : List (List Char)
  query : Option (List Char)
deriving DecidableEq, Repr

namespace Address

/-! ## Characters -/

/-- A printable character of ASCII other than a space. -/
def isVisible (c : Char) : Bool := 0x20 < c.toNat && c.toNat < 0x7F

/-- A character that stands for itself in a path. -/
def isPathChar (c : Char) : Bool := isVisible c && !"\"#<>?\x60\x7b\x7d".toList.contains c

/-- A character that stands for itself in a query. -/
def isQueryChar (c : Char) : Bool := isVisible c && !"\"#<>'".toList.contains c

/-- Line ends and tabulators are no part of an address. -/
def isIgnored (c : Char) : Bool := c == '\t' || c == '\n' || c == '\r'

/-- Spaces and control characters do not stand at the ends of an address. -/
def isMargin (c : Char) : Bool := c.toNat ≤ 0x20

def isSlash (c : Char) : Bool := c == '/' || c == '\\'

def endsPath (c : Char) : Bool := c == '?' || c == '#'

/-- An address without the characters that are no part of it. -/
def clean (s : List Char) : List Char :=
  (((s.dropWhile isMargin).reverse.dropWhile isMargin).reverse).filter (!isIgnored ·)

/-! ## Hosts -/

/-- One more than the greatest number of a port. -/
def portBound : Nat := Nat.pow 2 16

/-- Whether a text is a host, with the number of a port if there is a colon. -/
def isHost (s : List Char) : Bool :=
  match s.splitOn ':' with
  | [host] => !host.isEmpty
  | [host, port] =>
      !host.isEmpty && (port.isEmpty || (port.all Char.isDigit && Number.ofDigits port < portBound))
  | _ => false

/-- The text after the scheme of an address, if it is one that is known. -/
def afterScheme? (s : List Char) : Option (List Char) :=
  match s.span (· != ':') with
  | (scheme, ':' :: rest) =>
      let name := scheme.map Char.toLower
      if name = "http".toList ∨ name = "https".toList then some (rest.dropWhile isSlash) else none
  | _ => none

/-! ## Paths -/

/-- A part of a path in which an escaped point is a point. -/
def unescapePoints : List Char → List Char
  | '%' :: '2' :: c :: rest =>
      if c = 'e' ∨ c = 'E' then '.' :: unescapePoints rest
      else '%' :: '2' :: c :: unescapePoints rest
  | c :: rest => c :: unescapePoints rest
  | [] => []

/-- Follows a part of a path from the parts before it, the last of them first. A part that only
says where to go leaves nothing but the slash after it. -/
def follow (before : List (List Char)) (part : List Char) (isLast : Bool) : List (List Char) :=
  let place (parts : List (List Char)) : List (List Char) := if isLast then [] :: parts else parts
  match unescapePoints part with
  | ['.'] => place before
  | ['.', '.'] => place before.tail
  | _ => part :: before

/-- Follows the parts of a path, the last part reached first. -/
def followAll (before : List (List Char)) : List (List Char) → List (List Char)
  | [] => before
  | [part] => follow before part true
  | part :: rest => followAll (follow before part false) rest

/-- The parts of a path, from the text after the host on. -/
def pathParts (s : List Char) : List (List Char) :=
  let parts := (if (s.head?.map isSlash).getD false then s.tail else s).splitOnP isSlash
  (followAll [] parts).reverse.map (percentEncode isPathChar)

/-! ## Reading and writing -/

/-- Reads an address. -/
def read? (s : List Char) : Option Address := do
  let rest ← afterScheme? (clean s)
  let (host, rest) := rest.span fun c => !isSlash c && !endsPath c
  if isHost host then
    let (path, rest) := rest.span (!endsPath ·)
    let query := match rest with
      | '?' :: q => some (percentEncode isQueryChar (q.takeWhile (· != '#')))
      | _ => none
    some ⟨pathParts path, query⟩
  else none

/-- Adds names and values to the query. A query without any is left out. -/
def withPairs (a : Address) (pairs : List (String × String)) : Address :=
  let parts := [a.query.getD [], encodePairs pairs].filter (!·.isEmpty)
  { a with query := if parts.isEmpty then none else some (['&'].intercalate parts) }

/-- The path and the query as they are sent. -/
def target (a : Address) : String :=
  String.ofList
    (a.path.flatMap ('/' :: ·) ++
      match a.query with
      | some q => '?' :: q
      | none => [])

end Address

end FormulaOutline.Http
