import FormulaOutline.Cache.Digest
import FormulaOutline.Json.Writer
import FormulaOutline.Text.Line

/-!
# Cache keys

A key is a namespace and a digest of the namespace and a request. Requests of different namespaces
never share a key.

* `CacheKey.ofParts` makes the key of a request in parts, `CacheKey.ofSignature` of a JSON value.
-/

namespace FormulaOutline.Cache

structure CacheKey where
  /-- The namespace of the requests. -/
  domain : String
  digest : String
deriving DecidableEq, Repr

/-- The byte between parts; it occurs in no text. -/
def separator : UInt8 := 0xFF

def textBytes (s : String) : List UInt8 := Text.bytes s.toList

/-- The bytes that are digested: the namespace, and each part after a separator. -/
def keyBytes (ns : String) (parts : List String) : List UInt8 :=
  textBytes ns ++ parts.flatMap fun p => separator :: textBytes p

namespace CacheKey

def ofParts (ns : String) (parts : List String) : CacheKey := ⟨ns, hex (sha256 (keyBytes ns parts))⟩

/-- The namespace and the first digits of the digest. -/
def display (k : CacheKey) : String := k.domain ++ ":" ++ String.ofList (k.digest.toList.take 12)

end CacheKey

/-! ## Signatures -/

/-- Puts a field in its place by its name, instead of one with the same name. -/
def insertSorted (name : String) (j : Json) : List (String × Json) → List (String × Json)
  | [] => [(name, j)]
  | (n, k) :: rest =>
      if name < n then (name, j) :: (n, k) :: rest
      else if name = n then (name, j) :: rest
      else (n, k) :: insertSorted name j rest

mutual

/-- A value with the fields of objects in the order of their names, the last one of each name. -/
def canonical : Json → Json
  | .array items => .array (canonicalItems items)
  | .object fields => .object (canonicalFields [] fields)
  | j => j

def canonicalItems : List Json → List Json
  | [] => []
  | j :: rest => canonical j :: canonicalItems rest

def canonicalFields (sorted : List (String × Json)) : List (String × Json) → List (String × Json)
  | [] => sorted
  | (n, j) :: rest => canonicalFields (insertSorted n (canonical j) sorted) rest

end

/-- The key of a request that is a JSON value; a request that is none has an empty text. -/
def CacheKey.ofSignature (ns : String) (signature : Option Json) : CacheKey :=
  ofParts ns [(signature.map fun j => (canonical j).compact).getD ""]

end FormulaOutline.Cache
