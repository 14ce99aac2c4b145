import FormulaOutline.Toml.Scalar
import FormulaOutline.Toml.Table

/-!
# Reading TOML

* `readValue` takes a value: a text, a number, a moment, a word, a list or a table in braces.
* `parse` reads a text as one table.
-/

namespace FormulaOutline.Toml

/-- Lists and tables in braces may be nested less deep than this, and keys have fewer names. -/
def depthLimit : Nat := 80

/-- A key of names with points between them. -/
def readKey : Reader (List String) := readPath (depthLimit - 1)

/-! ## Values -/

def readTrueOrFalse : Reader Json := fun s =>
  match Json.afterWord? "true".toList s with
  | some rest => some (.bool true, rest)
  | none => (Json.afterWord? "false".toList s).map (.bool false, ·)

/-- The items of a list up to its end. A comma may follow the last one; `fuel` bounds their
number. -/
def readItems (value : Reader Json) : Nat → Reader (List Json)
  | 0, _ => none
  | fuel + 1, s =>
      match skipSpace s with
      | ']' :: rest => some ([], rest)
      | s => do
          let (v, rest) ← value s
          match skipSpace rest with
          | ']' :: rest => some ([v], rest)
          | ',' :: rest =>
              let (more, rest) ← readItems value fuel rest
              some (v :: more, rest)
          | _ => none

/-- A key, an equals sign and a value. -/
def readPair (value : Reader Json) : Reader (List String × Json) := fun s => do
  let (path, rest) ← readKey s
  let rest ← after? '=' rest
  let (v, rest) ← value (skipBlanks rest)
  some ((path, v), skipBlanks rest)

/-- The pairs of a table in braces from the first one on; `fuel` bounds their number. -/
def readPairs (value : Reader Json) : Nat → Table → Reader Table
  | 0, _, _ => none
  | fuel + 1, t, s => do
      let ((path, v), rest) ← readPair value s
      let t ← t.define path v
      match rest with
      | '\x7d' :: rest => some (t, rest)
      | ',' :: rest => readPairs value fuel t rest
      | _ => none

/-- A table in braces after the first one. -/
def readInline (value : Reader Json) : Reader Json := fun s =>
  match skipBlanks s with
  | '\x7d' :: rest => some (.object [], rest)
  | s => (readPairs value s.length [] s).map fun (t, rest) => (t.toJson, rest)

/-- A value whose lists and tables are nested less than `depth` deep. -/
def readValue : (depth : Nat) → Reader Json
  | 0, _ => none
  | depth + 1, s =>
      match s with
      | '[' :: rest =>
          if depth = 0 then none
          else
            (readItems (readValue depth) (rest.length + 1) rest).map fun (items, after) =>
              (.array items, after)
      | '\x7b' :: rest => if depth = 0 then none else readInline (readValue depth) rest
      | '"' :: _ | '\'' :: _ => (readText s).map fun (t, after) => (.string t, after)
      | _ => ((readMoment s).or (readNumber s)).or (readTrueOrFalse s)

/-! ## Lines -/

/-- What has been read, and the path of the table that lines now belong to. -/
structure Draft where
  root : Table
  current : List String

namespace Draft

/-- Declares a table that the following lines belong to. -/
def enter (d : Draft) (declare : List String → Table → Option Table) (path : List String) :
    Option Draft := do
  let root ← declare path d.root
  some ⟨root, path⟩

/-- Gives a value to a key of the current table. -/
def define (d : Draft) (path : List String) (v : Json) : Option Draft := do
  let root ← d.root.updateDeclared (Table.define path v) d.current
  some { d with root }

/-- Reads a line that is neither blank nor a comment. -/
def readLine (d : Draft) (s : List Char) : Option (Draft × List Char) :=
  match s with
  | '[' :: '[' :: rest => do
      let (path, rest) ← readKey rest
      let rest ← after? ']' rest
      let rest ← after? ']' rest
      let d ← d.enter Table.declareElement path
      some (d, rest)
  | '[' :: rest => do
      let (path, rest) ← readKey rest
      let rest ← after? ']' rest
      let d ← d.enter Table.declareTable path
      some (d, rest)
  | s => do
      let ((path, v), rest) ← readPair (readValue depthLimit) s
      let d ← d.define path v
      some (d, rest)

/-- Reads lines; `fuel` bounds their number. -/
def readLines : Nat → Draft → List Char → Option Draft
  | 0, _, _ => none
  | fuel + 1, d, s =>
      match skipBlanks s with
      | [] => some d
      | c :: rest =>
          if c = '#' ∨ c = '\n' ∨ c = '\r' then do
            let next ← afterLine? (c :: rest)
            readLines fuel d next
          else do
            let (d, rest) ← d.readLine (c :: rest)
            let next ← afterLine? rest
            readLines fuel d next

end Draft

/-- A text without the mark of its encoding. -/
def withoutMark : List Char → List Char
  | '\ufeff' :: rest => rest
  | s => s

/-- Reads a text as one table. -/
def parse (s : List Char) : Option Json :=
  let text := withoutMark s
  (Draft.readLines (text.length + 1) ⟨[], []⟩ text).map fun d => d.root.toJson

end FormulaOutline.Toml
