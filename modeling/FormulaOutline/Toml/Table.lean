import FormulaOutline.Json.Basic

/-!
# Tables of TOML

* An `Item` is what a name stands for while a text is being read. Values are closed; tables can
  still be extended in the ways their `Origin` allows.
* `declareTable`, `declareElement` and `define` are what the lines `[path]`, `[[path]]` and
  `path = value` do. Nothing can be said twice.
* `Item.toJson` is what is left of a table in the end: its names and their values.
-/

namespace FormulaOutline.Toml

/-- How a table came to be. -/
inductive Origin
  /-- It has a line of its own. -/
  | header
  /-- The line of a table below it named it. -/
  | implied
  /-- A key with points named it. -/
  | dotted
deriving DecidableEq, Repr

inductive Item
  | value (v : Json)
  | table (origin : Origin) (entries : List (String × Item))
  /-- The tables of a list, each of which has a line of its own. -/
  | tables (all : List (List (String × Item)))

abbrev Table := List (String × Item)

namespace Table

def find? (t : Table) (name : String) : Option Item := (List.find? (·.1 == name) t).map Prod.snd

/-- Gives a name that is there another item. -/
def replace (t : Table) (name : String) (item : Item) : Table :=
  List.map (fun e => if e.1 == name then (name, item) else e) t

/-- Changes the table at a path. Tables that are missing on the way get the origin `missing`; only
tables whose origin passes `enter` are entered, and of a list of tables the last one. -/
def update (missing : Origin) (enter : Origin → Bool) (change : Origin → Table → Option Table) :
    List String → Origin → Table → Option Table
  | [], origin, t => change origin t
  | name :: path, _, t =>
      match t.find? name with
      | none => do
          let inner ← update missing enter change path missing []
          some (t ++ [(name, .table missing inner)])
      | some (.value _) => none
      | some (.table origin inner) =>
          if enter origin then do
            let inner ← update missing enter change path origin inner
            some (t.replace name (.table origin inner))
          else none
      | some (.tables all) => do
          let last ← all.getLast?
          let last ← update missing enter change path .header last
          some (t.replace name (.tables (all.dropLast ++ [last])))

/-- Changes a table that has been declared by a line. -/
def updateDeclared (change : Table → Option Table) (path : List String) (t : Table) :
    Option Table :=
  update .implied (fun _ => true) (fun _ => change) path .header t

/-- Gives a new name to an item. -/
def insertNew (name : String) (item : Item) (t : Table) : Option Table :=
  match t.find? name with
  | some _ => none
  | none => some (t ++ [(name, item)])

/-- Adds a table, or the line of one that other lines have named. -/
def openTable (name : String) (t : Table) : Option Table :=
  match t.find? name with
  | none => some (t ++ [(name, .table .header [])])
  | some (.table .implied inner) => some (t.replace name (.table .header inner))
  | some _ => none

/-- Adds a table to the list of a name. -/
def openElement (name : String) (t : Table) : Option Table :=
  match t.find? name with
  | none => some (t ++ [(name, .tables [[]])])
  | some (.tables all) => some (t.replace name (.tables (all ++ [[]])))
  | some _ => none

/-- The line `[path]`. -/
def declareTable (path : List String) (t : Table) : Option Table := do
  let name ← path.getLast?
  updateDeclared (openTable name) path.dropLast t

/-- The line `[[path]]`. -/
def declareElement (path : List String) (t : Table) : Option Table := do
  let name ← path.getLast?
  updateDeclared (openElement name) path.dropLast t

/-- The line `path = value` of a table. Tables on the path must come from such paths themselves,
the last one in any case. -/
def define (path : List String) (v : Json) (t : Table) : Option Table := do
  let name ← path.getLast?
  let put (origin : Origin) (inner : Table) : Option Table :=
    if path.dropLast ≠ [] ∧ origin ≠ .dotted then none else insertNew name (.value v) inner
  update .dotted (· != .header) put path.dropLast .header t

end Table

mutual

def Item.toJson : Item → Json
  | .value v => v
  | .table _ entries => .object (entriesToJson entries)
  | .tables all => .array (tablesToJson all)

def entriesToJson : List (String × Item) → List (String × Json)
  | [] => []
  | (name, item) :: rest => (name, item.toJson) :: entriesToJson rest

def tablesToJson : List (List (String × Item)) → List Json
  | [] => []
  | entries :: rest => .object (entriesToJson entries) :: tablesToJson rest

end

def Table.toJson (t : Table) : Json := .object (entriesToJson t)

end FormulaOutline.Toml
