import FormulaOutline.Document.Basic
import FormulaOutline.Formula.Lexer

/-!
# Outlines

The text form of a document: a line for each node below the root, indented by two spaces a level,
with a hyphen, perhaps an id in brackets, and the text of the node.

* `Document.ofOutline` reads an outline, `Document.toOutline` writes one with all ids.
-/

namespace FormulaOutline.Document

open Text

/-! ## Lines -/

/-- The text after the marker of a line, if it has one. -/
def afterMarker? : List Char → Option (List Char)
  | '-' :: ' ' :: rest => some rest
  | '-' :: rest => some rest
  | _ => none

/-- A text without one space at its start. -/
def dropSpace : List Char → List Char
  | ' ' :: rest => rest
  | s => s

/-- The id in brackets at the start of a text, and the text after it. Brackets around anything but
an id that references can name belong to the text. -/
def splitId (body : List Char) : Option NodeId × List Char :=
  match body with
  | '[' :: rest =>
      let id := rest.takeWhile (· != ']')
      match rest.dropWhile (· != ']') with
      | _ :: after =>
          if Formula.isTranscludable (String.ofList id) then
            (some (String.ofList id), dropSpace after)
          else (none, body)
      | [] => (none, body)
  | _ => (none, body)

/-! ## Reading -/

/-- An outline that has been read in part. -/
structure Draft where
  document : Document
  /-- The root and the last line of each level, as deep as the last line. -/
  path : List NodeId
  supply : IdSupply

/-- Adds a line below the last line of the level before its own. -/
def Draft.add (draft : Draft) (level : Nat) (id : NodeId) (text : String) :
    Except DocumentError Draft :=
  match draft.path[level - 1]? with
  | none => .error (.nodeNotFound id)
  | some parent => do
      let document ← draft.document.addChild parent id text
      .ok { draft with document, path := draft.path.take level ++ [id] }

/-- Reads a line that is not blank. -/
def Draft.readLine (draft : Draft) (number : Nat) (line : List Char) :
    Except DocumentError Draft :=
  let indent := (line.takeWhile (· == ' ')).length
  let level := indent / 2 + 1
  if indent % 2 ≠ 0 then .error (.invalidOutline number .oddIndent)
  else if draft.path.length < level then .error (.invalidOutline number .skippedLevel)
  else
    match afterMarker? (line.dropWhile (· == ' ')) with
    | none => .error (.invalidOutline number .noMarker)
    | some body =>
        match splitId body with
        | (some id, text) =>
            if draft.document.contains id then .error (.invalidOutline number .idExists)
            else draft.add level id (String.ofList text)
        | (none, text) =>
            let (id, supply) := draft.supply.next
            { draft with supply }.add level id (String.ofList text)

/-- Reads lines, the first of which has the given number. -/
def Draft.readLines (number : Nat) : List (List Char) → Draft → Except DocumentError Draft
  | [], draft => .ok draft
  | line :: rest, draft =>
      if isBlankText line then readLines (number + 1) rest draft
      else
        match draft.readLine number line with
        | .ok next => readLines (number + 1) rest next
        | .error e => .error e

/-- The document that an outline describes, below a root without text. Lines without an id take
one from the supply. -/
def ofOutline (supply : IdSupply) (source : List Char) :
    Except DocumentError (Document × IdSupply) :=
  match Draft.readLines 1 (lines source) ⟨empty, [empty.root], supply⟩ with
  | .ok draft => .ok ({ draft.document with version := 0 }, draft.supply)
  | .error e => .error e

/-! ## Writing -/

def outlineLine (level : Nat) (n : Node) : String :=
  String.ofList (List.replicate (2 * level) ' ') ++ "- [" ++ n.id ++ "] " ++ n.value ++ "\n"

/-- The lines of a node and of all below it, at most `fuel` levels. -/
def outlineBelow (d : Document) : (fuel level : Nat) → NodeId → String
  | 0, _, _ => ""
  | fuel + 1, level, id =>
      match d.node? id with
      | none => ""
      | some n =>
          outlineLine level n ++ String.join (n.children.map (outlineBelow d fuel (level + 1)))

/-- The outline of all that is below the root. -/
def toOutline (d : Document) : String :=
  match d.node? d.root with
  | none => ""
  | some n => String.join (n.children.map (d.outlineBelow d.size 0))

end FormulaOutline.Document
