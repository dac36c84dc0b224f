import Mustache.Json.Lexeme
/-!
# Mustache — drafts of JSON documents

A document is read in two steps. First its lexemes are put together with a
stack of the containers that are open: that gives a draft, in which it is
known how everything is written but not yet that everything stands for
something. Then the draft is turned into a document, which may nest
`depthLimit` containers and no more. A reader that knows which parts of a
document it needs leaves the others out in between.
-/

namespace Mustache

namespace Json

/-- A document as it is written. Names, strings and numbers that are well
written may still have no value. -/
inductive Draft where
  | scalar (value : Option Json)
  | arr (items : List Draft)
  | obj (fields : List (Option String × Draft))

instance : Inhabited Draft := ⟨.scalar none⟩

/-- A container that is open: what it holds so far, last item first, and
the name that waits for its value. -/
inductive Container where
  | array (items : List Draft)
  | object (fields : List (Option String × Draft)) (name : Option String)

/-- What may come next. -/
inductive Expected where
  /-- A value. -/
  | value
  /-- A value, or the end of the array that was just opened. -/
  | firstItem
  /-- A name, or the end of the object that was just opened. -/
  | firstName
  /-- A name. -/
  | name
  /-- The colon after a name. -/
  | colon
  /-- A comma, or the end of the container. -/
  | separator

/-- A draft under construction. -/
structure Assembly where
  containers : List Container
  expected : Expected
  /-- The outermost value, once it is complete. -/
  result : Option Draft

namespace Assembly

/-- A value is complete. -/
def complete (a : Assembly) (value : Draft) : Assembly :=
  match a.containers with
  | [] => ⟨[], .separator, some value⟩
  | .array items :: outer => ⟨.array (value :: items) :: outer, .separator, none⟩
  | .object fields name :: outer =>
    ⟨.object ((name, value) :: fields) none :: outer, .separator, none⟩

/-- A container is opened. -/
def enter (a : Assembly) (container : Container) (expected : Expected) : Assembly :=
  ⟨container :: a.containers, expected, none⟩

/-- An empty array is opened. -/
def openArray (a : Assembly) : Assembly := a.enter (.array []) .firstItem

/-- An empty object is opened. -/
def openObject (a : Assembly) : Assembly := a.enter (.object [] none) .firstName

/-- The innermost array is closed. -/
def closeArray? (a : Assembly) : Option Assembly :=
  match a.containers with
  | .array items :: outer => some (complete ⟨outer, .separator, none⟩ (.arr items.reverse))
  | _ => none

/-- The innermost object is closed. -/
def closeObject? (a : Assembly) : Option Assembly :=
  match a.containers with
  | .object fields _ :: outer => some (complete ⟨outer, .separator, none⟩ (.obj fields.reverse))
  | _ => none

/-- A name is written in the innermost object. -/
def name? (a : Assembly) (text : Option String) : Option Assembly :=
  match a.containers with
  | .object fields _ :: outer => some ⟨.object fields text :: outer, .colon, none⟩
  | _ => none

/-- A comma is written in the innermost container. -/
def comma? (a : Assembly) : Option Assembly :=
  match a.containers with
  | .array _ :: _ => some { a with expected := .value }
  | .object _ _ :: _ => some { a with expected := .name }
  | [] => none

/-- A value starts. -/
def value? (a : Assembly) : Lexeme → Option Assembly
  | .string text => some (a.complete (.scalar (text.map .str)))
  | .scalar value => some (a.complete (.scalar value))
  | .openArray => some a.openArray
  | .openObject => some a.openObject
  | _ => none

/-- A lexeme is added. -/
def add? (a : Assembly) (lexeme : Lexeme) : Option Assembly :=
  match a.expected, lexeme with
  | .firstItem, .closeArray => a.closeArray?
  | .value, lexeme | .firstItem, lexeme => a.value? lexeme
  | .firstName, .closeObject => a.closeObject?
  | .firstName, .string text | .name, .string text => a.name? text
  | .colon, .colon => some { a with expected := .value }
  | .separator, .comma => a.comma?
  | .separator, .closeArray => a.closeArray?
  | .separator, .closeObject => a.closeObject?
  | _, _ => none

end Assembly

namespace Draft

/-- The draft that a text holds, if it holds exactly one. -/
def ofText? (text : String) : Option Draft := do
  let parts ← lexemes? text.toList
  let assembly ← parts.foldlM Assembly.add? ⟨[], .value, none⟩
  assembly.result

/-! ## What a draft stands for -/

mutual

/-- The document that a draft stands for: every name, string and number
in it must have a value, and its containers may nest no deeper than the
bound. -/
def document? (depth : Nat) : Draft → Option Json
  | .scalar value => value
  | .arr items => if depth = 0 then none else (itemDocuments? (depth - 1) items).map .arr
  | .obj fields => if depth = 0 then none else (fieldDocuments? (depth - 1) fields).map .obj

/-- The documents that the items of an array stand for. -/
def itemDocuments? (depth : Nat) : List Draft → Option (List Json)
  | [] => some []
  | item :: items => do
    let first ← document? depth item
    let more ← itemDocuments? depth items
    return first :: more

/-- The documents that the fields of an object stand for. -/
def fieldDocuments? (depth : Nat) : List (Option String × Draft) → Option (List (String × Json))
  | [] => some []
  | (name, value) :: fields => do
    let name ← name
    let first ← document? depth value
    let more ← fieldDocuments? depth fields
    return (name, first) :: more

end

/-! ## Leaving parts out

What a record does not name is passed over: it has to be well written, but
it need not stand for anything, and it may nest as deep as it likes. -/

/-- What is kept of a part: nothing is looked into that is left out. -/
abbrev Keep := Draft → Draft

/-- Keep a part as it is. -/
def keepAll : Keep := id

/-- What is kept of the items of a record that is written without names. -/
def keepItems : List (String × Keep) → List Draft → List Draft
  | (_, keep) :: parts, item :: items => keep item :: keepItems parts items
  | _, items => items

/-- Keep the parts of a record: of an object the fields they name, of an
array the items in their places. -/
def keepRecord (parts : List (String × Keep)) : Keep
  | .obj fields => .obj (fields.filterMap fun f =>
      match f.1 with
      | none => some f
      | some name => (parts.lookup name).map fun keep => (f.1, keep f.2))
  | .arr items => .arr (keepItems parts items)
  | .scalar value => .scalar value

/-- Keep a part of every entry of a table. -/
def keepEntries (keep : Keep) : Keep
  | .obj fields => .obj (fields.map fun f => (f.1, keep f.2))
  | draft => draft

end Draft

/-- How many containers may stand inside each other. -/
def depthLimit : Nat := 127

/-- The document a text holds, if it holds exactly one. -/
def ofText? (text : String) : Option Json :=
  (Draft.ofText? text).bind (Draft.document? depthLimit)

end Json

end Mustache
