import Mustache.Json.Draft
import Mustache.Program
/-!
# Mustache — stored programs

A compiled template is stored as a JSON document. An instruction is an
object whose field `op` tells which one it is; a case of another type
with one argument is an object with the case as its only field, a case
without argument is a string. Reading takes what writing produces, in any
order of fields and with unknown fields between them; fields in the right
order may also come as an array, without their names. A few more spellings
are read that are never written: a case without argument may have one that
is void, and an instruction inside another one may give its operation by
number.
-/

namespace Mustache

/-! ## Writing -/

namespace Lookup

def toJson : Lookup → Json
  | .top => .str "Last"
  | .find id => .obj [("Find", .str id)]
  | .findDotted id => .obj [("FindDot", .str id)]
  | .findAnchored id => .obj [("FindAnchoredDot", .str id)]

end Lookup

namespace TemplateName

def toJson : TemplateName → Json
  | .fixed name => .obj [("Static", .str name)]
  | .dynamic lookup => .obj [("Dynamic", lookup.toJson)]

end TemplateName

namespace Filter

def toJson (f : Filter) : Json := .obj [("name", .str f.name), ("lookup", f.lookup.toJson)]

end Filter

namespace Escaping

def toJson : Escaping → Json
  | .custom => .str "Custom"
  | .html flags => .obj [("Html", .int flags.toNat)]

end Escaping

namespace Delimiters

def toJson (d : Delimiters) : Json :=
  .obj [("open", .str d.opening), ("close", .str d.closing)]

end Delimiters

/-- A text that may be absent. -/
def Json.ofOption (s : Option String) : Json := s.elim .null .str

namespace Instr

mutual

def toJson : Instr → Json
  | .text value indent =>
    .obj [("op", .str "text"), ("value", .str value), ("indent", .bool indent)]
  | .interpolate lookup filters escape indent =>
    .obj [("op", .str "variable"), ("lookup", lookup.toJson),
      ("filters", .arr (filters.map Filter.toJson)), ("escape", .bool escape),
      ("indent", .bool indent)]
  | .enter lookup filters key =>
    .obj [("op", .str "section"), ("lookup", lookup.toJson),
      ("filters", .arr (filters.map Filter.toJson)), ("key", .str key)]
  | .inverted lookup filters body =>
    .obj [("op", .str "inverted"), ("lookup", lookup.toJson),
      ("filters", .arr (filters.map Filter.toJson)), ("body", .arr (listToJson body))]
  | .insertPartial name indent =>
    .obj [("op", .str "partial"), ("name", name.toJson), ("indent", Json.ofOption indent)]
  | .extend name overrides =>
    .obj [("op", .str "parent"), ("name", name.toJson),
      ("overrides", .arr (overrides.map fun o => .arr [.str o.1, .str o.2]))]
  | .block name default =>
    .obj [("op", .str "block_var"), ("name", .str name), ("default", .arr (listToJson default))]

/-- The documents of a list of instructions. -/
def listToJson : List Instr → List Json
  | [] => []
  | i :: is => toJson i :: listToJson is

end

/-- The text under whose digest a body is filed. -/
def bodyText (body : List Instr) : String := (Json.arr (listToJson body)).text

end Instr

namespace SectionBody

def toJson (s : SectionBody) : Json :=
  .obj [("source", .str s.source), ("delimiters", s.delimiters.elim .null Delimiters.toJson),
    ("body", .arr (Instr.listToJson s.body))]

end SectionBody

namespace Program

def toJson (p : Program) : Json :=
  .obj [("name", .str p.name), ("strict_callables", .bool p.strictCallables),
    ("escape", p.escaping.toJson), ("body", .arr (Instr.listToJson p.body)),
    ("sections", .obj (p.sections.map fun s => (s.1, s.2.toJson))),
    ("blocks", .obj (p.blocks.map fun b => (b.1, .arr (Instr.listToJson b.2))))]

end Program

/-! ## Reading -/

namespace Json

/-- The fields of a record, in their order. None if one is repeated, or if
an array has another number of items. A field that is absent reads as
nothing. -/
def record? (names : List String) : Json → Option (List (Option Json))
  | .obj fields =>
    names.mapM fun name =>
      match fields.filter fun f => f.1 = name with
      | [] => some none
      | [f] => some (some f.2)
      | _ => none
  | .arr items => if items.length = names.length then some (items.map some) else none
  | _ => none

def asText? : Json → Option String
  | .str s => some s
  | _ => none

def asBool? : Json → Option Bool
  | .bool b => some b
  | _ => none

def asList? : Json → Option (List Json)
  | .arr items => some items
  | _ => none

/-- A text, or nothing for a field that is null or absent. -/
def asOptionalText? : Option Json → Option (Option String)
  | none | some .null => some none
  | some (.str s) => some (some s)
  | _ => none

/-- A case with its argument. A case without one may be a string. -/
def case? : Json → Option (String × Option Json)
  | .str name => some (name, none)
  | .obj [(name, argument)] => some (name, some argument)
  | _ => none

/-- The argument of a case that has none: it is absent or null. -/
def isAbsent : Option Json → Bool
  | none | some .null => true
  | _ => false

/-- The argument of a case that has none, where an empty object counts as
none too. -/
def isVoid : Option Json → Bool
  | some (.obj []) => true
  | argument => isAbsent argument

end Json

namespace Lookup

def ofJson? (j : Json) : Option Lookup := do
  let (name, argument) ← j.case?
  if name = "Last" then (if Json.isVoid argument then some .top else none)
  else
    let id ← (← argument).asText?
    if name = "Find" then some (.find id)
    else if name = "FindDot" then some (.findDotted id)
    else if name = "FindAnchoredDot" then some (.findAnchored id)
    else none

end Lookup

namespace TemplateName

def ofJson? (j : Json) : Option TemplateName := do
  let (name, argument) ← j.case?
  if name = "Static" then return .fixed (← (← argument).asText?)
  else if name = "Dynamic" then return .dynamic (← Lookup.ofJson? (← argument))
  else none

end TemplateName

namespace Filter

def ofJson? (j : Json) : Option Filter := do
  match ← j.record? ["name", "lookup"] with
  | [some name, some lookup] => return ⟨← name.asText?, ← Lookup.ofJson? lookup⟩
  | _ => none

def listOfJson? (j : Json) : Option (List Filter) := do (← j.asList?).mapM ofJson?

end Filter

namespace Escaping

def ofJson? (j : Json) : Option Escaping := do
  let (name, argument) ← j.case?
  if name = "Custom" then (if Json.isAbsent argument then some .custom else none)
  else if name = "Html" then
    match ← argument with
    | .int n => if 0 ≤ n ∧ n < 0x100000000 then some (.html (UInt32.ofNat n.toNat)) else none
    | _ => none
  else none

end Escaping

namespace Delimiters

def ofJson? (j : Json) : Option Delimiters := do
  match ← j.record? ["open", "close"] with
  | [some opening, some closing] => return ⟨← opening.asText?, ← closing.asText?⟩
  | _ => none

end Delimiters

namespace Instr

/-- The operations in the order of their numbers. -/
def operations : List String :=
  ["text", "variable", "section", "inverted", "partial", "parent", "block_var"]

/-- The operation that a field tells: by its name, or inside another
instruction by its number. -/
def operationOf? (nested : Bool) : Json → Option String
  | .str op => some op
  | .int n => if nested ∧ 0 ≤ n then operations[n.toNat]? else none
  | _ => none

/-- The operation of an instruction and its document without it. -/
def operation? (nested : Bool) : Json → Option (String × Json)
  | .obj fields =>
    match fields.filter fun f => f.1 = "op" with
    | [(_, op)] =>
      (operationOf? nested op).map fun op => (op, .obj (fields.filter fun f => f.1 ≠ "op"))
    | _ => none
  | .arr (op :: items) => (operationOf? nested op).map fun op => (op, .arr items)
  | _ => none

/-- A pair of a block name and the key of a body. -/
def overrideOfJson? : Json → Option (String × String)
  | .arr [.str name, .str key] => some (name, key)
  | _ => none

/-- The instruction of a document whose containers nest no deeper than the
bound. -/
def ofJson? (nested : Bool) : (depth : Nat) → Json → Option Instr
  | 0, _ => none
  | depth + 1, j => do
    let (op, j) ← operation? nested j
    let body? (j : Json) : Option (List Instr) := do (← j.asList?).mapM (ofJson? true depth)
    if op = "text" then
      match ← j.record? ["value", "indent"] with
      | [some value, some indent] => return .text (← value.asText?) (← indent.asBool?)
      | _ => none
    else if op = "variable" then
      match ← j.record? ["lookup", "filters", "escape", "indent"] with
      | [some lookup, some filters, some escape, some indent] =>
        return .interpolate (← Lookup.ofJson? lookup) (← Filter.listOfJson? filters)
          (← escape.asBool?) (← indent.asBool?)
      | _ => none
    else if op = "section" then
      match ← j.record? ["lookup", "filters", "key"] with
      | [some lookup, some filters, some key] =>
        return .enter (← Lookup.ofJson? lookup) (← Filter.listOfJson? filters) (← key.asText?)
      | _ => none
    else if op = "inverted" then
      match ← j.record? ["lookup", "filters", "body"] with
      | [some lookup, some filters, some body] =>
        return .inverted (← Lookup.ofJson? lookup) (← Filter.listOfJson? filters) (← body? body)
      | _ => none
    else if op = "partial" then
      match ← j.record? ["name", "indent"] with
      | [some name, indent] =>
        return .insertPartial (← TemplateName.ofJson? name) (← Json.asOptionalText? indent)
      | _ => none
    else if op = "parent" then
      match ← j.record? ["name", "overrides"] with
      | [some name, some overrides] =>
        return .extend (← TemplateName.ofJson? name)
          (← (← overrides.asList?).mapM overrideOfJson?)
      | _ => none
    else if op = "block_var" then
      match ← j.record? ["name", "default"] with
      | [some name, some default] => return .block (← name.asText?) (← body? default)
      | _ => none
    else none

/-- The instructions of a document. -/
def listOfJson? (j : Json) : Option (List Instr) := do
  (← j.asList?).mapM (ofJson? false (Json.depthLimit + 1))

end Instr

namespace SectionBody

def ofJson? (j : Json) : Option SectionBody := do
  match ← j.record? ["source", "delimiters", "body"] with
  | [some source, delimiters, some body] =>
    let delimiters ←
      match delimiters with
      | none | some .null => some none
      | some d => (Delimiters.ofJson? d).map some
    return ⟨← source.asText?, delimiters, ← Instr.listOfJson? body⟩
  | _ => none

end SectionBody

namespace Program

/-- The entries of an object; a repeated name keeps its first place and
its last value. -/
def entriesOfJson? {α : Type} (item? : Json → Option α) : Json → Option (Entries α)
  | .obj fields => do
    let pairs ← fields.mapM fun f => (item? f.2).map fun v => (f.1, v)
    return Entries.ofPairs pairs
  | _ => none

def ofJson? (j : Json) : Option Program := do
  match ← j.record? ["name", "strict_callables", "escape", "body", "sections", "blocks"] with
  | [some name, some strict, some escaping, some body, some sections, some blocks] =>
    return {
      name := ← name.asText?
      strictCallables := ← strict.asBool?
      escaping := ← Escaping.ofJson? escaping
      body := ← Instr.listOfJson? body
      sections := ← entriesOfJson? SectionBody.ofJson? sections
      blocks := ← entriesOfJson? Instr.listOfJson? blocks }
  | _ => none

/-- A program as it is stored. -/
def store (p : Program) : String := p.toJson.text

open Json.Draft (Keep keepAll keepRecord keepEntries)

/-- What of a draft is read as delimiters. -/
def keepDelimiters : Keep :=
  keepRecord [("open", keepAll), ("close", keepAll)]

/-- What of a draft is read as a section. -/
def keepSection : Keep :=
  keepRecord [("source", keepAll), ("delimiters", keepDelimiters), ("body", keepAll)]

/-- What of a draft is read as a program. -/
def keepProgram : Keep :=
  keepRecord
    [("name", keepAll), ("strict_callables", keepAll), ("escape", keepAll),
     ("body", keepAll), ("sections", keepEntries keepSection), ("blocks", keepAll)]

/-- The program that a stored text holds, if it holds one. -/
def restore? (text : String) : Option Program := do
  let draft ← Json.Draft.ofText? text
  ofJson? (← (keepProgram draft).document? Json.depthLimit)

end Program

end Mustache
