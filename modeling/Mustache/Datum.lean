import Mustache.Error
import Mustache.Json
import Mustache.Text.Utf8
import Mustache.Value
/-!
# Mustache — typed data

Typed data of another program, described by the shape it has there:
numbers of several widths, options, records, variants of a type with
several cases. It becomes a value of templates, in which less is told
apart: a tuple is a list, a record is a map, a case without data is a
text, and a case with data of one part is a map with one entry.
-/

namespace Mustache

mutual

/-- A piece of typed data. -/
inductive Datum where
  | bool (value : Bool)
  /-- An integer of any width up to 64 bits, signed or unsigned. -/
  | int (value : Int)
  /-- An integer of 128 bits. -/
  | wideInt (value : Int)
  | float (value : Binary64)
  | char (value : Char)
  | str (text : String)
  | bytes (bytes : List UInt8)
  | absent
  | present (datum : Datum)
  | unit
  | unitStruct
  | newtypeStruct (datum : Datum)
  | seq (items : List Datum)
  | tuple (items : List Datum)
  | tupleStruct (items : List Datum)
  | map (parts : List MapPart)
  | struct (fields : List (String × Datum))
  | unitVariant (name : String)
  | newtypeVariant (name : String) (datum : Datum)
  | tupleVariant (name : String) (items : List Datum)
  | structVariant (name : String) (fields : List (String × Datum))
  /-- Data that cannot be had, and why. -/
  | refused (reason : String)

/-- A map is told part by part: its keys and its values, each value after
its key. -/
inductive MapPart where
  | key (datum : Datum)
  | value (datum : Datum)

end

namespace Datum

instance : Inhabited Datum := ⟨.unit⟩

/-- An integer as a value: beyond 64 bits with a sign it is a
floating-point number. -/
def intValue (n : Int) : Value :=
  if n < 0x8000000000000000 then .int n else .float (Binary64.ofNat n.toNat)

/-- The text of a value as the key of a map. Only text, numbers and truth
values can be keys. -/
def keyText : Value → Except String String
  | .str s => .ok s
  | .int n => .ok (toString n)
  | .bool b => .ok (if b then "1" else "")
  | .float x => .ok (DecimalStyle.plain.text x)
  | _ => .error "map key must be a string or number"

mutual

/-- The value that a piece of data becomes, or why it cannot. -/
def convert : Datum → Except String Value
  | .bool b => .ok (.bool b)
  | .int n => .ok (intValue n)
  | .wideInt _ => .error "i128 is not supported"
  | .float x => .ok (.float x)
  | .char c => .ok (.str (String.singleton c))
  | .str s => .ok (.str s)
  | .bytes bs => .ok (.str (Text.decodeLossy bs))
  | .absent | .unit | .unitStruct => .ok .null
  | .present d | .newtypeStruct d => convert d
  | .unitVariant name => .ok (.str name)
  | .newtypeVariant name d => do return .map [(name, ← convert d)]
  | .seq items | .tuple items | .tupleStruct items | .tupleVariant _ items => do
    return .list (← convertItems items)
  | .map parts => do return .map (← convertParts [] none parts)
  | .struct fields | .structVariant _ fields => do return .map (← convertFields [] fields)
  | .refused reason => .error reason

/-- The values of a list of data. -/
def convertItems : List Datum → Except String (List Value)
  | [] => .ok []
  | d :: ds => do
    let value ← convert d
    return value :: (← convertItems ds)

/-- Put fields into a map, one after the other. -/
def convertFields (entries : Entries Value) : List (String × Datum) → Except String (Entries Value)
  | [] => .ok entries
  | (name, d) :: fields => do
    let value ← convert d
    convertFields (Entries.insert entries name value) fields

/-- Put the parts of a map into it; a key waits until its value comes. -/
def convertParts (entries : Entries Value) (waiting : Option String) :
    List MapPart → Except String (Entries Value)
  | [] => .ok entries
  | .key d :: parts => do
    let key ← keyText (← convert d)
    convertParts entries (some key) parts
  | .value d :: parts => do
    let value ← convert d
    match waiting with
    | some key => convertParts (Entries.insert entries key value) none parts
    | none => .error "map value without a key"

end

/-- The value that a piece of data becomes. -/
def toValue (d : Datum) : Except Error Value :=
  match convert d with
  | .ok value => .ok value
  | .error reason => .error (.invalidArgument (.data reason))

mutual

/-- A JSON document as typed data. The fields of an object come in
ascending order of their names; of a repeated name the last one counts. -/
def ofJson : Json → Datum
  | .null => .unit
  | .bool b => .bool b
  | .int n => .int n
  | .float x => .float x
  | .str s => .str s
  | .arr items => .seq (ofItems items)
  | .obj fields =>
    .map ((Entries.sorted (Entries.ofPairs (ofFields fields))).flatMap fun f =>
      [.key (.str f.1), .value f.2])

/-- The items of a JSON array as typed data. -/
def ofItems : List Json → List Datum
  | [] => []
  | item :: items => ofJson item :: ofItems items

/-- The fields of a JSON object as typed data. -/
def ofFields : List (String × Json) → List (String × Datum)
  | [] => []
  | (name, value) :: fields => (name, ofJson value) :: ofFields fields

end

end Datum

end Mustache
