import Mustache.Host
import Mustache.Pool
/-!
# Mustache — stock procedures and objects

A host made of ready-made parts: procedures of some common kinds, and
objects given by tables. A program without procedures of its own can take
them from here.
-/

namespace Mustache

/-- A procedure that needs its section. Where it has texts rendered, a text
of two words may give other delimiters for them. -/
inductive StockSection where
  /-- The unrendered text between two others. -/
  | quote (before after : String)
  /-- A fixed text. -/
  | fixed (text : String)
  /-- The rendered text between two others. -/
  | render (before after : String) (delimiters : Option String)
  /-- The rendered text in capitals. -/
  | renderUpper (delimiters : Option String)
  /-- A fixed text, rendered. -/
  | renderFixed (text : String) (delimiters : Option String)
  /-- The rendered text twice, with a text between. -/
  | renderTwice (between : String)
  /-- The delimiters of the section. -/
  | delimiters (delimiters : Option String)

/-- A ready-made procedure. What it works on is its first argument, null
if there is none. -/
inductive StockProcedure where
  | const (value : Value)
  | same
  | upper
  | wrap (before after : String)
  /-- A list of copies. -/
  | copies (count : Nat)
  /-- A list of maps with the position and the value of each element. -/
  | numbered
  /-- The texts of the elements, with a text between. -/
  | join (between : String)
  | isEmpty
  /-- The argument, or a value instead of an empty one. -/
  | orElse (value : Value)
  /-- What stands under a key. -/
  | get (key : String)
  /-- How many arguments there are, whether it is in a section, and the
  texts of the arguments. -/
  | describe
  | fail (text : String)
  | blank
  | inSection (procedure : StockSection)

/-- A ready-made object. -/
structure StockObject where
  methods : Entries Nat
  properties : Entries Value
  hidden : List String
  offsets : Entries Value
  /-- What stands under every other key. -/
  anyOffset : Option Value
  invoke : Option Nat
  iter : Option (List Value)
  display : Option String

namespace StockObject

/-- The object as a host has it. -/
def toHost (o : StockObject) : HostObject where
  method := Entries.get? o.methods
  property name :=
    if o.hidden.contains name then .hidden
    else
      match Entries.get? o.properties name with
      | some value => .visible value
      | none => .undefined
  offset key := (Entries.get? o.offsets key).or o.anyOffset
  invoke := o.invoke
  iter := o.iter
  display := o.display

end StockObject

namespace SectionHelper

/-- The helper with the delimiters that a text names, if one is given. -/
def withSpec (helper : SectionHelper) : Option String → Except Error SectionHelper
  | none => .ok helper
  | some spec => (Delimiters.ofText spec).map helper.withDelimiters

/-- Have a text rendered and go on with the result, unless it fails. -/
def andThen (helper : SectionHelper) (text : String) (next : String → Action) : Action :=
  helper.render text fun
    | .ok rendered => next rendered
    | .error e => .done (.error e)

end SectionHelper

namespace StockSection

/-- A text in capitals, as far as the letters are ASCII. -/
def upperText (s : String) : String := s.map Char.toUpper

/-- Be done with a text. -/
def give (text : String) : Action := .done (.ok (.str text))

/-- What the procedure does in a section, given the text of the section. -/
def run (helper : SectionHelper) (text : String) : StockSection → Action
  | quote before after => give (before ++ text ++ after)
  | fixed s => give s
  | render before after spec =>
    match helper.withSpec spec with
    | .error e => .done (.error e)
    | .ok helper => helper.andThen text fun s => give (before ++ s ++ after)
  | renderUpper spec =>
    match helper.withSpec spec with
    | .error e => .done (.error e)
    | .ok helper => helper.andThen text fun s => give (upperText s)
  | renderFixed s spec =>
    match helper.withSpec spec with
    | .error e => .done (.error e)
    | .ok helper => helper.andThen s give
  | renderTwice between =>
    helper.andThen text fun first => helper.andThen text fun second =>
      give (first ++ between ++ second)
  | delimiters spec =>
    match helper.withSpec spec with
    | .error e => .done (.error e)
    | .ok helper => give (helper.delimiters.elim "none" Delimiters.text)

end StockSection

namespace StockProcedure

/-- What is done with the first argument. -/
def first (args : List Value) : Value := args.headD .null

/-- The text of the first argument. -/
def firstText (host : Host) (args : List Value) : String := (first args).text host

/-- A map of a position and the value there. -/
def entryOf (value : Value) (position : Nat) : Value :=
  .map [("key", .int position), ("value", value)]

/-- What the procedure gives. -/
def answer (host : Host) (sectioned : Bool) (args : List Value) :
    StockProcedure → Except Error Value
  | const value => .ok value
  | same => .ok (first args)
  | upper => .ok (.str (StockSection.upperText (firstText host args)))
  | wrap before after => .ok (.str (before ++ firstText host args ++ after))
  | copies count => .ok (.list (List.replicate count (first args)))
  | numbered =>
    .ok (.list ((((first args).elements? host).getD []).zipIdx.map fun p => entryOf p.1 p.2))
  | join between =>
    .ok (.str (between.intercalate
      ((((first args).elements? host).getD []).map (Value.text host))))
  | isEmpty => .ok (.bool (first args).isEmpty)
  | orElse value => .ok (if (first args).isEmpty then value else first args)
  | get key => ((first args).lookup host key false).map fun found => found.getD .null
  | describe =>
    .ok (.str (toString args.length ++ ":" ++ (if sectioned then "true" else "false") ++ ":"
      ++ ",".intercalate (args.map (Value.text host))))
  | fail text => .error (.runtime (.other text))
  | blank => .ok (.str "")
  | inSection _ => .error (.invalidArgument .sectionLambda)

/-- What the procedure does in a section. -/
def act (host : Host) (helper : SectionHelper) (args : List Value) : StockProcedure → Action
  | inSection procedure => procedure.run helper ((args.head?.map (Value.text host)).getD "")
  | procedure => .done (procedure.answer host true args)

end StockProcedure

/-- Procedures and objects, each known by its position. -/
structure Stock where
  procedures : Pool StockProcedure
  objects : Pool StockObject

namespace Stock

def empty : Stock := ⟨.empty, .empty⟩

/-- The position of a new procedure, and the stock with it. -/
def addProcedure (stock : Stock) (p : StockProcedure) : Nat × Stock :=
  let (ref, procedures) := stock.procedures.add p
  (ref, { stock with procedures })

/-- The position of a new object, and the stock with it. -/
def addObject (stock : Stock) (o : StockObject) : Nat × Stock :=
  let (ref, objects) := stock.objects.add o
  (ref, { stock with objects })

/-- The object at a position. -/
def object (stock : Stock) (ref : Nat) : HostObject :=
  ((stock.objects.get? ref).map StockObject.toHost).getD .inert

/-- The procedure at a position. -/
def procedure (stock : Stock) (ref : Nat) : StockProcedure :=
  (stock.procedures.get? ref).getD .blank

/-- The host whose procedures call others as a given host does. -/
def hostOver (stock : Stock) (other : Host) : Host where
  object := stock.object
  call ref args := (stock.procedure ref).answer other false args
  callInSection ref helper args := (stock.procedure ref).act other helper args

/-- The host that a stock is. A procedure calls another one only as the
method of an object it looks into, without arguments; and without
arguments no procedure has an object to look into. So two layers are
enough. -/
def host (stock : Stock) : Host :=
  stock.hostOver (stock.hostOver { Host.inert with object := stock.object })

end Stock

end Mustache
