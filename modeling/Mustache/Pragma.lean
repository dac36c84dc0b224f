/-!
# Mustache — pragmas

A pragma widens the grammar of templates. Four are known; a pragma tag
may name anything, so the pragmas in effect are a set of names, kept in
ascending order, and an unknown name among them changes nothing.
-/

namespace Mustache

/-- The known pragmas, in the order in which an engine lists them. -/
inductive Pragma where
  /-- Names may go on with filters, `name | filter`. -/
  | filters
  /-- Blocks of a template may be overridden by the templates that extend
  it. -/
  | blocks
  /-- A name with a leading dot looks in the top frame only. -/
  | anchoredDot
  /-- A partial or parent may be named by the context, `*name`. -/
  | dynamicNames
  deriving DecidableEq, Repr

namespace Pragma

/-- Every pragma, in order. -/
def all : List Pragma := [.filters, .blocks, .anchoredDot, .dynamicNames]

def name : Pragma → String
  | .filters => "FILTERS"
  | .blocks => "BLOCKS"
  | .anchoredDot => "ANCHORED-DOT"
  | .dynamicNames => "DYNAMIC-NAMES"

/-- The pragma of a name. -/
def ofName? (s : String) : Option Pragma := all.find? fun p => p.name = s

@[simp] theorem ofName?_name (p : Pragma) : ofName? p.name = some p := by cases p <;> decide

/-- The pragmas of a list, each once and in order. -/
def normal (ps : List Pragma) : List Pragma := all.filter (ps.contains ·)

end Pragma

/-- The names of the pragmas in effect, in ascending order. -/
structure PragmaSet where
  names : List String
  deriving DecidableEq, Repr

namespace PragmaSet

/-- Put a name in its place, once. -/
def place (name : String) : List String → List String
  | [] => [name]
  | n :: ns =>
    if name = n then n :: ns
    else if name < n then name :: n :: ns
    else n :: place name ns

/-- The set with one more name. -/
def enable (set : PragmaSet) (name : String) : PragmaSet := ⟨place name set.names⟩

/-- The set that a template starts with. -/
def ofPragmas (ps : List Pragma) : PragmaSet := ps.foldl (fun set p => set.enable p.name) ⟨[]⟩

/-- Whether a pragma is in effect. -/
def has (set : PragmaSet) (p : Pragma) : Bool := set.names.contains p.name

theorem mem_place {a name : String} {ns : List String} :
    a ∈ place name ns ↔ a = name ∨ a ∈ ns := by
  induction ns with
  | nil => simp [place]
  | cons n ns ih =>
    simp only [place]
    split
    · next h => subst h; simp
    · split
      · simp
      · simp only [List.mem_cons, ih]
        constructor
        · rintro (h | h | h) <;> simp [h]
        · rintro (h | h | h) <;> simp [h]

/-- After a name is enabled, a pragma is in effect if it has that name or
was in effect before. -/
theorem has_enable (set : PragmaSet) (name : String) (p : Pragma) :
    (set.enable name).has p = true ↔ p.name = name ∨ set.has p = true := by
  simp [has, enable, mem_place]

end PragmaSet

end Mustache
