import Mustache.Text.Blank
/-!
# Mustache — delimiters

A tag stands between an opening and a closing delimiter. Both can be
changed, by a set-delimiter tag or from outside; as text, a pair of
delimiters is two words.
-/

namespace Mustache

/-- An opening and a closing delimiter. -/
structure Delimiters where
  opening : String
  closing : String
  deriving DecidableEq, Repr

namespace Delimiters

/-- Double braces, the delimiters that a template starts with unless told
otherwise. -/
def standard : Delimiters := ⟨"\x7b\x7b", "\x7d\x7d"⟩

def isStandard (d : Delimiters) : Bool := d = standard

/-- The delimiters that a text of exactly two words names. -/
def ofText? (spec : String) : Option Delimiters :=
  match Text.words spec.toList with
  | [opening, closing] => some ⟨String.ofList opening, String.ofList closing⟩
  | _ => none

/-- Delimiters as two words. -/
def text (d : Delimiters) : String := d.opening ++ " " ++ d.closing

/-- The set-delimiter tag that changes standard delimiters to these. -/
def tag (d : Delimiters) : String :=
  standard.opening ++ "= " ++ d.opening ++ " " ++ d.closing ++ " =" ++ standard.closing

/-- Delimiters where they matter: standard ones are the same as none. -/
def unlessStandard (d : Option Delimiters) : Option Delimiters := d.filter fun d => !d.isStandard

@[simp] theorem unlessStandard_none : unlessStandard none = none := rfl

@[simp] theorem unlessStandard_idem (d : Option Delimiters) :
    unlessStandard (unlessStandard d) = unlessStandard d := by
  cases d with
  | none => rfl
  | some d => by_cases h : d.isStandard <;> simp [unlessStandard, Option.filter, h]

end Delimiters

end Mustache
