import Mustache.FileTree
import Mustache.Pragma
import Mustache.Token
/-!
# Mustache — errors

Everything that can go wrong, by cause. The text of an error is a
function of its cause, and of the token at fault where there is one.
-/

namespace Mustache

/-- What is wrong with a template. Each comes with the token that is at
fault. -/
inductive Fault where
  /-- The template ends inside the tag. -/
  | unclosedTag
  /-- The tag opens with three braces and closes with two. -/
  | mismatchedBraces
  /-- The set-delimiter tag does not name two words. -/
  | invalidDelimiters (spec : String)
  /-- The closing tag closes nothing. -/
  | unexpectedClosing
  /-- The closing tag closes another tag than the one last opened. -/
  | nesting (opening : Token)
  /-- The tag is never closed. -/
  | missingClosing
  /-- The tag may not take its name from the context. -/
  | invalidDynamicName
  /-- The tag may not stand directly inside a parent tag. -/
  | illegalInParent
  /-- The tag may not stand where it does. -/
  | misplaced

namespace Fault

/-- A name as its tag wrote it. -/
def shownName (t : Token) : String := (if t.dynamic then "*" else "") ++ t.name

/-- The text of a fault of a token. -/
def message (fault : Fault) (token : Token) : String :=
  let onLine := " on line " ++ toString token.line
  match fault with
  | .unclosedTag =>
    if token.name = "" then "Unclosed tag" ++ onLine else "Unclosed tag: " ++ token.name ++ onLine
  | .mismatchedBraces => "Mismatched tag delimiters: " ++ token.name ++ onLine
  | .invalidDelimiters spec => "Invalid delimiters: " ++ spec
  | .unexpectedClosing => "Unexpected closing tag: /" ++ token.name ++ onLine
  | .nesting opening =>
    "Nesting error: " ++ shownName opening ++ " (on line " ++ toString opening.line ++ ") vs. "
      ++ shownName token ++ " (on line " ++ toString token.line ++ ")"
  | .missingClosing =>
    "Missing closing tag: " ++ token.name ++ " opened" ++ onLine
  | .invalidDynamicName =>
    "Invalid dynamic name: " ++ token.name ++ " in " ++ token.kind.label ++ " tag"
  | .illegalInParent => "Illegal content in < parent tag"
  | .misplaced => "Unknown token type: " ++ token.kind.label

end Fault

/-- What is wrong with a setting or with data from outside. -/
inductive BadArgument where
  | delimiters (spec : String)
  | pragma (name : String)
  | emptyClassPrefix
  | charset (name : String)
  | statProperty (name : String)
  | inlineFile
  | inlineOffset
  | anchoredName (id : String)
  | data (reason : String)
  | sectionLambda
  | other (text : String)

namespace BadArgument

def message : BadArgument → String
  | .delimiters spec => "Invalid delimiters: " ++ spec
  | .pragma name => "Unknown pragma: \"" ++ name ++ "\"."
  | .emptyClassPrefix => "Template class prefix must not be empty"
  | .charset name => "Unsupported charset: " ++ name
  | .statProperty name => "Unknown stat property: " ++ name
  | .inlineFile => "InlineLoader expects a valid filename."
  | .inlineOffset => "InlineLoader expects a valid file offset."
  | .anchoredName id => "Unexpected id for findAnchoredDot: " ++ id
  | .data reason => "Unable to convert data: " ++ reason
  | .sectionLambda => "section lambda called outside a section"
  | .other text => text

end BadArgument

/-- What failed while templates were fetched, stored or rendered. -/
inductive Failure where
  | notFolder (path : String)
  | readSource (path : String) (fault : FileFault)
  | immutableLoader
  | createFolder (path : String) (fault : FileFault)
  | writeEntry (path : String) (fault : FileFault)
  | readEntry (path : String) (fault : FileFault)
  | other (text : String)

namespace Failure

def message : Failure → String
  | .notFolder path => "FilesystemLoader baseDir must be a directory: " ++ path
  | .readSource path fault =>
    "Failed to read source file \"" ++ path ++ "\": " ++ fault.message
  | .immutableLoader => "Unable to set partials on an immutable loader"
  | .createFolder path fault =>
    "Failed to create cache directory \"" ++ path ++ "\": " ++ fault.message
  | .writeEntry path fault => "Failed to write cache file \"" ++ path ++ "\": " ++ fault.message
  | .readEntry path fault => "Failed to read cache file \"" ++ path ++ "\": " ++ fault.message
  | .other text => text

end Failure

/-- An error of the library. -/
inductive Error where
  | malformed (fault : Fault) (token : Token)
  | unknownTemplate (name : String)
  | unknownFilter (name : String)
  | unknownHelper (name : String)
  | invalidArgument (cause : BadArgument)
  | runtime (cause : Failure)

namespace Error

/-- The text of an error. -/
def message : Error → String
  | .malformed fault token => fault.message token
  | .unknownTemplate name => "Unknown template: " ++ name
  | .unknownFilter name => "Unknown filter: " ++ name
  | .unknownHelper name => "Unknown helper: " ++ name
  | .invalidArgument cause => "Invalid argument: " ++ cause.message
  | .runtime cause => "Runtime error: " ++ cause.message

/-- The token at fault, for a template that is malformed. -/
def token? : Error → Option Token
  | .malformed _ token => some token
  | _ => none

end Error

namespace Delimiters

/-- The delimiters that a text names, or the error that it names none. -/
def ofText (spec : String) : Except Error Delimiters :=
  match ofText? spec with
  | some d => .ok d
  | none => .error (.invalidArgument (.delimiters spec))

end Delimiters

namespace Pragma

/-- The pragma of a name, or the error that there is none. -/
def ofName (name : String) : Except Error Pragma :=
  match ofName? name with
  | some p => .ok p
  | none => .error (.invalidArgument (.pragma name))

end Pragma

end Mustache
