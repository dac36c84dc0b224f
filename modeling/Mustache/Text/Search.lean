/-!
# Mustache — finding and cutting text

Texts are lists of characters here, and places in them are counted in
UTF-8 bytes, because that is how the offsets of tags are reported. A cut
at an offset that falls inside a character does not exist.
-/

namespace Mustache

namespace Text

/-- What follows `pattern` in a text that begins with it. -/
def after? : List Char → List Char → Option (List Char)
  | [], cs => some cs
  | _ :: _, [] => none
  | p :: ps, c :: cs => if p = c then after? ps cs else none

/-- The text split around the first place where `pattern` stands: what
comes before it and what comes after. -/
def cutAt? (pattern : List Char) : List Char → Option (List Char × List Char)
  | [] => if pattern.isEmpty then some ([], []) else none
  | c :: r =>
    match after? pattern (c :: r) with
    | some after => some ([], after)
    | none => (cutAt? pattern r).map fun cut => (c :: cut.1, cut.2)

/-- Whether `pattern` stands somewhere in the text. -/
def occursIn (pattern cs : List Char) : Bool := (cutAt? pattern cs).isSome

/-- The number of bytes a text takes in UTF-8. -/
def byteLength (cs : List Char) : Nat := cs.foldl (fun n c => n + c.utf8Size) 0

/-- The text from byte `n` on, if a character starts or the text ends
there. -/
def dropBytes? : Nat → List Char → Option (List Char)
  | 0, cs => some cs
  | _ + 1, [] => none
  | n + 1, c :: r => if c.utf8Size ≤ n + 1 then dropBytes? (n + 1 - c.utf8Size) r else none

/-- The text up to byte `n`, if a character starts or the text ends
there. -/
def takeBytes? : Nat → List Char → Option (List Char)
  | 0, _ => some []
  | _ + 1, [] => none
  | n + 1, c :: r =>
    if c.utf8Size ≤ n + 1 then (takeBytes? (n + 1 - c.utf8Size) r).map (c :: ·) else none

/-- The text between two byte offsets, if both are places between
characters and in order. -/
def slice? (start stop : Nat) (cs : List Char) : Option (List Char) :=
  if start ≤ stop then (dropBytes? start cs).bind (takeBytes? (stop - start)) else none

/-- The lines of a text, each with the newline that ends it; the last
line need not have one. -/
def lines : List Char → List (List Char)
  | [] => []
  | c :: r =>
    if c = '\n' then [c] :: lines r
    else
      match lines r with
      | [] => [[c]]
      | l :: ls => (c :: l) :: ls

theorem after?_eq_some {pattern cs rest : List Char} (h : after? pattern cs = some rest) :
    cs = pattern ++ rest := by
  induction pattern generalizing cs with
  | nil => simpa [after?] using h
  | cons p ps ih =>
    cases cs with
    | nil => simp [after?] at h
    | cons c cs =>
      by_cases hpc : p = c
      · simp only [after?, if_pos hpc] at h
        simp [hpc, ih h]
      · simp [after?, hpc] at h

/-- A text that begins with a pattern goes on with what follows it. -/
@[simp] theorem after?_append (pattern rest : List Char) :
    after? pattern (pattern ++ rest) = some rest := by
  induction pattern with
  | nil => simp [after?]
  | cons p ps ih => simp [after?, ih]

/-- A cut text is put together again by the pattern it was cut at. -/
theorem cutAt?_eq_some {pattern cs before after : List Char}
    (h : cutAt? pattern cs = some (before, after)) : cs = before ++ pattern ++ after := by
  induction cs generalizing before after with
  | nil =>
    simp only [cutAt?] at h
    split at h
    · simp_all
    · simp at h
  | cons c r ih =>
    simp only [cutAt?] at h
    split at h
    · next rest hp =>
      obtain ⟨rfl, rfl⟩ := Prod.mk.inj (Option.some.inj h)
      simpa using after?_eq_some hp
    · obtain ⟨cut, hcut, heq⟩ := Option.map_eq_some_iff.1 h
      obtain ⟨rfl, rfl⟩ := Prod.mk.inj heq
      simp [ih hcut]

/-- What follows a cut is no longer than the text. -/
theorem cutAt?_length {pattern cs before after : List Char}
    (h : cutAt? pattern cs = some (before, after)) : after.length ≤ cs.length := by
  rw [cutAt?_eq_some h]
  simp only [List.length_append]
  omega

/-- The lines of a text are the text, cut. -/
theorem lines_flatten (cs : List Char) : (lines cs).flatten = cs := by
  induction cs with
  | nil => rfl
  | cons c r ih =>
    rw [lines]
    split
    · simp [ih]
    · split
      · next h => simp [h] at ih; simp [ih]
      · next l ls h => rw [h] at ih; simpa using ih

end Text

end Mustache
