import Mustache.Proofs.Pipes
import Mustache.Proofs.Run
/-!
# Mustache — templates written into one text

Templates are written into one text one after the other, each under the line of its
name (`Inline.written`). A loader that is built from the text finds under every name
the last body written for it, trimmed, and nothing under other names
(`Inline.load_written`).

Lines are what this rests on. An entry begins a line and ends one, so that the lines
of the text are those of its entries (`Text.lines_append`). Reading the line of a name
finishes the template before it, and reading a body only adds to it
(`foldl_line_entry`).
-/

namespace Mustache

/-! ## Lines of a text -/

namespace Text

/-- What follows the text begins a line. -/
def EndsLine (cs : List Char) : Prop := cs = [] ∨ cs.getLast? = some '\n'

instance (cs : List Char) : Decidable (EndsLine cs) := inferInstanceAs (Decidable (_ ∨ _))

section Lines

variable {cs l : List Char}

theorem endsLine_concat (cs : List Char) : EndsLine (cs ++ ['\n']) := .inr List.getLast?_concat

theorem EndsLine.tail {c : Char} (h : EndsLine (c :: cs)) : EndsLine cs := by
  cases cs with
  | nil => exact .inl rfl
  | cons d cs =>
    obtain h | h := h
    · cases h
    · exact .inr (by rwa [List.getLast?_cons_cons] at h)

/-- **The lines of two texts**, where the first of them ends a line. -/
theorem lines_append (h : EndsLine cs) (ds : List Char) :
    lines (cs ++ ds) = lines cs ++ lines ds := by
  induction cs with
  | nil => rfl
  | cons c r ih =>
    rw [List.cons_append, lines, lines, ih h.tail]
    by_cases hc : c = '\n'
    · rw [if_pos hc, if_pos hc, List.cons_append]
    · rw [if_neg hc, if_neg hc]
      cases hr : lines r with
      | nil =>
        -- then the other character would end the text
        have hnil : r = [] := by rw [← lines_flatten r, hr, List.flatten_nil]
        rw [hnil] at h
        obtain h | h := h
        · cases h
        · exact absurd (Option.some.inj h) hc
      | cons l ls => rfl

/-- A text without newlines is one line. -/
theorem lines_eq_singleton (hne : cs ≠ []) (h : '\n' ∉ cs) : lines cs = [cs] := by
  induction cs with
  | nil => exact absurd rfl hne
  | cons c r ih =>
    obtain ⟨hc, hr⟩ := List.ne_and_not_mem_of_not_mem_cons h
    rw [lines, if_neg (Ne.symm hc)]
    by_cases hnil : r = []
    · rw [hnil]
      rfl
    · rw [ih hnil hr]

/-- Such a text with a newline is one line as well. -/
theorem lines_concat (h : '\n' ∉ cs) : lines (cs ++ ['\n']) = [cs ++ ['\n']] := by
  induction cs with
  | nil => rfl
  | cons c r ih =>
    obtain ⟨hc, hr⟩ := List.ne_and_not_mem_of_not_mem_cons h
    rw [List.cons_append, lines, if_neg (Ne.symm hc), ih hr]

/-- A text is lines with their newlines, and what is on its last line. -/
theorem exists_lastLine (cs : List Char) :
    ∃ front last, cs = front ++ last ∧ EndsLine front ∧ '\n' ∉ last := by
  induction cs using List.reverseRecOn with
  | nil => exact ⟨[], [], rfl, .inl rfl, List.not_mem_nil⟩
  | append_singleton cs c ih =>
    by_cases hc : c = '\n'
    · exact ⟨cs ++ [c], [], (List.append_nil _).symm, hc ▸ endsLine_concat cs, List.not_mem_nil⟩
    · obtain ⟨front, last, rfl, hfront, hlast⟩ := ih
      refine ⟨front, last ++ [c], List.append_assoc _ _ _, hfront, ?_⟩
      simp [hlast, Ne.symm hc]

/-- A newline at the end of a text is added to its last line, or is a line. -/
theorem exists_of_mem_lines_concat (h : l ∈ lines (cs ++ ['\n'])) :
    l ∈ lines cs ∨ ∃ l', l = l' ++ ['\n'] ∧ (l' = [] ∨ l' ∈ lines cs) := by
  obtain ⟨front, last, rfl, hfront, hlast⟩ := exists_lastLine cs
  rw [List.append_assoc, lines_append hfront, lines_concat hlast] at h
  rw [lines_append hfront]
  rcases List.mem_append.1 h with h | h
  · exact .inl (List.mem_append_left _ h)
  · refine .inr ⟨last, List.mem_singleton.1 h, ?_⟩
    by_cases hnil : last = []
    · exact .inl hnil
    · rw [lines_eq_singleton hnil hlast]
      exact .inr (List.mem_append_right _ List.mem_cons_self)

end Lines

end Text

namespace Inline

open Text (EndsLine)

/-! ## Lines that are markers and lines that are none -/

/-- A name that a template can be written under. -/
def IsName (name : String) : Prop := name ≠ "" ∧ name.toList.all isNameChar = true

instance (name : String) : Decidable (IsName name) := inferInstanceAs (Decidable (_ ∧ _))

/-- No line of the text begins another template. -/
def Unmarked (text : String) : Prop := ∀ l ∈ Text.lines text.toList, marker? l = none

instance (text : String) : Decidable (Unmarked text) :=
  inferInstanceAs (Decidable (∀ l ∈ Text.lines text.toList, marker? l = none))

/-- The line that a template is written under. -/
def markerLine (name : String) : String := "@@ " ++ name ++ "\n"

section Markers

variable {name text : String} {l : List Char}

/-- A newline at its end has no part in what a line is. -/
theorem marker?_concat (l : List Char) : marker? (l ++ ['\n']) = marker? l := by
  have hbare : bareLine (l ++ ['\n']) = bareLine l := by
    rw [bareLine, List.reverse_append, List.reverse_singleton, List.singleton_append,
      List.dropWhile_cons_of_pos (by decide)]
    rfl
  rw [marker?, hbare]
  rfl

/-- No name has the end of a line in it. -/
theorem ne_of_isNameChar {c : Char} (h : isNameChar c = true) : c ≠ '\n' ∧ c ≠ '\r' := by
  constructor
  · rintro rfl
    exact absurd h (by decide +kernel)
  · rintro rfl
    exact absurd h (by decide +kernel)

theorem toList_markerLine (name : String) :
    (markerLine name).toList = ("@@ ".toList ++ name.toList) ++ ['\n'] := by
  simp [markerLine]

/-- The line of a name is one line. -/
theorem lines_markerLine (h : IsName name) :
    Text.lines (markerLine name).toList = [(markerLine name).toList] := by
  rw [toList_markerLine]
  refine Text.lines_concat fun hmem => ?_
  rcases List.mem_append.1 hmem with hmem | hmem
  · exact absurd hmem (by decide)
  · exact (ne_of_isNameChar (List.all_eq_true.1 h.2 _ hmem)).1 rfl

/-- **The line of a name gives that name.** -/
theorem marker?_markerLine (h : IsName name) : marker? (markerLine name).toList = some name := by
  have hne : name.toList ≠ [] := by simpa using h.1
  have hbare : bareLine ("@@ ".toList ++ name.toList) = "@@ ".toList ++ name.toList := by
    obtain ⟨front, c, hfront⟩ := (List.eq_nil_or_concat name.toList).resolve_left hne
    rw [List.concat_eq_append] at hfront
    have hc := ne_of_isNameChar (List.all_eq_true.1 h.2 c (by rw [hfront]; simp))
    rw [bareLine, hfront, ← List.append_assoc, List.reverse_append, List.reverse_singleton,
      List.singleton_append, List.dropWhile_cons_of_neg (by simpa using hc), List.reverse_cons,
      List.reverse_reverse]
  have hall : (!name.toList.isEmpty && name.toList.all isNameChar) = true := by
    rw [h.2, Bool.and_true]
    simpa using hne
  rw [toList_markerLine, marker?_concat, marker?, hbare, Text.after?_append]
  dsimp only
  rw [if_pos hall, String.ofList_toList]

/-- The line under an unmarked text begins no template either. -/
theorem Unmarked.concat (h : Unmarked text) :
    ∀ l ∈ Text.lines (text.toList ++ ['\n']), marker? l = none := by
  intro l hl
  obtain hl | ⟨l', rfl, hl'⟩ := Text.exists_of_mem_lines_concat hl
  · exact h l hl
  · rw [marker?_concat]
    rcases hl' with rfl | hl'
    · rfl
    · exact h l' hl'

end Markers

/-! ## Reading what was written -/

/-- A template and its name. -/
def entryText (e : String × String) : String := markerLine e.1 ++ e.2 ++ "\n"

/-- **Templates in one text**, behind whatever stands before them. -/
def written (preamble : String) (entries : List (String × String)) : String :=
  preamble ++ String.join (entries.map entryText)

/-- What is read back of a template. -/
def trimmed (body : String) : String := String.ofList (Text.trim body.toList)

section Entry

variable {e : String × String} {ls : List (List Char)}

/-- Lines that are no markers are added to the text being read, if there is one. -/
theorem foldl_line_of_unmarked (h : ∀ l ∈ ls, marker? l = none) (r : Reading) :
    ls.foldl Reading.line r =
      { r with current := r.current.map fun c => (c.1, c.2 ++ ls.flatten) } := by
  induction ls generalizing r with
  | nil =>
    obtain ⟨templates, current⟩ := r
    cases current <;> simp
  | cons l ls ih =>
    obtain ⟨hl, hls⟩ := List.forall_mem_cons.1 h
    rw [List.foldl_cons, ih hls, Reading.line, hl]
    obtain ⟨templates, current⟩ := r
    cases current <;> simp

theorem toList_entryText (e : String × String) :
    (entryText e).toList = (markerLine e.1).toList ++ (e.2.toList ++ ['\n']) := by
  simp [entryText]

theorem endsLine_entryText (e : String × String) : EndsLine (entryText e).toList := by
  rw [toList_entryText, ← List.append_assoc]
  exact Text.endsLine_concat _

/-- **An entry finishes the one before it** and is the one being read then. -/
theorem foldl_line_entry (hname : IsName e.1) (hbody : Unmarked e.2) (r : Reading) :
    (Text.lines (entryText e).toList).foldl Reading.line r =
      ⟨r.finish, some (e.1, e.2.toList ++ ['\n'])⟩ := by
  have hends : EndsLine (markerLine e.1).toList := by
    rw [toList_markerLine]
    exact Text.endsLine_concat _
  rw [toList_entryText, Text.lines_append hends, lines_markerLine hname, List.foldl_append,
    List.foldl_cons, List.foldl_nil, Reading.line, marker?_markerLine hname,
    foldl_line_of_unmarked hbody.concat, Text.lines_flatten]
  rfl

/-- The newline that ends an entry is trimmed away with the rest. -/
theorem finish_entry (templates : Entries String) (e : String × String) :
    (Reading.mk templates (some (e.1, e.2.toList ++ ['\n']))).finish =
      Entries.insert templates e.1 (trimmed e.2) := by
  have htrim : Text.trim (e.2.toList ++ ['\n']) = Text.trim e.2.toList :=
    Text.trim_concat_of_blank (by decide) _
  change Entries.insert templates e.1 (String.ofList (Text.trim (e.2.toList ++ ['\n']))) = _
  rw [htrim, trimmed]

end Entry

section Written

variable {entries : List (String × String)} {preamble : String}

/-- **All entries are read**, one after the other, from whatever was read before. -/
theorem finish_foldl_entries (h : ∀ e ∈ entries, IsName e.1 ∧ Unmarked e.2) (r : Reading) :
    ((Text.lines (String.join (entries.map entryText)).toList).foldl Reading.line r).finish =
      (entries.map fun e => (e.1, trimmed e.2)).foldl (fun m p => Entries.insert m p.1 p.2)
        r.finish := by
  induction entries generalizing r with
  | nil => rfl
  | cons e entries ih =>
    obtain ⟨⟨hname, hbody⟩, hentries⟩ := List.forall_mem_cons.1 h
    rw [List.map_cons, String.join_cons, String.toList_append,
      Text.lines_append (endsLine_entryText e), List.foldl_append,
      foldl_line_entry hname hbody, ih hentries, finish_entry]
    rfl

/-- **The templates of a written text** are its bodies, trimmed, in the order of their
names: a name that comes again keeps its place and takes the later body. -/
theorem templates_written (hpreamble : Unmarked preamble) (hends : EndsLine preamble.toList)
    (h : ∀ e ∈ entries, IsName e.1 ∧ Unmarked e.2) :
    templates (written preamble entries) =
      Entries.ofPairs (entries.map fun e => (e.1, trimmed e.2)) := by
  rw [templates, written, String.toList_append, Text.lines_append hends, List.foldl_append,
    foldl_line_of_unmarked hpreamble, finish_foldl_entries h]
  rfl

/-- The body that was written last under a name. -/
def lastBody? (entries : List (String × String)) (name : String) : Option String :=
  (entries.reverse.find? fun e => e.1 = name).map (·.2)

/-- **A loader reads back what was written**: under each name the last body for it,
without the white space around it, and no template under a name that none was written
for. The preamble is skipped. -/
theorem load_written (hpreamble : Unmarked preamble) (hends : EndsLine preamble.toList)
    (h : ∀ e ∈ entries, IsName e.1 ∧ Unmarked e.2) (name : String) (s : Store) :
    outcome (Loader.load (.fixed (templates (written preamble entries))) name) s =
      match lastBody? entries name with
      | some body => (.ok (.text (trimmed body)), s)
      | none => (.error (.unknownTemplate name), s) := by
  have hget : Entries.get? (templates (written preamble entries)) name =
      (lastBody? entries name).map trimmed := by
    rw [templates_written hpreamble hends h, Entries.get?_ofPairs, ← List.map_reverse,
      List.find?_map, lastBody?, Option.map_map, Option.map_map]
    rfl
  rw [Loader.load, Loader.inTable, hget]
  cases lastBody? entries name <;> rfl

end Written

/-- Lines that look like markers, a name that comes twice and a body without an end of
its line. -/
def catalogue : List (String × String) :=
  [("a.b", "first"), ("é_2", "@@\n @@ x\n@@ no name\r\n\r\n"), ("a.b", "\n second\n\n@@  third ")]

theorem load_written_of_catalogue :
    Unmarked "skipped\n" ∧ EndsLine "skipped\n".toList ∧
      (∀ e ∈ catalogue, IsName e.1 ∧ Unmarked e.2) ∧
      ∀ s,
        outcome (Loader.load (.fixed (templates (written "skipped\n" catalogue))) "a.b") s =
          (.ok (.text "second\n\n@@  third"), s) ∧
        outcome (Loader.load (.fixed (templates (written "skipped\n" catalogue))) "skipped") s =
          (.error (.unknownTemplate "skipped"), s) := by
  have hpreamble : Unmarked "skipped\n" := by decide +kernel
  have hends : EndsLine "skipped\n".toList := by decide
  have hentries : ∀ e ∈ catalogue, IsName e.1 ∧ Unmarked e.2 := by decide +kernel
  refine ⟨hpreamble, hends, hentries, fun s => ⟨?_, ?_⟩⟩
  · rw [load_written hpreamble hends hentries]
    rfl
  · rw [load_written hpreamble hends hentries]
    rfl

end Inline

end Mustache
