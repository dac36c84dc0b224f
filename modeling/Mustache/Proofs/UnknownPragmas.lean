import Mustache.Proofs.PragmaLines
import Mustache.Proofs.SharedSections
/-!
# Mustache — lines of unknown pragmas

A pragma tag may name anything, and a name that is no known pragma's puts
nothing in effect. In front of a template without pragma tags a line of such
a tag leaves everything that is rendered as it is (`render_unknownPragma`),
unless the template opens blind.

The line does not go wherever else it stands. The scanner moves the tag to
line 0, so the parser looks for white space to take away there, and not on
the line that the tag stood on: the newline of that line stays
(`unknownPragma_below`).
-/

namespace Mustache

/-- A program under another name is linked to itself. -/
theorem Program.linked_rename (p : Program) (name : String) :
    p.Linked (fun _ => True) .same { p with name := name } := by
  have hself : p.Linked (fun _ => True) .same p := .refl fun _ _ _ => trivial
  obtain ⟨hstrict, hescaping, hbody, hsections, hblocks⟩ := hself
  exact ⟨hstrict, hescaping, hbody, hsections, hblocks⟩

namespace Engine

/-- The name of a program has no part in what it gives. -/
theorem runProgram_rename (e : Engine) (depth : Nat) (p : Program) (name : String) (data : Value) :
    e.runProgram depth { p with name := name } data = e.runProgram depth p data := by
  funext store
  have hlines : Keying.same.lines = true ∨ "" = "" := .inl rfl
  have hsame := (p.linked_rename name).outcome_eq e depth hlines ⟨e.contextFor data, store⟩
  exact congrArg (fun after => (after.1, after.2.store)) hsame.symm

variable {e : Engine} {asked : Option Delimiters} {inside source : String} {t : Token}

/-- **A line of an unknown pragma in front of a template is inert.** Either the
template compiles neither with it nor without, or it compiles with it and
without, and renders the same for all data from every store, unless it opens
blind. -/
theorem render_unknownPragma (hd : (e.startingDelimiters asked).Accepted)
    (hends : Text.cutAt? (e.startingDelimiters asked).closing.toList
      (inside.toList ++ (e.startingDelimiters asked).closing.toList) = some (inside.toList, []))
    (hread : Tree.readName (.ofPragmas e.pragmas) (.ofPragma inside) = .ok t)
    (hunknown : Pragma.ofName? t.name = none)
    (hplain : ∀ ts, Token.scan (e.startingDelimiters asked) source = .ok ts →
      ∀ t ∈ ts, t.kind ≠ .pragma) (name name' : String) :
    let line := (e.startingDelimiters asked).pragmaLine inside
    (∃ err err', e.compile name source asked = .error err ∧
      e.compile name' (line ++ source) asked = .error err') ∨
    ∃ ts q r, Token.scan (e.startingDelimiters asked) source = .ok ts ∧
      e.compile name source asked = .ok q ∧ e.compile name' (line ++ source) asked = .ok r ∧
      (Tree.opensBlind ((PragmaSet.ofPragmas e.pragmas).has .blocks) true ts = false →
        ∀ depth data, e.runProgram depth r data = e.runProgram depth q data) := by
  intro line
  have hboth := exists_compile_pragmaLine e hd hends hread
    (PragmaSet.agrees_enable_of_unknown hunknown _) name name' hplain
  refine hboth.imp_right fun ⟨ts, q, r, hscan, hq, hr, hsame⟩ => ?_
  refine ⟨ts, q, r, hscan, hq, hr, fun hsighted depth data => ?_⟩
  rw [hsame hsighted]
  exact e.runProgram_rename depth q name' data

/-- Between brackets, with filters: the name of the tag ends before the bar. -/
theorem render_unknownPragma_of_brackets :
    let e := { standard .inert id 0 with
      delimiters := some ⟨"[", "]"⟩, pragmas := [.filters, .blocks] }
    let source := "\n[$b]\nx[y]\n[/b]\n"
    (e.startingDelimiters none).pragmaLine " FOO | z " = "[% FOO | z ]\n" ∧
      ∃ q r, e.compile "page" source none = .ok q ∧
        e.compile "page" ((e.startingDelimiters none).pragmaLine " FOO | z " ++ source) none =
          .ok r ∧
        ∀ depth data, e.runProgram depth r data = e.runProgram depth q data := by
  intro e source
  have hnamed : (Tree.readName (.ofPragmas e.pragmas) (.ofPragma " FOO | z ")).toOption.any
      (fun t => t.name = "FOO") = true := by decide +kernel
  obtain ⟨t, hread, hname⟩ := (Option.any_eq_true _ _).1 hnamed
  have hread := eq_ok_of_toOption hread
  have hunknown : Pragma.ofName? t.name = none := by
    rw [of_decide_eq_true hname]
    decide +kernel
  have hscanned : (Token.scan (e.startingDelimiters none) source).toOption.any (fun ts =>
      ts.all (fun t => t.kind ≠ .pragma) &&
        !Tree.opensBlind ((PragmaSet.ofPragmas e.pragmas).has .blocks) true ts) = true := by
    decide +kernel
  obtain ⟨ts, hscan, hts⟩ := (Option.any_eq_true _ _).1 hscanned
  have hscan := eq_ok_of_toOption hscan
  obtain ⟨hplain, hsighted⟩ := Bool.and_eq_true_iff.1 hts
  have hplain : ∀ us, Token.scan (e.startingDelimiters none) source = .ok us →
      ∀ u ∈ us, u.kind ≠ .pragma := by
    intro us hus u hu
    cases hscan.symm.trans hus
    simpa using List.all_eq_true.1 hplain u hu
  have hcompiled : (e.compile "page" source none).toOption.isSome = true := by decide +kernel
  have haccepted : (e.startingDelimiters none).Accepted := ⟨"[ ]", by decide +kernel⟩
  refine ⟨by decide +kernel, ?_⟩
  rcases render_unknownPragma haccepted (by decide +kernel) hread hunknown hplain
    "page" "page" with ⟨err, -, hfails, -⟩ | ⟨us, q, r, hus, hq, hr, hsame⟩
  · rw [hfails] at hcompiled
    cases hcompiled
  · cases hscan.symm.trans hus
    exact ⟨q, r, hq, hr, hsame (Bool.not_eq_true' _ ▸ hsighted)⟩

/-- What a template gives without data, with the engine as it comes. -/
def written? (source : String) : Option String :=
  Program.textWith (Program.compile id) source ""

/-- A line of a tag that names no known pragma. -/
def fooLine : String := Delimiters.standard.pragmaLine " FOO "

/-- **Below the first line the line leaves its newline behind.** In front of
everything it is gone, and a second such line there brings both back. -/
theorem unknownPragma_below :
    Pragma.ofName? "FOO" = none ∧ fooLine = "\x7b\x7b% FOO \x7d\x7d\n" ∧
      written? "a\nb" = some "a\nb" ∧ written? ("a\n" ++ fooLine ++ "b") = some "a\n\nb" ∧
      written? (fooLine ++ "a\nb") = some "a\nb" ∧
      written? (fooLine ++ (fooLine ++ "a\nb")) = some "\n\na\nb" := by
  refine ⟨?_, ?_, ?_, ?_, ?_, ?_⟩ <;> decide +kernel

end Engine

end Mustache
