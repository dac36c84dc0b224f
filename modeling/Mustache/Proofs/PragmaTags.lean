import Mustache.Proofs.PragmaLines
/-!
# Mustache — pragmas of an engine and pragmas of a template

A pragma is in effect if the engine lists it or the template has a tag for
it. The two are read in different places: the parser starts with the
pragmas of the engine, and comes to the tag as the first token of all, on
line 0, where its node stays in front of everything. So the parser and the
compiler go on alike after a line that holds the tag, with the exception
that `Tree.OpensBlind` describes (`compile_tagLine`).
-/

namespace Mustache

namespace Pragma

/-- A line that puts a pragma in effect. -/
def tagLine (p : Pragma) : String := "\x7b\x7b% " ++ p.name ++ " \x7d\x7d\n"

/-- What stands between the sigil and the closing braces. -/
def inside (p : Pragma) : String := " " ++ p.name ++ " "

theorem tagLine_eq (p : Pragma) : p.tagLine = Delimiters.standard.pragmaLine p.inside := by
  cases p <;> decide +kernel

theorem trimmed_inside (p : Pragma) : trimmed p.inside = p.name := by
  cases p <;> decide +kernel

theorem cutAt?_inside (p : Pragma) :
    Text.cutAt? Delimiters.standard.closing.toList
      (p.inside.toList ++ Delimiters.standard.closing.toList) = some (p.inside.toList, []) := by
  cases p <;> decide +kernel

/-- Without pragmas the name in the tag is read as it stands. -/
theorem readName_inside (p : Pragma) :
    Tree.readName (.ofPragmas []) (.ofPragma p.inside) = .ok (.ofTag .pragma p.name 0) := by
  rw [Token.ofPragma, p.trimmed_inside]
  exact Tree.readName_plain _

/-- The pragma of an engine is in effect as that of a tag is. -/
theorem agrees_enable_name (p : Pragma) :
    (PragmaSet.ofPragmas [p]).Agrees ((PragmaSet.ofPragmas []).enable p.name) := rfl

end Pragma

/-- **A template opens blind** with a pragma of the engine. -/
def Pragma.OpensBlind (p : Pragma) (source : String) : Prop :=
  ∃ ts, Token.scan .standard source = .ok ts ∧ Tree.opensBlind (p = .blocks) true ts = true

/-- Two programs have the same code: their bodies, sections and blocks. -/
structure Program.SameCode (q r : Program) : Prop where
  body : r.body = q.body
  sections : r.sections = q.sections
  blocks : r.blocks = q.blocks

namespace Engine

variable (e : Engine)

/-- **A pragma of the engine and a pragma tag in front of the template do the
same.** Either the template compiles with neither, or it compiles with
both, and to the same code unless it opens blind. -/
theorem compile_tagLine (p : Pragma) {asked : Option Delimiters}
    (hstart : e.startingDelimiters asked = .standard) (name name' : String) {source : String}
    (hplain : ∀ ts, Token.scan .standard source = .ok ts → ∀ t ∈ ts, t.kind ≠ .pragma) :
    (∃ err err', compile { e with pragmas := [p] } name source asked = .error err ∧
      compile { e with pragmas := [] } name' (p.tagLine ++ source) asked = .error err') ∨
    ∃ q r, compile { e with pragmas := [p] } name source asked = .ok q ∧
      compile { e with pragmas := [] } name' (p.tagLine ++ source) asked = .ok r ∧
      (¬ p.OpensBlind source → q.SameCode r) := by
  have hd : (e.startingDelimiters asked).Accepted := hstart ▸ Delimiters.accepted_standard
  have hends : Text.cutAt? (e.startingDelimiters asked).closing.toList
      (p.inside.toList ++ (e.startingDelimiters asked).closing.toList) =
      some (p.inside.toList, []) := by
    rw [hstart]
    exact p.cutAt?_inside
  have hplain' : ∀ ts, Token.scan (e.startingDelimiters asked) source = .ok ts →
      ∀ t ∈ ts, t.kind ≠ .pragma := by rwa [hstart]
  have hboth := exists_compile_pragmaLine e hd hends p.readName_inside p.agrees_enable_name
    name name' hplain'
  rw [hstart, ← p.tagLine_eq] at hboth
  refine hboth.imp_right fun ⟨ts, q, r, hscan, hq, hr, hsame⟩ => ⟨q, r, hq, hr, fun hblind => ?_⟩
  have hblocks : (PragmaSet.ofPragmas [p]).has .blocks = decide (p = .blocks) := by
    cases p <;> decide
  have hsighted : Tree.opensBlind (p = .blocks) true ts = false :=
    Bool.eq_false_iff.2 fun hopens => hblind ⟨ts, hscan, hopens⟩
  rw [hsame (hblocks.symm ▸ hsighted)]
  exact ⟨rfl, rfl, rfl⟩

/-- A template that begins with a line for a set-delimiter tag, and has a
block on its second line. -/
theorem compile_tagLine_of_block :
    let e := standard .inert id 0
    let source := "\x7b\x7b=<% %>=\x7d\x7d\n<%$b%>x<%/b%>\n"
    e.startingDelimiters none = .standard ∧
      (∀ ts, Token.scan .standard source = .ok ts → ∀ t ∈ ts, t.kind ≠ .pragma) ∧
      ¬ Pragma.blocks.OpensBlind source ∧
      ∃ q r, compile { e with pragmas := [.blocks] } "page" source none = .ok q ∧
        compile { e with pragmas := [] } "page" (Pragma.blocks.tagLine ++ source) none = .ok r ∧
        q.SameCode r := by
  intro e source
  have hstart : e.startingDelimiters none = .standard := rfl
  have hscanned : (Token.scan .standard source).toOption.any (fun ts =>
      ts.all (fun t => t.kind ≠ .pragma) && !Tree.opensBlind true true ts) = true := by
    decide +kernel
  obtain ⟨ts, hscan, hts⟩ := (Option.any_eq_true _ _).1 hscanned
  have hscan := eq_ok_of_toOption hscan
  obtain ⟨hplain, hsighted⟩ := Bool.and_eq_true_iff.1 hts
  have hplain : ∀ us, Token.scan .standard source = .ok us → ∀ u ∈ us, u.kind ≠ .pragma := by
    intro us hus u hu
    cases hscan.symm.trans hus
    simpa using List.all_eq_true.1 hplain u hu
  have hblind : ¬ Pragma.blocks.OpensBlind source := by
    rintro ⟨us, hus, hopens⟩
    cases hscan.symm.trans hus
    have hopens : Tree.opensBlind true true ts = true := hopens
    rw [hopens] at hsighted
    cases hsighted
  have hcompiled : (compile { e with pragmas := [.blocks] } "page" source none).toOption.isSome =
      true := by decide +kernel
  refine ⟨hstart, hplain, hblind, ?_⟩
  rcases compile_tagLine e .blocks hstart "page" "page" hplain with
    ⟨err, -, hfails, -⟩ | ⟨q, r, hq, hr, hsame⟩
  · rw [hfails] at hcompiled
    cases hcompiled
  · exact ⟨q, r, hq, hr, hsame hblind⟩

/-- The comment is the second tag of its line, so the newline after it should
stay. It does if a tag in front of the template puts the pragma in effect,
and goes if the engine does. -/
theorem compile_tagLine_of_blind :
    let e := standard .inert id 0
    let source := "\x7b\x7b=<% %>=\x7d\x7d<%!c%>\n"
    (∀ ts, Token.scan .standard source = .ok ts → ∀ t ∈ ts, t.kind ≠ .pragma) ∧
    ¬ ((∃ err err', compile { e with pragmas := [.blocks] } "page" source none = .error err ∧
        compile { e with pragmas := [] } "page" (Pragma.blocks.tagLine ++ source) none =
          .error err') ∨
      ∃ q r, compile { e with pragmas := [.blocks] } "page" source none = .ok q ∧
        compile { e with pragmas := [] } "page" (Pragma.blocks.tagLine ++ source) none = .ok r ∧
        q.SameCode r) := by
  intro e source
  have hscanned : (Token.scan .standard source).toOption.all (fun ts =>
      ts.all fun t => t.kind ≠ .pragma) = true := by decide +kernel
  have hplain : ∀ ts, Token.scan .standard source = .ok ts → ∀ t ∈ ts, t.kind ≠ .pragma := by
    intro ts hscan t ht
    rw [hscan] at hscanned
    simpa using List.all_eq_true.1 hscanned t ht
  refine ⟨hplain, ?_⟩
  have hown : (compile { e with pragmas := [.blocks] } "page" source none).toOption.map
      (fun q => q.body.length) = some 0 := by decide +kernel
  have htagged : (compile { e with pragmas := [] } "page" (Pragma.blocks.tagLine ++ source)
      none).toOption.map (fun r => r.body.length) = some 1 := by decide +kernel
  rintro (⟨err, -, hfails, -⟩ | ⟨q, r, hq, hr, hsame⟩)
  · rw [hfails] at hown
    cases hown
  · rw [hq] at hown
    rw [hr] at htagged
    have hlength : q.body.length = 0 := Option.some.inj hown
    have hlength' : r.body.length = 1 := Option.some.inj htagged
    rw [hsame.body, hlength] at hlength'
    cases hlength'

end Engine

end Mustache
