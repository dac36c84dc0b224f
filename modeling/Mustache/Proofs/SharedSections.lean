import Mathlib
import Mustache.Proofs.ApartWalk
import Mustache.Proofs.Compositional
import Mustache.Proofs.DigestNumbers
import Mustache.Proofs.SectionKeys
/-!
# Mustache — sharing sections

Sections of one text under the same delimiters are compiled once. If the
tags of one text are trimmed alike, nobody can tell: the program renders as
the one in which every section is compiled by itself
(`outcome_compileApart`), whatever the data, for every engine and from every
context. With an indent it also takes that the tags stand alike on their
lines.

Both conditions are needed. A tag that shares its line with other text
keeps the white space around it, and yet runs what was compiled for a tag
on a line of its own; and of two tags on one line both begin it
(`shared_differs`).
-/

namespace Mustache

/-! ## Linked programs, run from the same point -/

/-- An engine is its own twin. -/
theorem Twins.refl (e : Engine) : Twins (fun _ => True) Eq e e where
  host := rfl
  escape := rfl
  none := trivial
  actions _ _ _ _ := .of_forall (fun _ => trivial) _
  partials name := by
    refine Matches.refl (fun found => ?_) (e.partialProgram name)
    cases found with
    | none => exact .none
    | some p => exact .some (.refl fun _ _ _ => trivial)
  lambdas text delimiters _ := Matches.refl (fun _ => .refl fun _ _ _ => trivial) _

/-- A context looks the same as itself. -/
theorem Context.Alike.refl (c : Context) : c.Alike (fun _ => True) c := by
  have hblock (b : BlockRef) : b.Alike (fun _ => True) b :=
    ⟨.same, .refl fun _ _ _ => trivial, rfl⟩
  refine ⟨rfl, rfl, List.forall₂_same.2 fun table _ => ?_⟩
  exact List.forall₂_same.2 fun o _ => ⟨rfl, hblock o.2⟩

/-- **Linked programs do the same from the same point**, and end at the same
point. -/
theorem Program.Linked.outcome_eq {ρ : Keying} {p p' : Program}
    (h : p.Linked (fun _ => True) ρ p') (e : Engine) (depth : Nat) {indent : String}
    (hlines : ρ.lines = true ∨ indent = "") (s : Render.State) :
    outcome (Render.code e depth p p.body indent) s =
      outcome (Render.code e depth p' p'.body indent) s := by
  have hmatches := Render.runnersAlike_code (Twins.refl e) depth h h.body hlines
  obtain ⟨hresult, hafter⟩ := hmatches.result_eq (s := s) (t := s) ⟨.refl _, rfl⟩
  -- Contexts that are alike need not be equal, but both runs restore theirs.
  have hcontext := Render.balanced_code e depth p p.body indent s
  have hcontext' := Render.balanced_code e depth p' p'.body indent s
  have hstore := hafter.store
  generalize outcome (Render.code e depth p p.body indent) s = x at *
  generalize outcome (Render.code e depth p' p'.body indent) s = y at *
  obtain ⟨result, context, store⟩ := x
  obtain ⟨result', context', store'⟩ := y
  cases hresult
  cases hcontext
  cases hcontext'
  cases hstore
  rfl

/-! ## Pragmas come first -/

namespace Compile

/-- The pragmas in effect after some pragma tags. -/
def pragmasAfter (pragmas : PragmaSet) (ps : List Token) : PragmaSet :=
  ps.foldl (fun set t => set.enable t.name) pragmas

section Pragmas

variable {digest : String → String} {source : String} {ps others : List Token}
variable {code : List Instr}

/-- The walk passes pragmas and files nothing. -/
theorem Walked.after_pragmas {s s' : State} (h : Walked digest source s (ps ++ others) code s')
    (hps : ∀ t ∈ ps, t.kind = .pragma) :
    Walked digest source { s with pragmas := pragmasAfter s.pragmas ps } others code s' := by
  induction ps generalizing s with
  | nil => exact h
  | cons t ps ih =>
    have hkind := hps t List.mem_cons_self
    cases h with
    | pragma _ hrest => exact ih hrest fun u hu => hps u (List.mem_cons_of_mem t hu)
    | _ => simp_all [leafCode?]

theorem run_walkApart_after_pragmas {s s' : State} (hps : ∀ t ∈ ps, t.kind = .pragma)
    (h : (walkApart digest source others).run { s with pragmas := pragmasAfter s.pragmas ps } =
      .ok (code, s')) :
    (walkApart digest source (ps ++ others)).run s = .ok (code, s') := by
  induction ps generalizing s with
  | nil => exact h
  | cons t ps ih =>
    have hown : (walkApartNode digest source t).run s =
        .ok ([], { s with pragmas := s.pragmas.enable t.name }) :=
      run_walkApartNode_pragma (hps t List.mem_cons_self)
    exact run_walkApart_cons hown (ih (fun u hu => hps u (List.mem_cons_of_mem t hu)) h)

theorem visited_append_pragmas (hps : ∀ t ∈ ps, t.kind = .pragma) :
    visited false (ps ++ others) = ps ++ visited false others := by
  induction ps with
  | nil => rfl
  | cons t ps ih =>
    rw [List.cons_append, visited_cons, visitedNode_of_pragma (hps t List.mem_cons_self),
      ih fun u hu => hps u (List.mem_cons_of_mem t hu)]
    rfl

/-- A line starts after pragmas. -/
theorem startsAfter_pragmas (hps : ∀ t ∈ ps, t.kind = .pragma) : startsAfter true ps = true := by
  refine startsAfter_of_forall fun t ht => ?_
  rw [startsAfterLeaf, hps t ht]

end Pragmas

end Compile

/-! ## Sharing is transparent -/

/-- The texts that are digested when a template is compiled: those of its
sections, and those of the code that its overrides may have. -/
def Tree.digestedTexts (digest : String → String) (source : String) (tree : Tree) : Set String :=
  tree.sectionTexts source ∪
    Compile.overrideTexts digest source (Compile.visited false tree.nodes)

namespace Program

open Compile

section Sharing

variable {digest names : String → String} {delimiters : Delimiters} {defaults : List Pragma}
variable {settings : CompileSettings} {name source : String} {ts : List Token} {tree : Tree}
variable {p : Program}

/-- How the texts of variables are escaped under some settings. -/
def escapingOf (settings : CompileSettings) : Escaping :=
  if settings.customEscape then .custom else .html settings.entityFlags

/-- The pragmas that a template has in effect where its other nodes begin. -/
def pragmasOf (defaults : List Pragma) (ps : List Token) : PragmaSet :=
  pragmasAfter (PragmaSet.ofPragmas defaults) ps

section Splitting

variable {nodes ps others : List Token} {lines : Bool}

/-- Before the first node that is no pragma a line starts. -/
theorem flagAfter_pragmas (hps : ∀ t ∈ ps, t.kind = .pragma) :
    ∀ b ∈ flagAfter lines ps, true = b := by
  intro b hb
  unfold flagAfter at hb
  split at hb
  · rw [startsAfter_pragmas hps] at hb
    exact Option.some.inj hb
  · cases hb

/-- **The compiler gives code of the nodes** behind the pragmas, if sharing
does no harm. -/
theorem codeOf_compile (hnodes : nodes = ps ++ others) (hps : ∀ t ∈ ps, t.kind = .pragma)
    (hplain : Token.EverywhereIn Token.IsPlain others)
    (hsafe : SharesSafely digest source lines nodes)
    (hp : compile digest defaults settings name source nodes = .ok p) :
    CodeOf p.tables (pragmasOf defaults ps) source (flagAfter lines ps) others p.body ∧
      p.strictCallables = settings.strictCallables ∧ p.escaping = escapingOf settings := by
  subst hnodes
  obtain ⟨body, s', hwalked, rfl⟩ := Program.exists_walked hp
  replace hwalked := hwalked.after_pragmas hps
  -- The pragmas are passed, and nothing is filed so far.
  have hreached : Reached digest (pragmasOf defaults ps) source lines
      ⟨pragmasOf defaults ps, [], [], true⟩ ps :=
    ⟨rfl, flagAfter_pragmas hps, nofun, nofun, nofun⟩
  have hwhole : ps ++ visited false others <+: visited false (ps ++ others) :=
    ⟨[], by rw [List.append_nil, visited_append_pragmas hps]⟩
  obtain ⟨-, -, hcode⟩ := hwalked.codeOf hsafe hplain hwhole hreached
  exact ⟨hcode, rfl, rfl⟩

/-- **The other compiler succeeds**, and gives code of the nodes, wherever
there is such code. -/
theorem exists_compileApart (hnames : Function.Injective names) (hnodes : nodes = ps ++ others)
    (hps : ∀ t ∈ ps, t.kind = .pragma) {T : Tables} {code : List Instr}
    (hcode : CodeOf T (pragmasOf defaults ps) source (flagAfter lines ps) others code) :
    ∃ p', compileApart names defaults settings name source nodes = .ok p' ∧
      CodeOf p'.tables (pragmasOf defaults ps) source (flagAfter lines ps) others p'.body ∧
      p'.strictCallables = settings.strictCallables ∧ p'.escaping = escapingOf settings := by
  subst hnodes
  have hstands : StandsApart names (pragmasOf defaults ps)
      ⟨pragmasOf defaults ps, [], [], true⟩ (flagAfter lines ps) :=
    ⟨rfl, flagAfter_pragmas hps, nofun, nofun⟩
  obtain ⟨body, s', hrun, -, -, hbody⟩ := hcode.walkApart hnames hstands
  have hrun : (walkApart names source (ps ++ others)).run
      ⟨PragmaSet.ofPragmas defaults, [], [], true⟩ = .ok (body, s') :=
    run_walkApart_after_pragmas hps hrun
  refine ⟨⟨name, settings.strictCallables, escapingOf settings, body, s'.sections, s'.blocks⟩,
    ?_, hbody, rfl, rfl⟩
  unfold compileApart
  rw [hrun]
  rfl

end Splitting

/-- **Both compilers succeed, with linked programs**: the flags of the
instructions are the same if lines count. -/
theorem linked_compileApart (hfree : Set.InjOn digest (tree.digestedTexts digest source))
    (hnames : Function.Injective names) (hdelimiters : delimiters.Accepted)
    (hscan : Token.scan delimiters source = .ok ts) (htree : Tree.ofTokens defaults ts = .ok tree) {lines : Bool}
    (htrimmed : TrimmedAlike source tree.nodes)
    (hlined : lines = true → LinedAlike source tree.nodes)
    (hp : compile digest defaults settings name source tree.nodes = .ok p) :
    ∃ p' ρ, compileApart names defaults settings name source tree.nodes = .ok p' ∧
      ρ.lines = lines ∧ p.Linked (fun _ => True) ρ p' := by
  obtain ⟨ps, others, hnodes, hps, hplain⟩ := Tree.pragmas_first hscan htree
  have hkeys : KeysTell digest source tree.nodes :=
    Tree.keysTell (Tree.accepted_nodes hscan htree hdelimiters) (hfree.mono Set.subset_union_left)
  have hsafe : SharesSafely digest source lines tree.nodes :=
    ⟨hfree.mono Set.subset_union_right, hkeys, htrimmed, hlined⟩
  obtain ⟨hcode, hstrict, hescaping⟩ := codeOf_compile hnodes hps hplain hsafe hp
  obtain ⟨p', happart, hcode', hstrict', hescaping'⟩ :=
    exists_compileApart hnames hnodes hps hcode
  have hcounts : Counts lines (flagAfter lines ps) := by
    intro hlines
    rw [flagAfter, if_pos hlines]
    rfl
  exact ⟨p', _, happart, rfl, linked_of_codeOf (hstrict'.trans hstrict.symm)
    (hescaping'.trans hescaping.symm) hcode hcode' hcounts⟩

/-- **Sharing sections is transparent** where tags of one text are trimmed
alike: the program renders as the one in which every section tag is
compiled by itself, from every context and against every store, with the
same result and the same store left. An indent is written alike if the tags
also stand alike on their lines. The digests of the texts of the template
must not collide, and the other program may file overrides under any names
that tell their code apart. -/
theorem outcome_compileApart (hfree : Set.InjOn digest (tree.digestedTexts digest source))
    (hnames : Function.Injective names) (hdelimiters : delimiters.Accepted)
    (hscan : Token.scan delimiters source = .ok ts)
    (htree : Tree.ofTokens defaults ts = .ok tree) (htrimmed : TrimmedAlike source tree.nodes)
    (hp : compile digest defaults settings name source tree.nodes = .ok p) :
    ∃ p', compileApart names defaults settings name source tree.nodes = .ok p' ∧
      ∀ (e : Engine) (depth : Nat) (indent : String) (s : Render.State),
        indent = "" ∨ LinedAlike source tree.nodes →
        outcome (Render.code e depth p p.body indent) s =
          outcome (Render.code e depth p' p'.body indent) s := by
  by_cases hlined : LinedAlike source tree.nodes
  · obtain ⟨p', ρ, happart, hlines, hlinked⟩ :=
      linked_compileApart hfree hnames hdelimiters hscan htree htrimmed (fun _ => hlined) hp
    exact ⟨p', happart, fun e depth indent s _ => hlinked.outcome_eq e depth (.inl hlines) s⟩
  · have hopen : false = true → LinedAlike source tree.nodes := nofun
    obtain ⟨p', ρ, happart, -, hlinked⟩ :=
      linked_compileApart hfree hnames hdelimiters hscan htree htrimmed hopen hp
    refine ⟨p', happart, fun e depth indent s hindent => ?_⟩
    exact hlinked.outcome_eq e depth (.inr (hindent.resolve_right hlined)) s

end Sharing

section Twice

/-- A section that stands twice, both times on lines of its own. -/
def twice : String :=
  "\x7b\x7b#a\x7d\x7d\nx\n\x7b\x7b/a\x7d\x7d\n\x7b\x7b#a\x7d\x7d\nx\n\x7b\x7b/a\x7d\x7d\n"

/-- One of its tags. -/
def twiceTag (kind : TokenKind) (line offset : Nat) : Token :=
  { Token.ofTag kind "a" line with delimiters? := some .standard, offset? := some offset }

def twiceTokens : List Token :=
  [twiceTag .sectionTag 0 6, .ofText "\n" 0, .ofText "x\n" 1, twiceTag .closingTag 2 9,
    .ofText "\n" 2, twiceTag .sectionTag 3 22, .ofText "\n" 3, .ofText "x\n" 4,
    twiceTag .closingTag 5 25, .ofText "\n" 5]

def twiceTree : Tree :=
  ⟨[{ twiceTag .sectionTag 0 6 with stop? := some 9, nodes? := some [.ofText "x\n" 1] },
    { twiceTag .sectionTag 3 22 with stop? := some 25, nodes? := some [.ofText "x\n" 4] }], ⟨[]⟩⟩

theorem scan_twice : Token.scan .standard twice = .ok twiceTokens := by cbv

theorem ofTokens_twice : Tree.ofTokens [] twiceTokens = .ok twiceTree := by cbv

theorem visited_twice : visited false twiceTree.nodes =
    [{ twiceTag .sectionTag 0 6 with stop? := some 9, nodes? := some [.ofText "x\n" 1] },
      .ofText "x\n" 1,
      { twiceTag .sectionTag 3 22 with stop? := some 25, nodes? := some [.ofText "x\n" 4] },
      .ofText "x\n" 4] := by cbv

theorem trimmedAlike_twice : TrimmedAlike twice twiceTree.nodes := by
  have hinside : ∀ t ∈ visited false twiceTree.nodes, t.kind = .sectionTag →
      placelessAll twice t.nodes = [.ofText "x\n" 0] := by
    rw [visited_twice]
    simp only [List.forall_mem_cons]
    exact ⟨fun _ => rfl, nofun, fun _ => rfl, nofun, nofun⟩
  intro before t between u after hplaces hsame
  rw [hinside t (by rw [hplaces]; simp) hsame.kind, hinside u (by rw [hplaces]; simp) hsame.kind']

theorem linedAlike_twice : LinedAlike twice twiceTree.nodes := by
  refine linedAlike_of_forall ?_
  rw [visited_twice]
  decide

/-- Only one text is digested. -/
theorem injOn_twice (digest : String → String) :
    Set.InjOn digest (twiceTree.digestedTexts digest twice) := by
  refine (Set.injOn_singleton digest (sectionText none "\nx\n")).mono ?_
  rintro text (htext | ⟨t, ht, hkind, -⟩)
  · have hlisted : text ∈ twiceTree.visitedTexts twice :=
      (Tree.mem_sectionTexts_iff (Tree.grown_of_scan scan_twice ofTokens_twice)).1 htext
    have hone : ∀ text ∈ twiceTree.visitedTexts twice, text = sectionText none "\nx\n" := by
      decide +kernel
    exact hone text hlisted
  · have hnone : ∀ t ∈ visited false twiceTree.nodes, t.kind ≠ .blockArg := by
      rw [visited_twice]
      decide
    exact absurd hkind (hnone t ht)

def plainSettings : CompileSettings := ⟨false, true, Entities.standard⟩

/-- What is filed once for both tags does what is filed for each. -/
theorem outcome_compileApart_of_twice :
    ∃ p p', Set.InjOn Sha256.ofText (twiceTree.digestedTexts Sha256.ofText twice) ∧
      Function.Injective (id : String → String) ∧ Delimiters.standard.Accepted ∧
      Token.scan .standard twice = .ok twiceTokens ∧
      Tree.ofTokens [] twiceTokens = .ok twiceTree ∧ TrimmedAlike twice twiceTree.nodes ∧
      compile Sha256.ofText [] plainSettings "" twice twiceTree.nodes = .ok p ∧
      p.sections.length = 1 ∧
      compileApart id [] plainSettings "" twice twiceTree.nodes = .ok p' ∧
      p'.sections.length = 2 ∧
      ∀ (e : Engine) (depth : Nat) (indent : String) (s : Render.State),
        outcome (Render.code e depth p p.body indent) s =
          outcome (Render.code e depth p' p'.body indent) s := by
  have hfree := injOn_twice Sha256.ofText
  have hnames : Function.Injective (id : String → String) := Function.injective_id
  have hfiled : (compile Sha256.ofText [] plainSettings "" twice twiceTree.nodes).toOption.map
      (·.sections.length) = some 1 := by
    rw [Sha256.ofText_eq_numbers]
    decide +kernel
  obtain ⟨p, hp, hone⟩ := exists_of_toOption_map hfiled
  obtain ⟨p', hp', hsame⟩ := outcome_compileApart hfree hnames Delimiters.accepted_standard
    scan_twice ofTokens_twice trimmedAlike_twice hp
  have htwo : (compileApart id [] plainSettings "" twice twiceTree.nodes).toOption.map
      (·.sections.length) = some 2 := by decide +kernel
  rw [hp'] at htwo
  refine ⟨p, p', hfree, hnames, Delimiters.accepted_standard, scan_twice, ofTokens_twice,
    trimmedAlike_twice, hp, hone, hp', Option.some.inj htwo, fun e depth indent s => ?_⟩
  exact hsame e depth indent s (.inr linedAlike_twice)

end Twice

/-! ## Where tags are trimmed otherwise -/

section Differing

/-- An engine as it comes. -/
def plainEngine : Engine :=
  { (EngineOptions.standard .inert Sha256.ofText).toEngineSettings with
    delimiters := none, pragmas := [], memo := 0 }

/-- What a template gives under an indent with a compiler, if a is one. -/
def textWith (compiler : List Pragma → CompileSettings → String → String → List Token →
    Except Error Program) (source indent : String) : Option String := do
  let ts ← (Token.scan .standard source).toOption
  let tree ← (Tree.ofTokens [] ts).toOption
  let p ← (compiler [] plainEngine.compileSettings "" source tree.nodes).toOption
  let s : Render.State := ⟨plainEngine.contextFor (.map [("a", .int 1)]), .ofFiles (.empty "" [])⟩
  (outcome (Render.code plainEngine 8 p p.body indent) s).1.toOption

/-- A section that stands twice, first on lines of its own and then next to
a text. -/
def besideText : String :=
  "\x7b\x7b#a\x7d\x7d\nx\n\x7b\x7b/a\x7d\x7d\ny\x7b\x7b#a\x7d\x7d\nx\n\x7b\x7b/a\x7d\x7d\n"

/-- A section that stands twice on one line. -/
def onOneLine : String :=
  "\x7b\x7b#a\x7d\x7dx\x7b\x7b/a\x7d\x7d\x7b\x7b#a\x7d\x7dx\x7b\x7b/a\x7d\x7d"

/-- **Sharing shows** where the second tag stands next to a text and is
trimmed otherwise, and under an indent where both tags stand on one line. -/
theorem shared_differs :
    textWith (compile Sha256.ofText) besideText "" = some "x\nyx\n" ∧
      textWith (compileApart Sha256.ofText) besideText "" = some "x\ny\nx\n" ∧
      textWith (compile Sha256.ofText) onOneLine "  " = some "  x  x" ∧
      textWith (compileApart Sha256.ofText) onOneLine "  " = some "  xx" := by
  refine ⟨?_, ?_, ?_, ?_⟩ <;> decide +kernel

end Differing

end Program

end Mustache
