import Mustache.Proofs.Compiles
import Mustache.Proofs.DataAsText
import Mustache.Proofs.Refiltered
import Mustache.Proofs.Run
/-!
# Mustache — filter pipelines

A value goes through the filters of its tag from left to right: each is looked
up when its turn comes and called with what the one before it gave
(`Render.pipeline`). A pipeline fails at the first filter that fails, and with
its error (`Render.pipeline_eq_error_iff`).

Variables, sections and inverted sections with a pipe have code that looks up the
name and the filters (`Compile.exists_piped`), and that goes on with what the
pipeline gives (`Render.composes_piped`). `Tree.filters_compose` puts this
together with what the parser makes of a pipe.
-/

namespace Mustache

/-! ## Pipelines -/

namespace Render

section Stages

variable (e : Engine) (strict : Bool) (c : Context)

/-- **A stage of a pipeline**: the filter is looked up, and the procedure that it
stands for is called with the value. -/
def stage (value : Value) (f : Filter) : Except Error Value := do
  match (← c.resolve e.host f.lookup).callable? e.host strict with
  | none => throw (.unknownFilter f.name)
  | some ref => e.host.call ref [value]

/-- **A pipeline**: what a stage gives goes into the next one, from left to right. -/
def pipeline (value : Value) (fs : List Filter) : Except Error Value :=
  fs.foldlM (stage e strict c) value

/-- The filter stands for something that is no procedure. -/
def Unknown (f : Filter) : Prop :=
  ∃ found, c.resolve e.host f.lookup = .ok found ∧ found.callable? e.host strict = none

/-- **A stage breaks**: the filter cannot be looked up, or the procedure that it
stands for fails. -/
inductive Breaks (value : Value) (f : Filter) : Error → Prop
  | lookup {err : Error} : c.resolve e.host f.lookup = .error err → Breaks value f err
  | call {found : Value} {ref : Nat} {err : Error} :
      c.resolve e.host f.lookup = .ok found → found.callable? e.host strict = some ref →
      e.host.call ref [value] = .error err → Breaks value f err

/-- One of the stages breaks, those before it having given their values. -/
def BreaksIn (value : Value) (fs : List Filter) (err : Error) : Prop :=
  ∃ front f rest given, fs = front ++ f :: rest ∧ pipeline e strict c value front = .ok given ∧
    Breaks e strict c given f err

variable {e strict c} {value found : Value} {f : Filter} {fs before after : List Filter}
variable {err : Error}

theorem stage_eq_of_error (h : c.resolve e.host f.lookup = .error err) :
    stage e strict c value f = .error err := by
  rw [stage, h]
  rfl

theorem stage_eq_of_unknown (h : Unknown e strict c f) :
    stage e strict c value f = .error (.unknownFilter f.name) := by
  obtain ⟨found, hlookup, hcallable⟩ := h
  rw [stage, hlookup]
  change (match found.callable? e.host strict with | none => _ | some ref => _) = _
  rw [hcallable]
  rfl

theorem stage_eq_call {ref : Nat} (hlookup : c.resolve e.host f.lookup = .ok found)
    (hcallable : found.callable? e.host strict = some ref) :
    stage e strict c value f = e.host.call ref [value] := by
  rw [stage, hlookup]
  change (match found.callable? e.host strict with | none => _ | some ref => _) = _
  rw [hcallable]

/-- A stage fails if it breaks, or if its filter stands for no procedure. -/
theorem stage_eq_error_iff :
    stage e strict c value f = .error err ↔
      Breaks e strict c value f err ∨ Unknown e strict c f ∧ err = .unknownFilter f.name := by
  constructor
  · intro h
    cases hlookup : c.resolve e.host f.lookup with
    | error err' =>
      rw [stage_eq_of_error hlookup] at h
      cases h
      exact .inl (.lookup hlookup)
    | ok found =>
      cases hcallable : found.callable? e.host strict with
      | none =>
        have hunknown : Unknown e strict c f := ⟨found, hlookup, hcallable⟩
        rw [stage_eq_of_unknown hunknown] at h
        cases h
        exact .inr ⟨hunknown, rfl⟩
      | some ref =>
        rw [stage_eq_call hlookup hcallable] at h
        exact .inl (.call hlookup hcallable h)
  · rintro (hbreaks | ⟨hunknown, rfl⟩)
    · cases hbreaks with
      | lookup h => exact stage_eq_of_error h
      | call hlookup hcallable h => exact (stage_eq_call hlookup hcallable).trans h
    · exact stage_eq_of_unknown hunknown

theorem pipeline_cons :
    pipeline e strict c value (f :: fs) =
      stage e strict c value f >>= fun given => pipeline e strict c given fs :=
  List.foldlM_cons

theorem pipeline_append :
    pipeline e strict c value (before ++ after) =
      pipeline e strict c value before >>= fun given => pipeline e strict c given after :=
  List.foldlM_append

/-- **A pipeline fails at its first stage that fails**, and with its error. -/
theorem pipeline_eq_error_iff :
    pipeline e strict c value fs = .error err ↔
      ∃ before f after given, fs = before ++ f :: after ∧
        pipeline e strict c value before = .ok given ∧ stage e strict c given f = .error err := by
  constructor
  · intro h
    induction fs generalizing value with
    | nil => cases h
    | cons f fs ih =>
      rw [pipeline_cons] at h
      cases hstage : stage e strict c value f with
      | error err' =>
        rw [hstage] at h
        cases h
        exact ⟨[], f, fs, value, rfl, rfl, hstage⟩
      | ok given =>
        rw [hstage] at h
        obtain ⟨before, g, after, given', rfl, hbefore, hfails⟩ := ih h
        refine ⟨f :: before, g, after, given', rfl, ?_, hfails⟩
        rw [pipeline_cons, hstage]
        exact hbefore
  · rintro ⟨before, f, after, given, rfl, hbefore, hfails⟩
    rw [pipeline_append, hbefore]
    change pipeline e strict c given (f :: after) = _
    rw [pipeline_cons, hfails]
    rfl

/-- **The first filter that stands for no procedure** is reported, unless a stage
before it breaks. -/
theorem pipeline_unknown (hunknown : Unknown e strict c f)
    (hfirst : ∀ g ∈ before, ¬ Unknown e strict c g) :
    (∃ given, pipeline e strict c value before = .ok given ∧
        pipeline e strict c value (before ++ f :: after) = .error (.unknownFilter f.name)) ∨
      ∃ err, BreaksIn e strict c value before err ∧
        pipeline e strict c value (before ++ f :: after) = .error err := by
  cases hbefore : pipeline e strict c value before with
  | ok given =>
    exact .inl ⟨given, rfl, pipeline_eq_error_iff.2
      ⟨before, f, after, given, rfl, hbefore, stage_eq_of_unknown hunknown⟩⟩
  | error err =>
    obtain ⟨front, g, rest, given, rfl, hfront, hfails⟩ := pipeline_eq_error_iff.1 hbefore
    have hbreaks : Breaks e strict c given g err :=
      (stage_eq_error_iff.1 hfails).resolve_right fun h => hfirst g (by simp) h.1
    refine .inr ⟨err, ⟨front, g, rest, given, rfl, hfront, hbreaks⟩, ?_⟩
    rw [List.append_assoc]
    exact pipeline_eq_error_iff.2 ⟨front, g, rest ++ f :: after, given, rfl, hfront, hfails⟩

end Stages

end Render

/-! ## Tags with a pipe -/

/-- **An instruction with a pipe**, of the kind of its tag: the value that it looks
up goes through the filters. -/
inductive Instr.Piped (lookup : Lookup) (filters : List Filter) : TokenKind → Instr → Prop
  | interpolate (indented : Bool) :
      Piped lookup filters .escaped (.interpolate lookup filters true indented)
  | enter (key : String) : Piped lookup filters .sectionTag (.enter lookup filters key)
  | inverted (body : List Instr) : Piped lookup filters .invertedTag (.inverted lookup filters body)

namespace Render

section Tags

variable {e : Engine} {again : Runner} {p : Program} {indent : String} {strict : Bool}

/-- The renderer puts a value through the pipeline, and works on nothing. -/
theorem outcome_applyFilters (value : Value) (fs : List Filter) (s : State) :
    outcome (applyFilters e strict value fs) s =
      ((pipeline e strict s.context value fs).mapError .failed, s) := by
  induction fs generalizing value with
  | nil => rfl
  | cons f fs ih =>
    rw [applyFilters, outcome_bind, outcome_resolve, pipeline_cons]
    cases hlookup : s.context.resolve e.host f.lookup with
    | error err =>
      rw [stage_eq_of_error hlookup]
      rfl
    | ok found =>
      change outcome (match found.callable? e.host strict with | none => _ | some ref => _) s = _
      cases hcallable : found.callable? e.host strict with
      | none =>
        rw [stage_eq_of_unknown ⟨found, hlookup, hcallable⟩]
        rfl
      | some ref =>
        rw [stage_eq_call hlookup hcallable]
        dsimp only
        rw [outcome_bind, outcome_ofExcept]
        cases e.host.call ref [value] with
        | error err => rfl
        | ok given => exact ih given

/-- What an instruction does with the value that its pipeline gives: a variable
writes the text of it, a section runs what is filed for it, and an inverted
section runs its body if the value is empty. -/
def withValue (e : Engine) (again : Runner) (p : Program) (indent : String) (value : Value) :
    Instr → Render String
  | .interpolate _ _ escape indented =>
    return (if indented then indent else "") ++
      (if escape then escaped e p (value.text e.host) else value.text e.host)
  | .enter _ _ key =>
    match Entries.get? p.sections key with
    | some s => sectionText e again p s value indent
    | none => return ""
  | .inverted _ _ body => if value.isEmpty then instrs e again p indent body else return ""
  | _ => return ""

/-- With a value that is no procedure each instruction with a pipe puts it through
its filters, and goes on with what they give. -/
theorem outcome_piped {lookup : Lookup} {filters : List Filter} {kind : TokenKind} {i : Instr}
    (hi : i.Piped lookup filters kind) {r : State} {value : Value}
    (hvalue : r.context.resolve e.host lookup = .ok value)
    (hplain : value.callable? e.host p.strictCallables = none) :
    outcome (instr e again p indent i) r =
      andThen ((pipeline e p.strictCallables r.context value filters).mapError .failed, r)
        fun given => outcome (withValue e again p indent given i) := by
  have hfiltered : outcome (filtered e p.strictCallables lookup filters) r =
      ((pipeline e p.strictCallables r.context value filters).mapError .failed, r) := by
    rw [filtered, outcome_bind, outcome_resolve, hvalue]
    exact outcome_applyFilters value filters r
  cases hi with
  | interpolate indented =>
    -- what is no procedure is not rendered as a template before
    have hsettled : settle e again p.strictCallables value = pure value := by
      rw [settle, hplain]
    rw [instr, outcome_bind, outcome_resolve, hvalue]
    change outcome (settle e again p.strictCallables value >>= _) r = _
    rw [hsettled, pure_bind, outcome_bind, outcome_applyFilters]
    rfl
  | enter key =>
    rw [instr_enter, outcome_bind, hfiltered]
    rfl
  | inverted body =>
    rw [instr_inverted, outcome_bind, hfiltered]
    rfl

/-- **An instruction composes its filters** over a value: it goes on with what the
pipeline gives, and fails as the pipeline does. The first filter that stands for
no procedure is the one that is reported, unless a stage before it breaks. -/
structure Composes (e : Engine) (again : Runner) (p : Program) (indent : String) (r : State)
    (value : Value) (filters : List Filter) (i : Instr) : Prop where
  given : ∀ given, pipeline e p.strictCallables r.context value filters = .ok given →
    outcome (instr e again p indent i) r = outcome (withValue e again p indent given i) r
  fails : ∀ err, pipeline e p.strictCallables r.context value filters = .error err →
    outcome (instr e again p indent i) r = (.error (.failed err), r)
  unknown : ∀ before f after, filters = before ++ f :: after →
    Unknown e p.strictCallables r.context f →
    (∀ g ∈ before, ¬ Unknown e p.strictCallables r.context g) →
    (∃ given, pipeline e p.strictCallables r.context value before = .ok given ∧
        outcome (instr e again p indent i) r = (.error (.failed (.unknownFilter f.name)), r)) ∨
      ∃ err, BreaksIn e p.strictCallables r.context value before err ∧
        outcome (instr e again p indent i) r = (.error (.failed err), r)

/-- With a value that is no procedure each instruction with a pipe composes its
filters. -/
theorem composes_piped {lookup : Lookup} {filters : List Filter} {kind : TokenKind} {i : Instr}
    (hi : i.Piped lookup filters kind) {r : State} {value : Value}
    (hvalue : r.context.resolve e.host lookup = .ok value)
    (hplain : value.callable? e.host p.strictCallables = none) :
    Composes e again p indent r value filters i := by
  have hrun : outcome (instr e again p indent i) r =
      andThen ((pipeline e p.strictCallables r.context value filters).mapError .failed, r)
        fun given => outcome (withValue e again p indent given i) :=
    outcome_piped hi hvalue hplain
  have hfails (err : Error)
      (herr : pipeline e p.strictCallables r.context value filters = .error err) :
      outcome (instr e again p indent i) r = (.error (.failed err), r) := by
    rw [hrun, herr]
    rfl
  refine ⟨fun given hgiven => ?_, hfails, ?_⟩
  · rw [hrun, hgiven]
    rfl
  · rintro before f after rfl hunknown hfirst
    rcases pipeline_unknown hunknown hfirst with ⟨given, hgiven, herr⟩ | ⟨err, hbreaks, herr⟩
    · exact .inl ⟨given, hgiven, hfails _ herr⟩
    · exact .inr ⟨err, hbreaks, hfails err herr⟩

end Tags

end Render

/-! ## The code of a tag -/

namespace Compile

open Token (EverywhereIn IsPlain)

variable {digest : String → String} {source : String}

mutual

/-- Only pragmas change which ones are in effect. -/
theorem Walked.pragmas_eq : ∀ {s s' : State} {ts : List Token} {code : List Instr},
    Walked digest source s ts code s' → EverywhereIn IsPlain ts → s'.pragmas = s.pragmas
  | _, _, _, _, .nil, _ => rfl
  | _, _, _, _, .pragma hkind _, hts => absurd hkind hts.1.self
  | _, _, _, _, .leaf _ hrest, hts => hrest.pragmas_eq hts.2
  | _, _, _, _, .newSection _ _ hbody hrest, hts =>
    (hrest.pragmas_eq hts.2).trans (hbody.pragmas_eq hts.1.nodes)
  | _, _, _, _, .knownSection _ _ hrest, hts => hrest.pragmas_eq hts.2
  | _, _, _, _, .inverted _ hbody hrest, hts =>
    (hrest.pragmas_eq hts.2).trans (hbody.pragmas_eq hts.1.nodes)
  | _, _, _, _, .extend _ hos hrest, hts =>
    (hrest.pragmas_eq hts.2).trans (hos.pragmas_eq hts.1.nodes)
  | _, _, _, _, .block _ hbody hrest, hts =>
    (hrest.pragmas_eq hts.2).trans (hbody.pragmas_eq hts.1.nodes)

theorem WalkedOverrides.pragmas_eq :
    ∀ {s s' : State} {ts : List Token} {os : List (String × String)},
      WalkedOverrides digest source s ts os s' → EverywhereIn IsPlain ts → s'.pragmas = s.pragmas
  | _, _, _, _, .nil, _ => rfl
  | _, _, _, _, .skip _ hrest, hts => hrest.pragmas_eq hts.2
  | _, _, _, _, .override _ hbody hrest, hts =>
    (hrest.pragmas_eq hts.2).trans (hbody.pragmas_eq hts.1.nodes)

end

/-- **The code of a tag with a pipe** is one instruction that looks up its name and
its filters. -/
theorem exists_piped {t : Token} (hkind : t.kind ∈ [.escaped, .sectionTag, .invertedTag])
    (hwalk : Succeeds (walkNode digest source t)) (hinside : EverywhereIn IsPlain t.nodes)
    (s : State) :
    ∃ i s', (walkNode digest source t).run s = .ok ([i], s') ∧
      i.Piped (lookupOf s.pragmas t.name) (filtersOf s.pragmas t.filters) t.kind := by
  obtain ⟨code, s', hrun⟩ := hwalk s
  have hwalked := walkedNode_of_walkNode t hrun [] [] s' .nil
  generalize hcode : code ++ [] = all at hwalked
  rw [List.append_nil] at hcode
  subst hcode
  simp only [List.mem_cons, List.not_mem_nil, or_false] at hkind
  rcases hkind with hkind | hkind | hkind <;> rw [hkind]
  · have hleaf : leafCode? s.pragmas s.startsLine t = some [.interpolate (lookupOf s.pragmas t.name)
        (filtersOf s.pragmas t.filters) true s.startsLine] := by
      rw [leafCode?, hkind]
    obtain ⟨rest, hrest, rfl⟩ := hwalked.of_leaf hleaf
    cases hrest
    exact ⟨_, _, hrun, .interpolate _⟩
  · rcases hwalked.of_section hkind with
      ⟨-, body, s₁, rest, hbody, hrest, rfl⟩ | ⟨-, rest, hrest, rfl⟩
    · cases hrest
      rw [← hbody.pragmas_eq hinside]
      exact ⟨_, _, hrun, .enter _⟩
    · cases hrest
      exact ⟨_, _, hrun, .enter _⟩
  · obtain ⟨body, s₁, rest, -, hrest, rfl⟩ := hwalked.of_inverted hkind
    cases hrest
    exact ⟨_, _, hrun, .inverted _⟩

end Compile

namespace Tree

open Compile (filtersOf lookupOf walkNode)
open Render (Composes Runner)
open Scan (Cursor pipeKinds Reads)
open Token (Within)

/-- **Filters compose from left to right.** Where the pragma is in effect, a tag
with a pipe has a node with its name and its filters, and the code of that node
puts the value of the name through them. The closing tag of a section may have
the same filters, others or none. -/
theorem filters_compose {delimiters : Delimiters} (hd : delimiters.Accepted) {source : String}
    {pragmas : List Pragma} {ts before : List Token} {tree : Tree} {c : Cursor}
    {kind : TokenKind} {x : String} {fs : List String} {back : List Char}
    (hscan : Token.scan delimiters source = .ok ts) (htree : ofTokens pragmas ts = .ok tree)
    (hset : tree.pragmas.has .filters = true) (hkind : kind ∈ pipeKinds)
    (hfits : PipeFits c.delimiters x fs)
    (hreads : Reads ⟨0, 0, delimiters⟩ source.toList before c (c.pipeTag kind x fs ++ back)) :
    (kind ≠ .closingTag → ∃ u, Within u tree.nodes ∧ u.kind = kind ∧ u.name = x ∧
      u.filters = fs ∧ ∀ digest s, ∃ i s', (walkNode digest source u).run s = .ok ([i], s') ∧
        i.Piped (lookupOf s.pragmas x) (filtersOf s.pragmas fs) kind ∧
        ∀ (e : Engine) (again : Runner) (p : Program) (indent : String) (r : Render.State)
          (value : Value), r.context.resolve e.host (lookupOf s.pragmas x) = .ok value →
          value.callable? e.host p.strictCallables = none →
          Composes e again p indent r value (filtersOf s.pragmas fs) i) ∧
    ∀ gs, PipeFits c.delimiters x gs → ∃ source' ts' tree',
      Reads ⟨0, 0, delimiters⟩ source'.toList before c (c.pipeTag kind x gs ++ back) ∧
      Token.scan delimiters source' = .ok ts' ∧ ofTokens pragmas ts' = .ok tree' ∧
      tree'.pragmas.has .filters = true := by
  refine ⟨fun hopens => ?_, fun gs hgs =>
    exists_refiltered hd hscan htree hset hkind hfits hgs hreads⟩
  have hkind : kind ∈ [.escaped, .sectionTag, .invertedTag] := by
    simp only [pipeKinds, List.mem_cons, List.not_mem_nil, or_false] at hkind ⊢
    tauto
  obtain ⟨u, hu, rfl, rfl, rfl⟩ := exists_pipeNode hd hscan htree hset hkind hfits hreads
  refine ⟨u, hu, rfl, rfl, rfl, fun digest s => ?_⟩
  obtain ⟨_, hnode⟩ := Token.exists_fits_of_within hu fun t ht =>
    ⟨false, fits_ofTokens htree (Scan.isRead_scan hscan) t ht⟩
  have hwalk : Compile.Succeeds (walkNode digest source u) :=
    (Compile.succeeds_of_fits hnode).1 fun hoverride => by
      rw [hoverride] at hkind
      exact absurd hkind (by decide)
  obtain ⟨i, s', hrun, hpiped⟩ :=
    Compile.exists_piped hkind hwalk (plain_inside hscan htree hu) s
  exact ⟨i, s', hrun, hpiped, fun e again p indent r value hvalue hplain =>
    Render.composes_piped hpiped hvalue hplain⟩

/-- A section with two filters. Its closing tag has another one. -/
def pipedSection : String :=
  "\x7b\x7b# x | f | g \x7d\x7d\x7b\x7b.\x7d\x7d\x7b\x7b/ x | h \x7d\x7d"

/-- A host whose procedures write their own numbers behind what they are given. -/
def numberingHost : Host :=
  { Host.inert with
    call := fun ref args =>
      .ok (.str (String.join (args.map (Value.text .inert)) ++ toString ref)) }

/-- Two procedures are called in turn, and the section is entered with what the
second one gives. -/
theorem filters_compose_of_otherClosing :
    let e := Engine.standard numberingHost id 0
    let data := Value.map [("x", .str "v"), ("f", .lambda 1), ("g", .lambda 2)]
    let r : Render.State := ⟨e.contextFor data, Store.ofFiles (.empty "" [])⟩
    ∃ ts tree u, Token.scan .standard pipedSection = .ok ts ∧
      ofTokens [.filters] ts = .ok tree ∧ Within u tree.nodes ∧ u.kind = .sectionTag ∧
      ∀ digest s, ∃ i s', (walkNode digest pipedSection u).run s = .ok ([i], s') ∧
        ∀ again p indent, outcome (Render.instr e again p indent i) r =
          outcome (Render.withValue e again p indent (.str "v12") i) r := by
  intro e data r
  let c : Cursor := ⟨0, 0, .standard⟩
  have hparsed : ((Token.scan .standard pipedSection).toOption.bind fun ts =>
      (ofTokens [.filters] ts).toOption.map fun tree => tree.pragmas.has .filters) =
      some true := by
    decide +kernel
  obtain ⟨ts, hscan, hparsed⟩ := exists_of_toOption_bind hparsed
  obtain ⟨tree, htree, hset⟩ := exists_of_toOption_map hparsed
  have hfits : PipeFits c.delimiters "x" ["f", "g"] := by decide +kernel
  have hreads : Reads c pipedSection.toList [] c (c.pipeTag .sectionTag "x" ["f", "g"] ++
      "\x7b\x7b.\x7d\x7d\x7b\x7b/ x | h \x7d\x7d".toList) := by
    have hsource : pipedSection.toList = c.pipeTag .sectionTag "x" ["f", "g"] ++
        "\x7b\x7b.\x7d\x7d\x7b\x7b/ x | h \x7d\x7d".toList := by
      decide +kernel
    rw [← hsource]
    exact .nil _ _
  obtain ⟨hnode, -⟩ := filters_compose Delimiters.accepted_standard hscan htree hset
    (by decide) hfits hreads
  obtain ⟨u, hu, hkind, -, -, hcode⟩ := hnode nofun
  refine ⟨ts, tree, u, hscan, htree, hu, hkind, fun digest s => ?_⟩
  obtain ⟨i, s', hrun, -, hcomposes⟩ := hcode digest s
  refine ⟨i, s', hrun, fun again p indent => ?_⟩
  have hfind {name : String} (hdot : '.' ∉ name.toList) : lookupOf s.pragmas name = .find name := by
    have htop : name ≠ "." := by
      rintro rfl
      exact hdot (by decide)
    have hanchored : ¬ (s.pragmas.has .anchoredDot = true ∧ name.toList.head? = some '.') :=
      fun h => hdot (List.mem_of_head? h.2)
    rw [lookupOf, if_neg htop, if_neg hanchored, if_neg hdot]
  have hfilters : filtersOf s.pragmas ["f", "g"] = [⟨"f", .find "f"⟩, ⟨"g", .find "g"⟩] := by
    rw [filtersOf, List.map_cons, List.map_singleton, hfind (by decide), hfind (by decide)]
  rw [hfind (by decide), hfilters] at hcomposes
  exact (hcomposes e again p indent r (.str "v") rfl rfl).given _ rfl

/-- A host with an object whose method fails. -/
def failingHost : Host :=
  { Host.inert with
    object := fun _ => { HostObject.inert with method := fun _ => some 0 }
    call := fun _ _ => .error (.runtime (.other "boom")) }

/-- The text of the error that a run fails with. -/
def failureText? : Except Stop String → Option String
  | .error (.failed e) => some e.message
  | _ => none

/-- **A filter that cannot be looked up** is an error of its own. It wins over a
later filter that stands for no procedure, and no filter was called before. -/
theorem lookupError_wins :
    let e := Engine.standard failingHost id 0
    let data := Value.map [("x", .str "v"), ("o", .object 0)]
    let c := e.contextFor data
    let source := "\x7b\x7b% FILTERS \x7d\x7d\x7b\x7b x | o.m | nope \x7d\x7d"
    c.resolve e.host (.find "x") = .ok (.str "v") ∧
      (∀ strict, (Value.str "v").callable? e.host strict = none) ∧
      (∀ strict, Render.Unknown e strict c ⟨"nope", .find "nope"⟩) ∧
      (∀ found, c.resolve e.host (.findDotted "o.m") ≠ .ok found) ∧
      failureText? (outcome (e.render 2 source data) (.ofFiles (.empty "" []))).1 =
        some "Runtime error: boom" := by
  intro e data c source
  have hlookup : c.resolve e.host (.findDotted "o.m") = .error (.runtime (.other "boom")) := rfl
  refine ⟨rfl, fun _ => rfl, fun _ => ⟨.missing, rfl, rfl⟩, ?_, by decide +kernel⟩
  rw [hlookup]
  exact nofun

end Tree

end Mustache
