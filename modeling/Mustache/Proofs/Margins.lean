import Mustache.Proofs.DataAsText
import Mustache.Proofs.DigestNumbers
import Mustache.Proofs.ShiftedCode
/-!
# Mustache — partials behind white space

A partial tag behind white space has its template run with that white space for an
indent. Run with an indent, code writes what the code behind the white space
writes without one (`Render.behind_instrs`, `Render.framesAgree_code`). Over plain
data neither looks at the store, so they agree wherever the frames are the same.

So a partial behind white space renders as its text does with the white space in
front of its lines (`Engine.render_margin`), if that text can be indented
(`Engine.Indentable`). Where a line begins with a section, or a repeated section
does not keep the lines, the two differ (`Engine.bothWays_differ`).
-/

namespace Mustache

/-! ## Programs side by side -/

namespace Program

/-- **A program, and the one of the template behind white space**: the code of
both is related, and what they have on file, and they escape alike. -/
structure Shifted (w : String) (K : String → String → Prop) (p p' : Program) : Prop where
  body : Instr.Shifted w K false p.body p'.body
  sections : FiledShifted w K p.sections p'.sections
  strict : p'.strictCallables = p.strictCallables
  escaping : p'.escaping = p.escaping

end Program

namespace Render

variable {e : Engine} {roots : List Value}

/-! ## Runs with the same frames -/

/-- The frames are the same and drawn from some values. The stores may differ. -/
def SameFrames (roots : List Value) (s t : State) : Prop :=
  s.context = t.context ∧ s.context.DrawnFrom roots

/-- Runs that give the same wherever the frames are. -/
abbrev FramesAgree {α : Type} (roots : List Value) (run run' : Render α) : Prop :=
  Matches (SameFrames roots) Eq run run'

/-- What a text is behind white space that is already there, or is not. -/
def Behind (w : String) (laid : Bool) (a b : String) : Prop := a = (if laid then w else "") ++ b

theorem FramesAgree.forEach {body body' : Render String} (h : FramesAgree roots body body')
    {values : List Value} (hvalues : ∀ value ∈ values, value.FoundIn roots) :
    FramesAgree roots (Render.forEach body values) (Render.forEach body' values) := by
  induction values with
  | nil => exact .pure rfl
  | cons value values ih =>
    obtain ⟨hvalue, hvalues⟩ := List.forall_mem_cons.1 hvalues
    have hframe : FramesAgree roots (inFrame value body) (inFrame value body') := by
      rintro s t ⟨hsame, hdrawn⟩
      obtain ⟨hresult, hafter, hdrawn'⟩ := h { s with context := s.context.push value }
        { t with context := t.context.push value } ⟨by rw [hsame], hdrawn.push hvalue⟩
      unfold inFrame
      rw [outcome_between, outcome_between]
      exact ⟨hresult, congrArg Context.pop hafter, hdrawn'.pop⟩
    exact .append hframe (ih hvalues)

section Plainly

variable (hroots : ∀ root ∈ roots, root.Plain)

include hroots

theorem framesAgree_resolve (lookup : Lookup) :
    Matches (SameFrames roots) (fun a b => a = b ∧ a.FoundIn roots) (resolve e lookup)
      (resolve e lookup) := by
  rintro s t ⟨hsame, hdrawn⟩
  unfold resolve
  rw [outcome_bind, outcome_bind, outcome_get, outcome_get, andThen_ok, andThen_ok,
    outcome_ofExcept, outcome_ofExcept, ← hsame]
  refine ⟨?_, hsame, hdrawn⟩
  cases hresolve : s.context.resolve e.host lookup with
  | error err => exact .error _
  | ok value => exact .ok ⟨rfl, hdrawn.resolve hroots hresolve⟩

theorem framesAgree_applyFilters (strict : Bool) {value : Value} (hvalue : value.FoundIn roots)
    (filters : List Filter) :
    Matches (SameFrames roots) (fun a b => a = b ∧ a.FoundIn roots)
      (applyFilters e strict value filters) (applyFilters e strict value filters) := by
  cases filters with
  | nil => exact .pure ⟨rfl, hvalue⟩
  | cons f fs =>
    refine .bind (framesAgree_resolve hroots f.lookup) ?_
    rintro found _ ⟨rfl, hfound⟩
    rw [(hfound.plain hroots).callable?_eq_none]
    exact .throw _

/-- What a section tag finds. -/
theorem framesAgree_found (strict : Bool) (lookup : Lookup) (filters : List Filter) :
    Matches (SameFrames roots) (fun a b => a = b ∧ a.FoundIn roots)
      (do applyFilters e strict (← resolve e lookup) filters)
      (do applyFilters e strict (← resolve e lookup) filters) := by
  refine .bind (framesAgree_resolve hroots lookup) ?_
  rintro value _ ⟨rfl, hvalue⟩
  exact framesAgree_applyFilters hroots strict hvalue filters

variable {w : String} {K : String → String → Prop} {p p' : Program} {again again' : Runner}
variable {code code' : List Instr} {laid : Bool}

/-- What a variable writes behind an indent, and behind none. -/
theorem behind_interpolate (hstrict : p'.strictCallables = p.strictCallables)
    (hescaping : p'.escaping = p.escaping) (lookup : Lookup) (filters : List Filter)
    (escape starts' : Bool) :
    Matches (SameFrames roots) (Behind w laid)
      (instr e again p w (.interpolate lookup filters escape laid))
      (instr e again' p' "" (.interpolate lookup filters escape starts')) := by
  rw [instr, instr, hstrict]
  refine .bind (framesAgree_resolve hroots lookup) ?_
  rintro value _ ⟨rfl, hvalue⟩
  have hsettle (again : Runner) : settle e again p.strictCallables value = pure value :=
    settleBy_eq hroots e.lambdaProgram again p.strictCallables hvalue
  rw [hsettle, hsettle, pure_bind, pure_bind]
  refine .bind (framesAgree_applyFilters hroots p.strictCallables hvalue filters) ?_
  rintro value _ ⟨rfl, -⟩
  have hescaped (text : String) : escaped e p' text = escaped e p text := by
    unfold escaped
    rw [hescaping]
  refine .pure ?_
  rw [hescaped, Behind, ite_self, String.empty_append]

/-- What a section writes, run with code that is related. -/
theorem framesAgree_sectionText {b b' : SectionBody} {value : Value} (hvalue : value.FoundIn roots)
    (hbody : FramesAgree roots (again p b.body w) (again' p' b'.body "")) :
    FramesAgree roots (sectionText e again p b value w) (sectionText e again' p' b' value "") := by
  have hplain : value.Plain := hvalue.plain hroots
  unfold sectionText
  rw [hplain.callable?_eq_none, hplain.callable?_eq_none]
  by_cases hempty : value.isEmpty = true
  · simp only [if_pos hempty]
    exact .pure rfl
  · simp only [if_neg hempty]
    exact FramesAgree.forEach hbody fun element helement =>
      hvalue.part (hplain.hasPart_of_mem_elements e.host helement)

omit hroots in
/-- Related texts one after the other. -/
theorem behind_append {first first' more more' : Render String}
    (hfirst : Matches (SameFrames roots) (Behind w laid) first first')
    (hmore : FramesAgree roots more more') :
    Matches (SameFrames roots) (Behind w laid) (do return (← first) ++ (← more))
      (do return (← first') ++ (← more')) := by
  refine .bind hfirst ?_
  rintro _ text rfl
  refine .bind_same hmore fun rest => ?_
  exact .pure String.append_assoc

/-- **Code behind white space writes without an indent** what the code writes
with it, behind the white space that is there already. -/
theorem behind_instrs (hp : p.Shifted w K p')
    (hagain : ∀ {code code' : List Instr}, Instr.Shifted w K false code code' →
      FramesAgree roots (again p code w) (again' p' code' ""))
    (h : Instr.Shifted w K laid code code') :
    Matches (SameFrames roots) (Behind w laid) (instrs e again p w code)
      (instrs e again' p' "" code') := by
  have hplain {run run' : Render String}
      (h : Matches (SameFrames roots) (Behind w false) run run') :
      FramesAgree roots run run' := h.mono fun a b hab => hab.trans String.empty_append
  have hagree {run run' : Render String} (h : FramesAgree roots run run') :
      Matches (SameFrames roots) (Behind w false) run run' :=
    h.mono fun a b hab => hab.trans String.empty_append.symm
  induction h with
  | nil => exact .pure String.empty_append.symm
  | @margin starts' code code' _ ih =>
    rw [← bind_pure (instrs e again p w code), instrs, instr, pure_bind]
    refine .bind ih ?_
    rintro _ text rfl
    refine .pure ?_
    rw [ite_self]
    simp [Behind]
  | @text laid starts starts' value value' code code' hstarts hvalue _ ih =>
    rw [instrs, instrs, instr, instr]
    refine behind_append (.pure ?_) (hplain ih)
    rw [ite_self, String.empty_append, hvalue, Behind, ← String.append_assoc]
    -- the white space is written by one of the two, or by none if no line starts
    cases laid with
    | true =>
      rw [hstarts rfl]
      simp
    | false => simp
  | interpolate _ ih =>
    rw [instrs, instrs]
    exact behind_append (behind_interpolate hroots hp.strict hp.escaping _ _ _ _) (hplain ih)
  | @enter key key' lookup filters _ _ hkeys _ ih =>
    rw [instrs, instrs]
    refine behind_append (hagree ?_) (hplain ih)
    rw [instr, instr, hp.strict, ← bind_assoc, ← bind_assoc]
    refine .bind (framesAgree_found hroots p.strictCallables lookup filters) ?_
    rintro value _ ⟨rfl, hvalue⟩
    have hfiled := hp.sections key key' hkeys
    generalize Entries.get? p.sections key = found at hfiled
    generalize Entries.get? p'.sections key' = found' at hfiled
    cases hfiled with
    | none => exact .pure rfl
    | some hbody => exact framesAgree_sectionText hroots hvalue (hagain hbody)
  | @inverted lookup filters _ _ _ _ _ _ ihbody ih =>
    rw [instrs, instrs]
    refine behind_append (hagree ?_) (hplain ih)
    rw [instr, instr, hp.strict, ← bind_assoc, ← bind_assoc]
    refine .bind (framesAgree_found hroots p.strictCallables lookup filters) ?_
    rintro value _ ⟨rfl, -⟩
    by_cases hempty : value.isEmpty = true
    · rw [if_pos hempty, if_pos hempty]
      exact hplain ihbody
    · rw [if_neg hempty, if_neg hempty]
      exact .pure rfl

/-- **Programs behind white space**, however deep places nest. -/
theorem framesAgree_code (hp : p.Shifted w K p') (depth : Nat)
    (h : Instr.Shifted w K false code code') :
    FramesAgree roots (Render.code e depth p code w) (Render.code e depth p' code' "") := by
  induction depth generalizing code code' with
  | zero => exact .throw _
  | succ depth ih =>
    refine (behind_instrs hroots hp (fun h => ih h) h).mono ?_
    exact fun a b hab => hab.trans String.empty_append

end Plainly

end Render

/-! ## The whole template -/

namespace Engine

/-- **A text that can be indented**: it is made of text, variables, comments and
sections of both kinds; each line that begins outside a tag begins with text or a
variable, comments apart, or is a tag alone; and repeated sections keep the
lines. -/
def Indentable (e : Engine) (text : String) : Prop :=
  ∃ ts tree, Token.scan (e.startingDelimiters none) text = .ok ts ∧
    Tree.ofTokens e.pragmas ts = .ok tree ∧ (∀ t ∈ ts, t.kind.isElementary = true) ∧
    Tree.linesHeaded true ts = true ∧ Compile.KeepsLines text tree.nodes

instance (e : Engine) (text : String) : Decidable (e.Indentable text) :=
  decidable_of_iff
    (((Token.scan (e.startingDelimiters none) text).toOption.bind fun ts =>
      (Tree.ofTokens e.pragmas ts).toOption.map fun tree =>
        decide ((∀ t ∈ ts, t.kind.isElementary = true) ∧ Tree.linesHeaded true ts = true ∧
          Compile.KeepsLines text tree.nodes)) = some true)
    (Tree.exists_parsed_iff _)

/-- The texts under whose digests the sections of a template are filed. -/
def sectionTexts (e : Engine) (text : String) : Set String :=
  {inside | ∃ ts tree, Token.scan (e.startingDelimiters none) text = .ok ts ∧
    Tree.ofTokens e.pragmas ts = .ok tree ∧ inside ∈ tree.sectionTexts text}

/-- The same texts, listed. -/
def listedTexts (e : Engine) (text : String) : List String :=
  ((Token.scan (e.startingDelimiters none) text).toOption.bind fun ts =>
    (Tree.ofTokens e.pragmas ts).toOption).elim [] fun tree => tree.visitedTexts text

variable {e : Engine} {text : String}

/-- Whether their digests collide can be found out. -/
theorem injOn_sectionTexts (h : ((e.listedTexts text).dedup.map e.digest).Nodup) :
    Set.InjOn e.digest (e.sectionTexts text) := by
  rintro inside ⟨ts, tree, hscan, htree, hinside⟩ other ⟨ts', tree', hscan', htree', hother⟩ heq
  cases hscan.symm.trans hscan'
  cases htree.symm.trans htree'
  unfold listedTexts at h
  simp only [hscan, htree, Except.toOption, Option.bind_some, Option.elim_some] at h
  exact Tree.injOn_sectionTexts hscan htree h hinside hother heq

/-- Where these do not collide, keys tell the sections of the template apart. -/
theorem keyed_of_injOn (haccepted : e.HasAccepted) {ts : List Token} {tree : Tree}
    (hscan : Token.scan (e.startingDelimiters none) text = .ok ts)
    (htree : Tree.ofTokens e.pragmas ts = .ok tree)
    (hfree : Set.InjOn e.digest (e.sectionTexts text)) : tree.Keyed e.digest text := by
  have htexts : tree.sectionTexts text ⊆ e.sectionTexts text :=
    fun _ hinside => ⟨ts, tree, hscan, htree, hinside⟩
  exact Program.keyed_of_parsed (haccepted.startingDelimiters .none) hscan htree
    (hfree.mono htexts)

/-- **The template behind white space compiles** to code behind that white
space. -/
theorem exists_shifted (haccepted : e.HasAccepted) {w : String} (hw : IsPadding w) (hne : w ≠ "")
    (htext : e.Indentable text) (hfree : Set.InjOn e.digest (e.sectionTexts text))
    (hfree' : Set.InjOn e.digest
      (e.sectionTexts (Scan.withMargin w (e.startingDelimiters none) text))) :
    ∃ p p' K, e.compiled text none = .ok p ∧
      e.compiled (Scan.withMargin w (e.startingDelimiters none) text) none = .ok p' ∧
      p.Shifted w K p' := by
  obtain ⟨ts, tree, hscan, htree, helementary, hheaded, hkeeps⟩ := htext
  have hd : (e.startingDelimiters none).Accepted := haccepted.startingDelimiters .none
  have hchars : w.toList ≠ [] := fun hnil => hne (String.toList_eq_nil_iff.1 hnil)
  obtain ⟨source', ts', tree', m, hsource', hscan', htree', hm, hnodes⟩ :=
    Tree.exists_ofTokens_indented hw hchars hd hscan htree helementary hheaded
  rw [show Scan.withMargin w _ text = source' from hsource'.symm] at hfree' ⊢
  rw [String.ofList_toList] at hnodes
  have hkeyed := keyed_of_injOn haccepted hscan htree hfree
  have hkeyed' := keyed_of_injOn haccepted hscan' htree' hfree'
  -- the sections that are related are those of the two trees
  let S := Tree.IndentedIn w.toList text source' tree tree'
  have hsections : Tree.Shifted w S .ahead tree.nodes tree'.nodes m :=
    hnodes.mono (.within tree.nodes) (.within tree'.nodes)
      fun _ _ hindented hkind hkind' hwithin hwithin' =>
        ⟨hindented, ⟨hwithin, hkind⟩, ⟨hwithin', hkind'⟩⟩
  obtain ⟨p, hp⟩ := Program.exists_compile hscan htree e.digest e.compileSettings
  obtain ⟨p', hp'⟩ := Program.exists_compile hscan' htree' e.digest e.compileSettings
  refine ⟨p, p', Compile.KeysOf e.digest text source' S,
    (compile_of_parsed hscan htree _).trans hp,
    (compile_of_parsed hscan' htree' _).trans hp', ?_⟩
  obtain ⟨body, s, hwalked, rfl⟩ := Program.exists_walked hp
  obtain ⟨body', s', hwalked', rfl⟩ := Program.exists_walked hp'
  have hstart : Compile.ShiftedAt e.digest w S text source' (.ofPragmas e.pragmas) .ahead []
      ⟨.ofPragmas e.pragmas, [], [], true⟩ ⟨.ofPragmas e.pragmas, [], [], true⟩ :=
    ⟨rfl, rfl, rfl, rfl, fun _ _ _ => .none, nofun⟩
  obtain ⟨hbody, hs⟩ := Compile.shifted_walked (Compile.oneToOne_keysOf hkeyed hkeyed')
    (Tree.keysTell hkeyed.accepted hkeyed.free) hkeeps hsections hm hwalked hwalked'
    List.prefix_rfl hstart
  exact ⟨hbody, hs.files, rfl, rfl⟩

variable {I : Store → Prop} {data : Value} {name : String} {s : Store}

/-- **A partial is indented as its text is.** White space on one line and a partial
tag for a text that can be indented render, over plain data and helpers, as the
text with that white space in front of each line that begins outside a tag. The
digests of the three templates do not collide, nor do those of the sections of
the one text or of the other. -/
theorem render_margin (hcache : e.cache.Internal) (haccepted : e.HasAccepted) {x : Insertion}
    (hx : x.Fits (e.startingDelimiters none) (.ofPragmas e.pragmas)) (hne : x.indent ≠ "")
    (htext : e.Indentable text)
    (hnames : Set.InjOn e.digest (e.fingerprints [x.written (e.startingDelimiters none), text,
      Scan.withMargin x.indent (e.startingDelimiters none) text]))
    (hfree : Set.InjOn e.digest (e.sectionTexts text))
    (hfree' : Set.InjOn e.digest
      (e.sectionTexts (Scan.withMargin x.indent (e.startingDelimiters none) text)))
    (hsteady : e.Steady [x.written (e.startingDelimiters none), text,
      Scan.withMargin x.indent (e.startingDelimiters none) text] I) {name' : String}
    (hname : e.loader.Serves I name (x.written (e.startingDelimiters none)))
    (hpartial : ∃ loader ∈ e.partialLoader?, loader.Serves I x.name text)
    (hname' : e.loader.Serves I name'
      (Scan.withMargin x.indent (e.startingDelimiters none) text))
    (hdata : data.Plain) (hhelpers : ∀ entry ∈ e.helpers, entry.2.Plain) (hs : I s)
    (depth : Nat) :
    (outcome (e.render (depth + 1) name data) s).1 = (outcome (e.render depth name' data) s).1 := by
  obtain ⟨p, p', K, hp, hp', hshifted⟩ := exists_shifted haccepted hx.padding hne htext hfree
    hfree'
  obtain ⟨q, hq, hbody⟩ := exists_compiled_insertion haccepted hx
  obtain ⟨store, htemplate, hstore⟩ := exists_template hnames hcache haccepted hsteady (by simp)
    hq hname hs
  obtain ⟨store', htemplate', -⟩ := exists_template hnames hcache haccepted hsteady (by simp)
    hp' hname' hs
  obtain ⟨inside, hprogram, -⟩ := exists_partialProgram hnames hcache haccepted hsteady (by simp)
    hp hpartial hstore
  have hasked : outcome (Render.onStore (e.partialProgram x.name)) ⟨e.contextFor data, store⟩ =
      (.ok (some p), ⟨e.contextFor data, inside⟩) := by
    rw [Render.outcome_onStore, hprogram]
    rfl
  have hcaptured : Render.partialIndent "" x.captured = x.indent := by
    rw [Insertion.captured, if_neg hne]
    exact String.empty_append
  -- both run over the same frames, each against its own store
  have hruns : Render.FramesAgree (e.roots data) (Render.code e depth p p.body x.indent)
      (Render.code e depth p' p'.body "") :=
    Render.framesAgree_code (plain_roots hdata hhelpers) hshifted depth hshifted.body
  have hsame : Render.SameFrames (e.roots data) ⟨e.contextFor data, inside⟩
      ⟨e.contextFor data, store'⟩ := ⟨rfl, drawnFrom_contextFor e data⟩
  calc (outcome (e.render (depth + 1) name data) s).1
      = (outcome (Render.instrs e (Render.code e depth) q ""
          [.insertPartial (.fixed x.name) x.captured]) ⟨e.contextFor data, store⟩).1 := by
        rw [result_render htemplate, hbody]
        rfl
    _ = (outcome (Render.code e depth p p.body x.indent) ⟨e.contextFor data, inside⟩).1 := by
        rw [Render.result_insertion hasked, hcaptured]
        rfl
    _ = (outcome (Render.code e depth p' p'.body "") ⟨e.contextFor data, store'⟩).1 :=
        (hruns.result_eq hsame).1
    _ = (outcome (e.render depth name' data) s).1 := (result_render htemplate').symm

/-- An engine that has white space in front of a partial tag, the text of that
partial, and the same text with the white space in front of its lines. -/
def marginEngine (digest : String → String) (d : Delimiters) (w text : String) : Engine :=
  { standard .inert digest 0 with
    delimiters := some d
    loader := .fixed [("page", (⟨"text", "text", w⟩ : Insertion).written d), ("text", text),
      ("flat", Scan.withMargin w d text)] }

/-- A list with an inverted section and a comment, twice, and another section. -/
def twoLists : String :=
  "[#a]\n[.]: [^b]none[/b]\n[! note]\n[/a]\n\n[#a]\n[.]: [^b]none[/b]\n[! note]\n[/a]\n" ++
    "[#c]\nend\n[/c]"

/-- The text with the white space in front of its lines has it within sections,
and renders as the partial. -/
theorem render_margin_of_lists :
    let e := marginEngine Sha256.ofText ⟨"[", "]"⟩ "\t" twoLists
    let store := Store.ofFiles (.empty "" [])
    let data := Value.map [("a", .list [.str "1", .str "2"]), ("c", .str "3")]
    let flat := Scan.withMargin "\t" ⟨"[", "]"⟩ twoLists
    Set.InjOn e.digest (e.fingerprints ["\t[>text]", twoLists, flat]) ∧
      Set.InjOn e.digest (e.sectionTexts twoLists) ∧ Set.InjOn e.digest (e.sectionTexts flat) ∧
      e.Indentable twoLists ∧ data.Plain ∧
      flat = "\t[#a]\n\t[.]: [^b]none[/b]\n\t[! note]\n\t[/a]\n\t\n" ++
        "\t[#a]\n\t[.]: [^b]none[/b]\n\t[! note]\n\t[/a]\n\t[#c]\n\tend\n\t[/c]" ∧
      (outcome (e.render 3 "page" data) store).1.toOption =
        some "\t1: none\n\t2: none\n\t\n\t1: none\n\t2: none\n\tend\n" ∧
      (outcome (e.render 3 "page" data) store).1 = (outcome (e.render 2 "flat" data) store).1 := by
  intro e store data flat
  have hnames : Set.InjOn e.digest (e.fingerprints ["\t[>text]", twoLists, flat]) := by
    refine injOn_fingerprints ?_
    change (["\t[>text]", twoLists, flat].map fun text =>
      Sha256.ofText ((marginEngine id ⟨"[", "]"⟩ "\t" twoLists).textFingerprint text none)).Nodup
    rw [Sha256.ofText_eq_numbers]
    decide +kernel
  have hsections : ∀ text ∈ [twoLists, flat], Set.InjOn e.digest (e.sectionTexts text) := by
    have hdigests : ∀ text ∈ [twoLists, flat], (((marginEngine id ⟨"[", "]"⟩ "\t"
        twoLists).listedTexts text).dedup.map Sha256.ofText).Nodup := by
      rw [Sha256.ofText_eq_numbers]
      decide +kernel
    exact fun text htext => injOn_sectionTexts (hdigests text htext)
  have hlist : (Value.list [.str "1", .str "2"]).Plain := .list (by simp [Value.Plain.str])
  have hdata : data.Plain := .map (by simp [Value.Plain.str, hlist])
  have htext : e.Indentable twoLists := by decide +kernel
  have haccepted : e.HasAccepted := by
    intro d hd
    obtain rfl := Option.some.inj hd
    exact ⟨"[ ]", by decide +kernel⟩
  have hloads {name text : String}
      (h : (outcome (e.loader.load name) store).1 = .ok (.text text)) :
      e.loader.Serves (fun s => e.RetainsAll ["\t[>text]", twoLists, flat] s ∧
        s.tables = store.tables) name text :=
    Loader.InMemory.serves (.fixed _) _ h
  have hfits : (⟨"text", "text", "\t"⟩ : Insertion).Fits (e.startingDelimiters none)
      (.ofPragmas e.pragmas) := by decide +kernel
  have hfree : Set.InjOn e.digest (e.sectionTexts twoLists) := hsections _ (by simp)
  have hfree' : Set.InjOn e.digest (e.sectionTexts flat) := hsections _ (by simp)
  refine ⟨hnames, hfree, hfree', htext, hdata, by decide +kernel, ?_, ?_⟩
  · change (outcome ((marginEngine Sha256.ofText ⟨"[", "]"⟩ "\t" twoLists).render 3 "page" data)
      store).1.toOption = _
    rw [Sha256.ofText_eq_numbers]
    decide +kernel
  · exact render_margin .disabled haccepted hfits (by decide) htext hnames hfree hfree'
      (e.steady_tables _ store.tables) (hloads rfl) ⟨_, rfl, hloads rfl⟩ (hloads rfl) hdata nofun
      ⟨retainsAll_ofFiles .disabled _ _, rfl⟩ 2

/-- What a partial behind white space renders to, and what its text renders to
with that white space in front of its lines. -/
def bothWays (w text : String) (data : Value) : Option String × Option String :=
  let e := marginEngine Sha256.ofText .standard w text
  let store := Store.ofFiles (.empty "" [])
  ((outcome (e.render 3 "page" data) store).1.toOption,
    (outcome (e.render 2 "flat" data) store).1.toOption)

/-- **They differ** where a line begins with a section, as the white space is
written inside it each time, and where a repeated section does not keep the lines.
They agree where a section begins a line that it does not end, and both have white
space in the middle of a line then. -/
theorem bothWays_differ :
    bothWays " " "\x7b\x7b#a\x7d\x7dx\x7b\x7b/a\x7d\x7d" (.map [("a", .list [.int 1, .int 2])]) =
        (some " x x", some " xx") ∧
      bothWays " " ("x\x7b\x7b#a\x7d\x7db\n\x7b\x7b/a\x7d\x7d\n" ++
          "x\x7b\x7b#a\x7d\x7db\n\x7b\x7b/a\x7d\x7d\nz") (.map [("a", .int 1)]) =
        (some " xb\n xb\nz", some " xb\n xb\n z") ∧
      bothWays " " "\x7b\x7b#a\x7d\x7d\nx\x7b\x7b/a\x7d\x7d\n"
          (.map [("a", .list [.int 1, .int 2])]) =
        (some " x x\n", some " x x\n") := by
  unfold bothWays
  rw [Sha256.ofText_eq_numbers]
  refine ⟨?_, ?_, ?_⟩ <;> decide +kernel

end Engine

end Mustache
