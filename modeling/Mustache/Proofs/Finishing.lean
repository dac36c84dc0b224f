import Mustache.Proofs.DataAsText
import Mustache.Proofs.Descent
import Mustache.Proofs.PlainData
import Mustache.Proofs.Run
/-!
# Mustache — rendering without partials finishes

Sections are run by their keys, and the renderer nests as deep as it is let,
so nothing about its recursion says that it ends. Without partials and parents,
and against plain data without overrides, it runs sections only, and these
refer to shorter and shorter texts (`Program.Descends`). So nesting as deep as
the template is long is enough for every render (`Program.render_finishes`):
from then on the depth that is allowed makes no difference, and no run is
exhausted.
-/

namespace Mustache

/-! ## Code that names no template -/

namespace Instr

mutual

/-- The templates that an instruction names. -/
def templates : Instr → List TemplateName
  | .insertPartial name _ | .extend name _ => [name]
  | .inverted _ _ body => templatesOf body
  | .block _ default => templatesOf default
  | .text .. | .interpolate .. | .enter .. => []

/-- The templates that instructions name. -/
def templatesOf : List Instr → List TemplateName
  | [] => []
  | i :: is => templates i ++ templatesOf is

end

theorem templatesOf_append (is js : List Instr) :
    templatesOf (is ++ js) = templatesOf is ++ templatesOf js := by
  induction is with
  | nil => rfl
  | cons i is ih => rw [List.cons_append, templatesOf, templatesOf, ih, List.append_assoc]

end Instr

/-- Neither a partial nor a parent. -/
def TokenKind.IsOwn (kind : TokenKind) : Prop := kind ≠ .partialTag ∧ kind ≠ .parentTag

namespace Tree

open Token (Everywhere EverywhereIn)

/-- **What holds of the kinds of all tokens holds of the kinds of all nodes**,
and of those that the parser gives to blocks. -/
theorem Grown.everywhere_kind {Q : TokenKind → Prop} {blocks inParent : Bool}
    {ts nodes : List Token} (h : Grown blocks inParent ts nodes) (hts : ∀ t ∈ ts, Q t.kind)
    (hescaped : Q .escaped) (harg : Q .blockArg) : EverywhereIn (Q ·.kind) nodes := by
  induction h with
  | nil => exact trivial
  | pass _ _ ih => exact ih (List.forall_mem_cons.1 hts).2
  | leaf hleaf hnodes _ _ ih =>
    obtain ⟨ht, hts⟩ := List.forall_mem_cons.1 hts
    refine ⟨Token.everywhere_iff.2 ⟨?_, ?_⟩, ih hts⟩
    · rcases hleaf.kind with ⟨hsame, -⟩ | ⟨-, hkind⟩
      · rwa [hsame]
      · rwa [hkind]
    · rw [Token.nodes, hnodes]
      exact trivial
  | tag hopens _ _ _ ihinside ih =>
    obtain ⟨ht, hts⟩ := List.forall_mem_cons.1 hts
    obtain ⟨hinside, hts⟩ := List.forall_mem_append.1 hts
    refine ⟨Token.everywhere_iff.2 ⟨?_, ihinside hinside⟩, ih (List.forall_mem_cons.1 hts).2⟩
    rcases hopens.isTag.kind with ⟨hsame, -⟩ | ⟨-, hkind, -⟩
    · dsimp only
      rwa [hsame]
    · dsimp only
      rwa [hkind]

end Tree

namespace Compile

open Instr (templatesOf templatesOf_append)
open Token (EverywhereIn)

variable {digest : String → String} {source : String}

theorem templatesOf_leafCode? {pragmas : PragmaSet} {starts : Bool} {t : Token}
    {code : List Instr} (h : leafCode? pragmas starts t = some code)
    (hkind : t.kind ≠ .partialTag) : templatesOf code = [] := by
  unfold leafCode? at h
  split at h <;> cases h
  case h_1 hpartial => exact absurd hpartial hkind
  all_goals rfl

/-- **Nodes without partials and parents make code that names no template.** -/
theorem Walked.templates : ∀ {s s' : State} {ts : List Token} {code : List Instr},
    Walked digest source s ts code s' → EverywhereIn (·.kind.IsOwn) ts → templatesOf code = []
  | _, _, _, _, .nil, _ => rfl
  | _, _, _, _, .pragma _ hrest, hts => hrest.templates hts.2
  | _, _, _, _, .leaf hleaf hrest, hts => by
    rw [templatesOf_append, templatesOf_leafCode? hleaf hts.1.self.1, hrest.templates hts.2]
    rfl
  | _, _, _, _, .newSection _ _ _ hrest, hts => hrest.templates hts.2
  | _, _, _, _, .knownSection _ _ hrest, hts => hrest.templates hts.2
  | _, _, _, _, .inverted _ hbody hrest, hts => by
    rw [templatesOf, Instr.templates, hbody.templates hts.1.nodes, hrest.templates hts.2]
    rfl
  | _, _, _, _, .extend hkind _ _, hts => absurd hkind hts.1.self.2
  | _, _, _, _, .block _ hbody hrest, hts => by
    rw [templatesOf, Instr.templates, hbody.templates hts.1.nodes, hrest.templates hts.2]
    rfl

end Compile

/-! ## Runs that settle -/

namespace Render

variable {α β : Type}

/-- Frames of plain data, and no overrides. -/
structure Calm (s : State) : Prop where
  frames : ∀ frame ∈ s.context.frames, frame.Plain
  overrides : s.context.overrides = []

/-- How a run ends: with a result that has a property, or with an error of the
template, but never exhausted. -/
inductive Ends (V : α → Prop) : Except Stop α → Prop
  | ok {a : α} : V a → Ends V (.ok a)
  | failed (e : Error) : Ends V (.error (.failed e))

/-- **A run settles**: from some depth on all that is allowed make it end alike,
and it leaves the state as it was. -/
def Settles (s : State) (n : Nat) (V : α → Prop) (run : Nat → Render α) : Prop :=
  ∃ result, Ends V result ∧ ∀ depth ≥ n, outcome (run depth) s = (result, s)

/-- It settles, whatever it writes. -/
abbrev Finishes (s : State) (n : Nat) (run : Nat → Render String) : Prop :=
  Settles s n (fun _ => True) run

namespace Settles

variable {s : State} {n m : Nat} {V : α → Prop} {W : β → Prop} {run : Nat → Render α}

theorem pure {a : α} (h : V a) : Settles s n V fun _ => Pure.pure a :=
  ⟨.ok a, .ok h, fun _ _ => rfl⟩

theorem fail (e : Error) : Settles s n V fun _ => (Render.fail e : Render α) :=
  ⟨.error (.failed e), .failed e, fun _ _ => rfl⟩

theorem ofExcept {result : Except Error α} (h : ∀ a, result = .ok a → V a) :
    Settles s n V fun _ => Render.ofExcept result := by
  cases result with
  | ok a => exact .pure (h a rfl)
  | error e => exact .fail e

theorem mono (h : Settles s n V run) (hle : n ≤ m) : Settles s m V run := by
  obtain ⟨result, hends, houtcome⟩ := h
  exact ⟨result, hends, fun depth hdepth => houtcome depth (Nat.le_trans hle hdepth)⟩

theorem bind {next : Nat → α → Render β} (h : Settles s n V run)
    (hnext : ∀ a, V a → Settles s n W fun depth => next depth a) :
    Settles s n W fun depth => run depth >>= next depth := by
  obtain ⟨result, hends, houtcome⟩ := h
  cases hends with
  | @ok a hV =>
    obtain ⟨result, hends, houtcome'⟩ := hnext a hV
    refine ⟨result, hends, fun depth hdepth => ?_⟩
    rw [outcome_bind, houtcome depth hdepth, andThen_ok, houtcome' depth hdepth]
  | failed e =>
    refine ⟨.error (.failed e), .failed e, fun depth hdepth => ?_⟩
    rw [outcome_bind, houtcome depth hdepth, andThen_error]

/-- The state is what it was. -/
theorem get_bind {next : Nat → State → Render α}
    (h : Settles s n V fun depth => next depth s) :
    Settles s n V fun depth => get >>= next depth := by
  obtain ⟨result, hends, houtcome⟩ := h
  refine ⟨result, hends, fun depth hdepth => ?_⟩
  rw [outcome_bind, outcome_get, andThen_ok, houtcome depth hdepth]

/-- A frame is put on top and taken away again. -/
theorem inFrame {value : Value}
    (h : Settles { s with context := s.context.push value } n V run) :
    Settles s n V fun depth => Render.inFrame value (run depth) := by
  obtain ⟨result, hends, houtcome⟩ := h
  refine ⟨result, hends, fun depth hdepth => ?_⟩
  unfold Render.inFrame
  rw [outcome_between, houtcome depth hdepth]
  rfl

end Settles

/-! ## Against plain data -/

section Plain

variable {e : Engine} {s : State} {n : Nat} {again : Nat → Runner}

theorem Calm.push (h : Calm s) {value : Value} (hvalue : value.Plain) :
    Calm { s with context := s.context.push value } :=
  ⟨List.forall_mem_cons.2 ⟨hvalue, h.frames⟩, h.overrides⟩

/-- What a tag finds is plain. -/
theorem settles_resolve (h : Calm s) (lookup : Lookup) :
    Settles s n Value.Plain fun _ => resolve e lookup := by
  refine .get_bind (.ofExcept fun v hv => ?_)
  have hdrawn : s.context.DrawnFrom s.context.frames := fun frame hframe => .root hframe
  exact (hdrawn.resolve h.frames hv).plain h.frames

/-- No filter is found in plain data. -/
theorem settles_applyFilters (h : Calm s) (strict : Bool) {value : Value} (hvalue : value.Plain)
    (filters : List Filter) :
    Settles s n Value.Plain fun _ => applyFilters e strict value filters := by
  cases filters with
  | nil => exact .pure hvalue
  | cons f fs =>
    unfold applyFilters
    refine .bind (settles_resolve h f.lookup) fun v hv => ?_
    rw [hv.callable?_eq_none]
    exact .fail _

/-- What is plain is settled as it is. -/
theorem settles_settle (strict : Bool) {value : Value} (hvalue : value.Plain) :
    Settles s n Value.Plain fun depth => settle e (again depth) strict value := by
  unfold settle
  rw [hvalue.callable?_eq_none]
  exact .pure hvalue

theorem finishes_forEach {body : Nat → Render String} {values : List Value}
    (h : ∀ value ∈ values, Finishes { s with context := s.context.push value } n body) :
    Finishes s n fun depth => forEach (body depth) values := by
  induction values with
  | nil => exact .pure trivial
  | cons value values ih =>
    obtain ⟨hvalue, hvalues⟩ := List.forall_mem_cons.1 h
    unfold forEach
    exact .bind (.inFrame hvalue) fun _ _ => .bind (ih hvalues) fun _ _ => .pure trivial

/-- A section finishes if its body does. -/
theorem finishes_sectionText (h : Calm s) (p : Program) (body : SectionBody) {value : Value}
    (hvalue : value.Plain) (indent : String)
    (hbody : ∀ s, Calm s → Finishes s n fun depth => again depth p body.body indent) :
    Finishes s n fun depth => sectionText e (again depth) p body value indent := by
  unfold sectionText
  rw [hvalue.callable?_eq_none]
  dsimp only
  split
  · exact .pure trivial
  · exact finishes_forEach fun v hv =>
      hbody _ (h.push (hvalue.part (hvalue.hasPart_of_mem_elements e.host hv)))

/-- **Code is contained**: it names no templates, and the sections that it
mentions finish. -/
structure Contained (again : Nat → Runner) (p : Program) (indent : String) (n : Nat)
    (code : List Instr) : Prop where
  templates : Instr.templatesOf code = []
  sections : ∀ key ∈ Instr.sectionKeysOf code, ∀ body, Entries.get? p.sections key = some body →
    ∀ s, Calm s → Finishes s n fun depth => again depth p body.body indent

section

variable {p : Program} {indent : String} {i : Instr} {is body : List Instr}

theorem Contained.head (h : Contained again p indent n (i :: is)) :
    Contained again p indent n [i] where
  templates := by
    rw [Instr.templatesOf, (List.append_eq_nil_iff.1 h.templates).1]
    rfl
  sections key hkey := by
    rw [Instr.sectionKeysOf, Instr.sectionKeysOf, List.append_nil] at hkey
    exact h.sections key (List.mem_append_left _ hkey)

theorem Contained.tail (h : Contained again p indent n (i :: is)) :
    Contained again p indent n is where
  templates := (List.append_eq_nil_iff.1 h.templates).2
  sections key hkey := h.sections key (List.mem_append_right _ hkey)

/-- What is inside an instruction is contained with it. -/
theorem Contained.inside (h : Contained again p indent n [i])
    (htemplates : i.templates = Instr.templatesOf body)
    (hkeys : i.sectionKeys = Instr.sectionKeysOf body) : Contained again p indent n body where
  templates := htemplates ▸ (List.append_eq_nil_iff.1 h.templates).1
  sections key hkey := h.sections key (List.mem_append_left _ (hkeys ▸ hkey))

mutual

theorem finishes_instr : ∀ (i : Instr) {s : State}, Contained again p indent n [i] → Calm s →
    Finishes s n fun depth => instr e (again depth) p indent i
  | .text value indented, s, _, _ => by
    unfold instr
    exact .pure trivial
  | .interpolate lookup filters escape indented, s, _, hs => by
    unfold instr
    refine .bind (settles_resolve hs lookup) fun found hfound => ?_
    refine .bind (settles_settle _ hfound) fun value hvalue => ?_
    exact .bind (settles_applyFilters hs _ hvalue filters) fun _ _ => .pure trivial
  | .enter lookup filters key, s, h, hs => by
    unfold instr
    refine .bind (settles_resolve hs lookup) fun found hfound => ?_
    refine .bind (settles_applyFilters hs _ hfound filters) fun value hvalue => ?_
    cases hget : Entries.get? p.sections key with
    | none => exact .pure trivial
    | some body =>
      have hbody := h.sections key List.mem_cons_self body hget
      exact finishes_sectionText hs p body hvalue indent hbody
  | .inverted lookup filters body, s, h, hs => by
    unfold instr
    refine .bind (settles_resolve hs lookup) fun found hfound => ?_
    refine .bind (settles_applyFilters hs _ hfound filters) fun value hvalue => ?_
    split
    · exact finishes_instrs body (h.inside rfl rfl) hs
    · exact .pure trivial
  | .insertPartial name captured, s, h, _ => nomatch h.templates
  | .extend name overrides, s, h, _ => nomatch h.templates
  | .block name default, s, h, hs => by
    unfold instr
    refine .get_bind ?_
    have hnone : s.context.override? name = none := by
      rw [Context.override?, hs.overrides]
      rfl
    rw [hnone]
    exact finishes_instrs default (h.inside rfl rfl) hs

/-- **Contained code finishes.** -/
theorem finishes_instrs : ∀ (is : List Instr) {s : State}, Contained again p indent n is → Calm s →
    Finishes s n fun depth => instrs e (again depth) p indent is
  | [], s, _, _ => by
    unfold instrs
    exact .pure trivial
  | i :: is, s, h, hs => by
    unfold instrs
    refine .bind (finishes_instr i h.head hs) fun _ _ => ?_
    exact .bind (finishes_instrs is h.tail hs) fun _ _ => .pure trivial

end

end

/-- Code finishes one depth after its instructions do. -/
theorem finishes_code {p : Program} {indent : String} {code : List Instr}
    (h : Finishes s n fun depth => instrs e (Render.code e depth) p indent code) :
    Finishes s (n + 1) fun depth => Render.code e depth p code indent := by
  obtain ⟨result, hends, houtcome⟩ := h
  refine ⟨result, hends, fun depth hdepth => ?_⟩
  cases depth with
  | zero => exact absurd hdepth (Nat.not_succ_le_zero n)
  | succ depth => exact houtcome depth (Nat.le_of_succ_le_succ hdepth)

end Plain

/-- **Code that refers to shorter texts finishes** as deep as these are long. -/
theorem finishes_of_descends {e : Engine} {p : Program} (hdescends : p.Descends)
    (htemplates : ∀ key s, Entries.get? p.sections key = some s → Instr.templatesOf s.body = [])
    (indent : String) (n : Nat) {code : List Instr} (hcode : Instr.templatesOf code = [])
    (hshorter : ∀ key ∈ Instr.sectionKeysOf code, ∃ s, Entries.get? p.sections key = some s ∧
      s.source.length < n) {s : State} (hs : Calm s) :
    Finishes s (n + 1) fun depth => Render.code e depth p code indent := by
  induction n using Nat.strong_induction_on generalizing code s with
  | _ n ih =>
    refine finishes_code (finishes_instrs code ⟨hcode, ?_⟩ hs)
    intro key hkey body hget s hs
    obtain ⟨found, hfound, hlt⟩ := hshorter key hkey
    cases hget.symm.trans hfound
    exact (ih _ hlt (htemplates key _ hget) (hdescends key _ hget) hs).mono hlt

end Render

namespace Program

/-- Without partials and parents no code names a template. -/
theorem templatesOf_of_compile {digest : String → String} {source name : String}
    {defaults : List Pragma} {settings : CompileSettings} {tree : Tree} {p : Program}
    (h : compile digest defaults settings name source tree.nodes = .ok p)
    (hown : Token.EverywhereIn (·.kind.IsOwn) tree.nodes) :
    Instr.templatesOf p.body = [] ∧
      ∀ key s, Entries.get? p.sections key = some s → Instr.templatesOf s.body = [] := by
  obtain ⟨⟨_, _, hwalked⟩, hstems⟩ := stems_of_compile h
  refine ⟨hwalked.templates hown, fun key s hs => ?_⟩
  obtain ⟨t, hstems⟩ := hstems key s hs
  obtain ⟨_, _, hwalked⟩ := hstems.walked
  exact hwalked.templates (hstems.tag.within.everywhere_of hown).nodes

/-- **Rendering without partials finishes.** The sections of a compiled template
refer to sections with shorter texts, so that no reference leads back: this asks
of the digest that it tells these texts apart. If there are no partial and no
parent tags in the template, a run of it against plain data without overrides
ends, and all depths from that of its length on make it end alike. -/
theorem render_finishes {delimiters : Delimiters} {digest : String → String}
    {source name : String} {defaults pragmas : List Pragma} {settings : CompileSettings}
    {ts : List Token} {tree : Tree} {p : Program} (hd : delimiters.Accepted)
    (hscan : Token.scan delimiters source = .ok ts) (htree : Tree.ofTokens pragmas ts = .ok tree)
    (hcompile : compile digest defaults settings name source tree.nodes = .ok p)
    (hfree : Set.InjOn digest (tree.sectionTexts source)) :
    p.Descends ∧ (∀ key, ¬ Relation.TransGen p.RefersTo key key) ∧
    ((∀ t ∈ ts, t.kind ≠ .partialTag ∧ t.kind ≠ .parentTag) →
      ∀ (e : Engine) (indent : String) (s : Render.State),
        (∀ frame ∈ s.context.frames, frame.Plain) → s.context.overrides = [] →
        ∃ result, result ≠ .error .exhausted ∧ ∀ depth ≥ source.length + 2,
          outcome (Render.code e depth p p.body indent) s = (result, s)) := by
  have hkeyed := keyed_of_parsed hd hscan htree hfree
  have hdescends := descends_of_compile hkeyed hcompile
  refine ⟨hdescends, hdescends.not_refersTo_self, fun hts e indent s hframes hoverrides => ?_⟩
  have hown : Token.EverywhereIn (·.kind.IsOwn) tree.nodes :=
    (Tree.grown_of_scan hscan htree).everywhere_kind hts ⟨nofun, nofun⟩ ⟨nofun, nofun⟩
  obtain ⟨hbody, hsections⟩ := templatesOf_of_compile hcompile hown
  have hshorter : ∀ key ∈ Instr.sectionKeysOf p.body, ∃ s,
      Entries.get? p.sections key = some s ∧ s.source.length < source.length + 1 := by
    intro key hkey
    obtain ⟨found, hfound, hle⟩ := exists_section_of_body hkeyed hcompile hkey
    exact ⟨found, hfound, Nat.lt_succ_of_le hle⟩
  obtain ⟨result, hends, houtcome⟩ :=
    Render.finishes_of_descends hdescends hsections indent _ hbody hshorter ⟨hframes, hoverrides⟩
  refine ⟨result, ?_, houtcome⟩
  cases hends <;> nofun

/-! ### A section that is referred to from two places -/

/-- A section inside another one, and again inside an inverted section. -/
def sharedInside : String :=
  "\x7b\x7b#a\x7d\x7d\x7b\x7b#b\x7d\x7d\x7b\x7b.\x7d\x7d\x7b\x7b/b\x7d\x7d\x7b\x7b/a\x7d\x7d" ++
    "\x7b\x7b^c\x7d\x7d\x7b\x7b#b\x7d\x7d\x7b\x7b.\x7d\x7d\x7b\x7b/b\x7d\x7d\x7b\x7b/c\x7d\x7d"

/-- It is rendered alike at every depth from its length on. -/
theorem render_finishes_of_shared :
    let digest := Sha256.ofText
    let e := Engine.standard .inert digest 0
    let data := Value.map [("a", .list [.str "x", .str "y"]), ("b", .list [.str "1", .str "2"])]
    let s : Render.State := ⟨⟨[data], [], false⟩, .ofFiles (.empty "" [])⟩
    ∃ ts tree p, Token.scan .standard sharedInside = .ok ts ∧ Tree.ofTokens [] ts = .ok tree ∧
      compile digest [] e.compileSettings "" sharedInside tree.nodes = .ok p ∧
      Set.InjOn digest (tree.sectionTexts sharedInside) ∧
      (∀ t ∈ ts, t.kind ≠ .partialTag ∧ t.kind ≠ .parentTag) ∧ p.Descends ∧
      ∀ depth ≥ sharedInside.length + 2,
        (outcome (Render.code e depth p p.body "") s).1.toOption = some "121212" := by
  intro digest e data s
  -- one run tells what is asked about the template and its text
  have hrun : ((Token.scan .standard sharedInside).toOption.bind fun ts =>
      (Tree.ofTokens [] ts).toOption.bind fun tree =>
        (compile digest [] e.compileSettings "" sharedInside tree.nodes).toOption.map fun p =>
          (ts.all fun t => t.kind ≠ .partialTag ∧ t.kind ≠ .parentTag,
            (outcome (Render.code e (sharedInside.length + 2) p p.body "") s).1.toOption,
            tree.visitedTexts sharedInside)) =
      some (true, some "121212", ["\n\x7b\x7b#b\x7d\x7d\x7b\x7b.\x7d\x7d\x7b\x7b/b\x7d\x7d",
        "\n\x7b\x7b.\x7d\x7d", "\n\x7b\x7b.\x7d\x7d"]) := by
    decide +kernel
  obtain ⟨ts, hscan, hrun⟩ := exists_of_toOption_bind hrun
  obtain ⟨tree, htree, hrun⟩ := exists_of_toOption_bind hrun
  obtain ⟨p, hcompile, hrun⟩ := exists_of_toOption_map hrun
  obtain ⟨hown, hrun⟩ := Prod.mk.inj hrun
  obtain ⟨htext, htexts⟩ := Prod.mk.inj hrun
  have hown : ∀ t ∈ ts, t.kind ≠ .partialTag ∧ t.kind ≠ .parentTag := by simpa using hown
  have hfree : Set.InjOn digest (tree.sectionTexts sharedInside) := by
    refine Tree.injOn_sectionTexts hscan htree ?_
    rw [htexts]
    decide +kernel
  have hplain : ∀ frame ∈ [data], frame.Plain := by
    have hlist (texts : List String) : (Value.list (texts.map .str)).Plain := by
      refine .list fun item hitem => ?_
      obtain ⟨text, -, rfl⟩ := List.mem_map.1 hitem
      exact .str text
    rw [List.forall_mem_singleton]
    refine .map (List.forall_mem_cons.2 ⟨hlist ["x", "y"], ?_⟩)
    exact List.forall_mem_singleton.2 (hlist ["1", "2"])
  obtain ⟨hdescends, -, hfinishes⟩ :=
    render_finishes Delimiters.accepted_standard hscan htree hcompile hfree
  obtain ⟨result, -, houtcome⟩ := hfinishes hown e "" s hplain rfl
  refine ⟨ts, tree, p, hscan, htree, hcompile, hfree, hown, hdescends, fun depth hdepth => ?_⟩
  rw [houtcome _ le_rfl] at htext
  rw [houtcome depth hdepth]
  exact htext

end Program

end Mustache
