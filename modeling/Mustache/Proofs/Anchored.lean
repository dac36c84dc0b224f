import Mustache.Proofs.Blocks
import Mustache.Proofs.Pipelines
import Mustache.Proofs.SharedSections
/-!
# Mustache — anchored templates

With the pragma for it, a name that begins with a dot is looked up in the top
frame and nowhere else. A template in which every name does, without filters, is
anchored: over plain data it renders alike against any two contexts with one top
frame, whatever is below (`Engine.IsAnchored.renders_alike`).

A section puts what it found on top, in both contexts, and what it found is part of
the frame that was on top before. So the top frames stay the same on the way in
(`Context.SameTop.push`), and nothing that lies below them is ever reached. On the
way out nothing has to be said: anchored code leaves the state as it was.
-/

namespace Mustache

/-! ## Looking in the top frame -/

/-- It is looked up in the top frame. -/
def Lookup.InTop : Lookup → Prop
  | .top | .findAnchored _ => True
  | .find _ | .findDotted _ => False

namespace Context

/-- **Two contexts have the same top frame**, plain data, and pass over null
alike. Below it they may differ. -/
structure SameTop (c c' : Context) : Prop where
  frame : ∃ v, c.top? = some v ∧ c'.top? = some v ∧ v.Plain
  skipNull : c'.skipNull = c.skipNull

namespace SameTop

variable {c c' : Context} {lookup : Lookup}

/-- The same value on top of both. -/
theorem push (h : c.SameTop c') {v : Value} (hv : v.Plain) : (c.push v).SameTop (c'.push v) :=
  ⟨⟨v, rfl, rfl, hv⟩, h.skipNull⟩

/-- **What is looked up in the top frame is the same in both.** -/
theorem resolve_eq (h : c.SameTop c') (host : Host) (hlookup : lookup.InTop) :
    c'.resolve host lookup = c.resolve host lookup := by
  obtain ⟨v, hv, hv', -⟩ := h.frame
  cases lookup with
  | top =>
    unfold resolve
    rw [hv, hv']
  | findAnchored id =>
    unfold resolve findAnchored
    rw [hv, hv', h.skipNull]
  | find id | findDotted id => exact hlookup.elim

/-- What is found in the top frame is plain data. -/
theorem plain_of_resolve (h : c.SameTop c') {host : Host} (hlookup : lookup.InTop) {u : Value}
    (hu : c.resolve host lookup = .ok u) : u.Plain := by
  obtain ⟨v, hv, -, hplain⟩ := h.frame
  -- it would be found as well if there were no other frame
  let alone : Context := ⟨[v], [], c.skipNull⟩
  have hsame : c.SameTop alone := ⟨⟨v, hv, rfl, hplain⟩, rfl⟩
  have hroots : ∀ root ∈ [v], root.Plain := List.forall_mem_singleton.2 hplain
  have hdrawn : alone.DrawnFrom [v] := fun frame hframe => .root hframe
  exact (hdrawn.resolve hroots ((hsame.resolve_eq host hlookup).trans hu)).plain hroots

end SameTop

end Context

/-! ## Anchored code -/

namespace Instr

/-- **Anchored code**: texts, variables and sections of both kinds, which look in
the top frame and have no filters. -/
inductive Anchored : List Instr → Prop
  | nil : Anchored []
  | text {value : String} {starts : Bool} {code : List Instr} :
      Anchored code → Anchored (.text value starts :: code)
  | interpolate {lookup : Lookup} {escape starts : Bool} {code : List Instr} :
      lookup.InTop → Anchored code → Anchored (.interpolate lookup [] escape starts :: code)
  | enter {lookup : Lookup} {key : String} {code : List Instr} :
      lookup.InTop → Anchored code → Anchored (.enter lookup [] key :: code)
  | inverted {lookup : Lookup} {body code : List Instr} :
      lookup.InTop → Anchored body → Anchored code →
      Anchored (.inverted lookup [] body :: code)

end Instr

/-- The sections on file are anchored. -/
def FiledAnchored (sections : Entries SectionBody) : Prop :=
  ∀ key body, Entries.get? sections key = some body → Instr.Anchored body.body

theorem FiledAnchored.insert {sections : Entries SectionBody} (h : FiledAnchored sections)
    {body : SectionBody} (hbody : Instr.Anchored body.body) (key : String) :
    FiledAnchored (Entries.insert sections key body) := by
  intro other found hfound
  rcases Entries.get?_insert hfound with ⟨-, rfl⟩ | ⟨-, hfound⟩
  · exact hbody
  · exact h other found hfound

namespace Render

variable {e : Engine} {p : Program} {again : Runner} {indent : String} {s t : State}

/-- Two runs stand at these states. -/
def At (s t : State) (s' t' : State) : Prop := s' = s ∧ t' = t

/-- **A run is the same from two states**: it has one result, and leaves each state
as it was. -/
abbrev SameFrom (s t : State) (run : Render String) : Prop := Matches (At s t) Eq run run

/-- A state with one more frame. -/
def State.push (s : State) (v : Value) : State := { s with context := s.context.push v }

/-- Anchored code of a program runs the same wherever the top frames are the
same. -/
def RunsAnchored (p : Program) (again : Runner) : Prop :=
  ∀ {code : List Instr} {indent : String}, Instr.Anchored code →
    ∀ {s t : State}, s.context.SameTop t.context → SameFrom s t (again p code indent)

theorem SameFrom.inFrame {v : Value} {run : Render String}
    (h : SameFrom (s.push v) (t.push v) run) : SameFrom s t (inFrame v run) := by
  rintro _ _ ⟨rfl, rfl⟩
  obtain ⟨hresult, hs, ht⟩ := h _ _ ⟨rfl, rfl⟩
  unfold Render.inFrame
  rw [outcome_between, outcome_between]
  refine ⟨hresult, ?_, ?_⟩
  · exact congrArg (fun u : State => { u with context := u.context.pop }) hs
  · exact congrArg (fun u : State => { u with context := u.context.pop }) ht

/-- A body that runs the same with each value on top does so for all of them, one
after the other. -/
theorem SameFrom.forEach {body : Render String} {values : List Value}
    (h : ∀ v ∈ values, SameFrom (s.push v) (t.push v) body) :
    SameFrom s t (forEach body values) := by
  induction values with
  | nil => exact .pure rfl
  | cons v values ih =>
    obtain ⟨hv, hvalues⟩ := List.forall_mem_cons.1 h
    exact .append hv.inFrame (ih hvalues)

section Top

variable (htop : s.context.SameTop t.context)

include htop

/-- What a tag looks up in the top frame is found in both runs, and is plain
data. -/
theorem sameFrom_resolve {lookup : Lookup} (hlookup : lookup.InTop) :
    Matches (At s t) (Both Value.Plain) (resolve e lookup) (resolve e lookup) := by
  rintro _ _ ⟨rfl, rfl⟩
  rw [outcome_resolve, outcome_resolve, htop.resolve_eq e.host hlookup]
  refine ⟨?_, rfl, rfl⟩
  cases hresolve : Context.resolve e.host _ lookup with
  | error err => exact .error _
  | ok v => exact .ok ⟨rfl, htop.plain_of_resolve hlookup hresolve⟩

/-- A section runs its body for parts of its value. -/
theorem sameFrom_sectionText (hagain : RunsAnchored p again) {body : SectionBody}
    (hbody : Instr.Anchored body.body) {v : Value} (hv : v.Plain) :
    SameFrom s t (sectionText e again p body v indent) := by
  unfold sectionText
  rw [hv.callable?_eq_none]
  dsimp only
  split
  · exact .pure rfl
  · refine .forEach fun element helement => hagain hbody ?_
    exact htop.push (hv.part (hv.hasPart_of_mem_elements e.host helement))

/-- Each instruction of anchored code looks in the top frame, and leaves it
there. -/
theorem sameFrom_instrs (hagain : RunsAnchored p again) (hfiled : FiledAnchored p.sections)
    {code : List Instr} (hcode : Instr.Anchored code) :
    SameFrom s t (instrs e again p indent code) := by
  have hsettle {v : Value} (hv : v.Plain) : settle e again p.strictCallables v = pure v := by
    unfold settle
    rw [hv.callable?_eq_none]
  induction hcode with
  | nil => exact .pure rfl
  | text _ ih => exact Matches.append (.pure rfl) ih
  | interpolate hlookup _ ih =>
    refine Matches.append ?_ ih
    rw [instr]
    refine .bind (sameFrom_resolve htop hlookup) ?_
    rintro v _ ⟨rfl, hv⟩
    rw [hsettle hv]
    exact .pure rfl
  | @enter lookup key code hlookup _ ih =>
    refine Matches.append ?_ ih
    rw [instr]
    refine .bind (sameFrom_resolve htop hlookup) ?_
    rintro v _ ⟨rfl, hv⟩
    rw [applyFilters, pure_bind]
    -- the body is on file, and what is on file is anchored as well
    cases hget : Entries.get? p.sections key with
    | none => exact .pure rfl
    | some body => exact sameFrom_sectionText htop hagain (hfiled key body hget) hv
  | inverted hlookup _ _ ihbody ih =>
    refine Matches.append ?_ ih
    rw [instr]
    refine .bind (sameFrom_resolve htop hlookup) ?_
    rintro v _ ⟨rfl, -⟩
    rw [applyFilters, pure_bind]
    split
    · exact ihbody
    · exact .pure rfl

end Top

/-- **Anchored code runs the same wherever the top frames are the same**, however
deep sections nest. -/
theorem runsAnchored_code (hfiled : FiledAnchored p.sections) (depth : Nat) :
    RunsAnchored p (Render.code e depth) := by
  intro code indent hcode s t htop
  -- a section runs one depth further down, and from other states: with a value on top
  induction depth generalizing code indent s t with
  | zero => exact .throw _
  | succ depth ih =>
    exact sameFrom_instrs htop (fun hbody _ _ hsame => ih hbody hsame) hfiled hcode

end Render

/-! ## Anchored templates -/

namespace Token

/-- **An anchored node**: text, a comment or a pragma, or a variable or section
whose name begins with a dot and that has no filters. -/
def isAnchored (t : Token) : Bool :=
  match t.kind with
  | .text | .comment | .pragma => true
  | .escaped | .tripleBrace | .ampersand | .sectionTag | .invertedTag =>
    t.name.toList.head? = some '.' && t.filters.isEmpty
  | _ => false

mutual

/-- What can be decided of a token can be decided of all tokens inside it. -/
def decidableEverywhere (P : Token → Prop) [DecidablePred P] :
    (t : Token) → Decidable (Everywhere P t)
  | ⟨_, _, _, _, _, _, _, _, _, _, nodes?⟩ =>
    @instDecidableAnd _ _ (inferInstanceAs (Decidable (P _))) (decidableEverywhereInside P nodes?)

def decidableEverywhereInside (P : Token → Prop) [DecidablePred P] :
    (nodes? : Option (List Token)) → Decidable (EverywhereInside P nodes?)
  | none => .isTrue trivial
  | some ts => decidableEverywhereIn P ts

def decidableEverywhereIn (P : Token → Prop) [DecidablePred P] :
    (ts : List Token) → Decidable (EverywhereIn P ts)
  | [] => .isTrue trivial
  | t :: ts => @instDecidableAnd _ _ (decidableEverywhere P t) (decidableEverywhereIn P ts)

end

instance (P : Token → Prop) [DecidablePred P] (ts : List Token) : Decidable (EverywhereIn P ts) :=
  decidableEverywhereIn P ts

end Token

namespace Compile

open Instr (Anchored)
open Token (EverywhereIn IsPlain)

variable {digest : String → String} {source : String} {pragmas : PragmaSet} {t : Token}

/-- With the pragma a name that begins with a dot looks in the top frame. -/
theorem inTop_lookupOf (hon : pragmas.has .anchoredDot = true) {id : String}
    (hdot : id.toList.head? = some '.') : (lookupOf pragmas id).InTop := by
  unfold lookupOf
  split
  · trivial
  · rw [if_pos ⟨hon, hdot⟩]
    trivial

theorem filtersOf_eq_nil {names : List String} (h : names.isEmpty = true) :
    filtersOf pragmas names = [] := by
  rw [List.isEmpty_iff.1 h]
  rfl

/-- What the tag of an anchored section looks up, and its filters. -/
theorem anchored_section (ht : t.isAnchored = true)
    (hkind : t.kind = .sectionTag ∨ t.kind = .invertedTag) :
    t.name.toList.head? = some '.' ∧ t.filters.isEmpty = true := by
  unfold Token.isAnchored at ht
  rcases hkind with hkind | hkind <;>
  · rw [hkind] at ht
    simpa using ht

theorem anchored_leafCode? (hon : pragmas.has .anchoredDot = true) (ht : t.isAnchored = true)
    {starts : Bool} {own code : List Instr} (hown : leafCode? pragmas starts t = some own)
    (hcode : Anchored code) : Anchored (own ++ code) := by
  unfold Token.isAnchored at ht
  unfold leafCode? at hown
  cases hkind : t.kind <;> rw [hkind] at ht hown <;> cases hown
  case text => exact .text hcode
  case comment => exact hcode
  case escaped | tripleBrace | ampersand =>
    obtain ⟨hdot, hfilters⟩ := Bool.and_eq_true_iff.1 ht
    rw [filtersOf_eq_nil hfilters]
    exact .interpolate (inTop_lookupOf hon (of_decide_eq_true hdot)) hcode
  case partialTag => cases ht

theorem has_pragmasAfter {q : Pragma} {ps : List Token} :
    (pragmasAfter pragmas ps).has q = true ↔
      pragmas.has q = true ∨ ∃ t ∈ ps, t.name = q.name := by
  induction ps generalizing pragmas with
  | nil => simp [pragmasAfter]
  | cons t ps ih =>
    rw [pragmasAfter, List.foldl_cons, ← pragmasAfter, ih, PragmaSet.has_enable,
      List.exists_mem_cons_iff, eq_comm, or_comm (b := pragmas.has q = true), or_assoc]

/-- **Anchored nodes make anchored code** where the pragma is in effect, and what
they file is anchored. -/
theorem Walked.anchored : ∀ {s s' : State} {ts : List Token} {code : List Instr},
    Walked digest source s ts code s' → EverywhereIn (·.isAnchored = true) ts →
    EverywhereIn IsPlain ts → s.pragmas.has .anchoredDot = true → FiledAnchored s.sections →
    Anchored code ∧ FiledAnchored s'.sections
  | _, _, _, _, .nil, _, _, _, hfiled => ⟨.nil, hfiled⟩
  | _, _, _, _, .pragma hkind _, _, hplain, _, _ => absurd hkind hplain.1.self
  | _, _, _, _, .leaf hleaf hrest, hts, hplain, hon, hfiled => by
    obtain ⟨hcode, hfiled'⟩ := hrest.anchored hts.2 hplain.2 hon hfiled
    exact ⟨anchored_leafCode? hon hts.1.self hleaf hcode, hfiled'⟩
  | _, _, _, _, .newSection hkind _ hbody hrest, hts, hplain, hon, hfiled => by
    obtain ⟨hdot, hfilters⟩ := anchored_section hts.1.self (.inl hkind)
    obtain ⟨hinside, hfiled₁⟩ := hbody.anchored hts.1.nodes hplain.1.nodes hon hfiled
    rw [← hbody.pragmas_eq hplain.1.nodes] at hon
    obtain ⟨hcode, hfiled'⟩ := hrest.anchored hts.2 hplain.2 hon (hfiled₁.insert hinside _)
    rw [filtersOf_eq_nil hfilters]
    exact ⟨.enter (inTop_lookupOf hon hdot) hcode, hfiled'⟩
  | _, _, _, _, .knownSection hkind _ hrest, hts, hplain, hon, hfiled => by
    obtain ⟨hdot, hfilters⟩ := anchored_section hts.1.self (.inl hkind)
    obtain ⟨hcode, hfiled'⟩ := hrest.anchored hts.2 hplain.2 hon hfiled
    rw [filtersOf_eq_nil hfilters]
    exact ⟨.enter (inTop_lookupOf hon hdot) hcode, hfiled'⟩
  | _, _, _, _, .inverted hkind hbody hrest, hts, hplain, hon, hfiled => by
    obtain ⟨hdot, hfilters⟩ := anchored_section hts.1.self (.inr hkind)
    obtain ⟨hinside, hfiled₁⟩ := hbody.anchored hts.1.nodes hplain.1.nodes hon hfiled
    have hon₁ := hbody.pragmas_eq hplain.1.nodes ▸ hon
    obtain ⟨hcode, hfiled'⟩ := hrest.anchored hts.2 hplain.2 hon₁ hfiled₁
    rw [filtersOf_eq_nil hfilters]
    exact ⟨.inverted (inTop_lookupOf hon hdot) hinside hcode, hfiled'⟩
  | _, _, _, _, .extend hkind _ _, hts, _, _, _ => by
    simpa [Token.isAnchored, hkind] using hts.1.self
  | _, _, _, _, .block hkind _ _, hts, _, _, _ => by
    simpa [Token.isAnchored, hkind] using hts.1.self

end Compile

namespace Engine

open Token (EverywhereIn)

/-- **A text is an anchored template**: the pragma is in effect, as the engine has
it or the template, and all nodes are anchored. -/
def IsAnchored (e : Engine) (text : String) (asked : Option Delimiters) : Prop :=
  ∃ ts tree, Token.scan (e.startingDelimiters asked) text = .ok ts ∧
    Tree.ofTokens e.pragmas ts = .ok tree ∧
    (.anchoredDot ∈ e.pragmas ∨
      ∃ t ∈ tree.nodes, t.kind = .pragma ∧ t.name = Pragma.anchoredDot.name) ∧
    EverywhereIn (·.isAnchored = true) tree.nodes

instance (e : Engine) (text : String) (asked : Option Delimiters) :
    Decidable (e.IsAnchored text asked) :=
  decidable_of_iff
    (((Token.scan (e.startingDelimiters asked) text).toOption.bind fun ts =>
      (Tree.ofTokens e.pragmas ts).toOption.map fun tree =>
        decide ((.anchoredDot ∈ e.pragmas ∨
          ∃ t ∈ tree.nodes, t.kind = .pragma ∧ t.name = Pragma.anchoredDot.name) ∧
          EverywhereIn (·.isAnchored = true) tree.nodes)) = some true)
    (Tree.exists_parsed_iff _)

variable {e : Engine} {text : String} {asked : Option Delimiters}

/-- **An anchored template compiles** to anchored code, with anchored sections on
file. -/
theorem IsAnchored.exists_compile (h : e.IsAnchored text asked) (name : String) :
    ∃ p, e.compile name text asked = .ok p ∧ Instr.Anchored p.body ∧
      FiledAnchored p.sections := by
  obtain ⟨ts, tree, hscan, htree, hon, hnodes⟩ := h
  obtain ⟨p, hp⟩ := Program.exists_compile hscan htree e.digest e.compileSettings
  refine ⟨p, (compile_of_parsed hscan htree name).trans hp, ?_⟩
  obtain ⟨body, s, hwalked, rfl⟩ := Program.exists_walked hp
  -- all pragmas are in effect before the first other node
  obtain ⟨ps, others, hsplit, hps, hplain⟩ := Tree.pragmas_first hscan htree
  rw [hsplit] at hwalked hnodes hon
  have hothers : EverywhereIn (·.isAnchored = true) others :=
    Token.everywhereIn_iff.2 fun t ht =>
      Token.everywhereIn_iff.1 hnodes t (List.mem_append_right ps ht)
  refine (hwalked.after_pragmas hps).anchored hothers hplain ?_ nofun
  refine Compile.has_pragmasAfter.2 (hon.imp PragmaSet.has_ofPragmas.2 ?_)
  rintro ⟨t, ht, hkind, hname⟩
  rcases List.mem_append.1 ht with ht | ht
  · exact ⟨t, ht, hname⟩
  · exact absurd hkind (Token.everywhereIn_iff.1 hplain t ht).self

/-- **An anchored template sees only the top frame.** It renders alike, with any
indent and any depth, against two contexts with the same top frame of plain data
that pass over null alike, whatever their lower frames and overrides are. What is in
the stores makes no difference either, and both runs leave everything as it was. -/
theorem IsAnchored.renders_alike (h : e.IsAnchored text asked) (name : String) :
    ∃ p, e.compile name text asked = .ok p ∧ ∀ (c c' : Context), c.SameTop c' →
      ∀ (store store' : Store) (depth : Nat) (indent : String), ∃ result,
        outcome (Render.code e depth p p.body indent) ⟨c, store⟩ = (result, ⟨c, store⟩) ∧
        outcome (Render.code e depth p p.body indent) ⟨c', store'⟩ = (result, ⟨c', store'⟩) := by
  obtain ⟨p, hp, hbody, hfiled⟩ := h.exists_compile name
  refine ⟨p, hp, fun c c' htop store store' depth indent => ?_⟩
  have hrun : Render.SameFrom ⟨c, store⟩ ⟨c', store'⟩ (Render.code e depth p p.body indent) :=
    Render.runsAnchored_code hfiled depth hbody htop
  obtain ⟨hresult, hs, ht⟩ := hrun.result_eq ⟨rfl, rfl⟩
  exact ⟨_, Prod.ext rfl hs, Prod.ext hresult.symm ht⟩

/-- An anchored template: a list of people with the tags of each. -/
def taggedPeople : String :=
  "[% ANCHORED-DOT ][! all of them ][#.people][.name]:[#.tags] [.][/.tags][^.tags] [{.none}]-" ++
    "[/.tags];[/.people][.title]"

/-- Below the top frame one context has a title, and tags for everyone; the other
has objects of the host. Neither shows. -/
theorem renders_alike_of_people :
    let e := { standard .inert id 0 with delimiters := some ⟨"[", "]"⟩ }
    let people := Value.list
      [.map [("name", .str "A"), ("tags", .list [.str "x", .str "y"])], .map [("name", .str "B")]]
    let top := Value.map [("people", people)]
    let lower := Value.map [("title", .str "low"), ("tags", .str "low"), ("none", .str "low")]
    let c : Context := ⟨[top, lower], [], false⟩
    let c' : Context := ⟨[top, .object 0, .lambda 0], [[]], false⟩
    let store := Store.ofFiles (.empty "" [])
    e.IsAnchored taggedPeople none ∧ c.SameTop c' ∧
      ∃ p, e.compile "people" taggedPeople none = .ok p ∧
        outcome (Render.code e 3 p p.body "") ⟨c, store⟩ = (.ok "A: x y;B: -;", ⟨c, store⟩) ∧
        outcome (Render.code e 3 p p.body "") ⟨c', store⟩ = (.ok "A: x y;B: -;", ⟨c', store⟩) := by
  intro e people top lower c c' store
  have hanchored : e.IsAnchored taggedPeople none := by decide +kernel
  have hpeople : people.Plain := .list <| List.forall_mem_cons.2
    ⟨.map (by simp [Value.Plain.str, Value.Plain.list]),
      List.forall_mem_singleton.2 (.map (by simp [Value.Plain.str]))⟩
  have htop : c.SameTop c' :=
    ⟨⟨top, rfl, rfl, .map (List.forall_mem_singleton.2 hpeople)⟩, rfl⟩
  obtain ⟨p, hp, halike⟩ := hanchored.renders_alike "people"
  obtain ⟨result, hresult, hresult'⟩ := halike c c' htop store store 3 ""
  have htext : ((e.compile "people" taggedPeople none).toOption.bind fun p =>
      (outcome (Render.code e 3 p p.body "") ⟨c, store⟩).1.toOption) = some "A: x y;B: -;" := by
    decide +kernel
  rw [hp] at htext
  have hok : result = .ok "A: x y;B: -;" := by
    rw [← eq_ok_of_toOption htext, hresult]
  rw [hok] at hresult hresult'
  exact ⟨hanchored, htop, p, hp, hresult, hresult'⟩

end Engine

end Mustache
