import Mathlib.Data.List.Forall2
import Mustache.Proofs.Abreast
/-!
# Mustache — programs that render alike

Two programs may differ in the keys under which their sections and
overrides are filed, and yet do the same. `Linked` says that they do: a
relation between keys goes along with the code of both, and what is filed
under related keys is linked again. Nothing is said of entries that no
code refers to, nor of how often one is filed.

The renderer cannot tell linked programs apart (`code_alike`). The two
renders may also work for different engines on different stores, as long
as these give linked programs for the same names and texts (`Twins`). So
the theorem serves wherever two ways to come by a program are compared:
for sections that are filed once or many times, and for programs that are
compiled or taken from a cache.

An indent is written only where an instruction is flagged. Programs whose
flags differ are linked too (`lines` is false then), and render alike
without indent.
-/

namespace Mustache

/-- How the keys of two programs correspond, and whether their lines start
at the same instructions. -/
structure Keying where
  sections : String → String → Prop
  blocks : String → String → Prop
  lines : Bool

namespace Keying

/-- Every key is its own. -/
def same : Keying := ⟨Eq, Eq, true⟩

/-- The overrides of two parent tags correspond. -/
def Overrides (ρ : Keying) : List (String × String) → List (String × String) → Prop :=
  List.Forall₂ fun o o' => o.1 = o'.1 ∧ ρ.blocks o.2 o'.2

end Keying

namespace Instr

mutual

/-- Two instructions correspond. -/
inductive Alike (ρ : Keying) : Instr → Instr → Prop
  | text {value : String} {indent indent' : Bool} :
      (ρ.lines = true → indent = indent') → Alike ρ (.text value indent) (.text value indent')
  | interpolate {lookup : Lookup} {filters : List Filter} {escape indent indent' : Bool} :
      (ρ.lines = true → indent = indent') →
      Alike ρ (.interpolate lookup filters escape indent)
        (.interpolate lookup filters escape indent')
  | enter {lookup : Lookup} {filters : List Filter} {key key' : String} :
      ρ.sections key key' → Alike ρ (.enter lookup filters key) (.enter lookup filters key')
  | inverted {lookup : Lookup} {filters : List Filter} {body body' : List Instr} :
      AllAlike ρ body body' →
      Alike ρ (.inverted lookup filters body) (.inverted lookup filters body')
  | insertPartial {name : TemplateName} {indent : Option String} :
      Alike ρ (.insertPartial name indent) (.insertPartial name indent)
  | extend {name : TemplateName} {os os' : List (String × String)} :
      ρ.Overrides os os' → Alike ρ (.extend name os) (.extend name os')
  | block {name : String} {default default' : List Instr} :
      AllAlike ρ default default' → Alike ρ (.block name default) (.block name default')

/-- Two lists of instructions correspond. -/
inductive AllAlike (ρ : Keying) : List Instr → List Instr → Prop
  | nil : AllAlike ρ [] []
  | cons {i i' : Instr} {is is' : List Instr} :
      Alike ρ i i' → AllAlike ρ is is' → AllAlike ρ (i :: is) (i' :: is')

end

theorem AllAlike.append {ρ : Keying} {is is' js js' : List Instr} (h : AllAlike ρ is is')
    (hmore : AllAlike ρ js js') : AllAlike ρ (is ++ js) (is' ++ js') := by
  induction is generalizing is' with
  | nil => cases h; exact hmore
  | cons i is ih =>
    cases h with
    | cons hi his => exact .cons hi (ih his)

end Instr

namespace Instr

mutual

/-- With the same keys everything corresponds to itself. -/
theorem Alike.refl : ∀ i : Instr, Alike .same i i
  | .text _ _ => .text fun _ => rfl
  | .interpolate _ _ _ _ => .interpolate fun _ => rfl
  | .enter _ _ _ => .enter rfl
  | .inverted _ _ body => .inverted (AllAlike.refl body)
  | .insertPartial _ _ => .insertPartial
  | .extend _ _ => .extend (List.forall₂_same.2 fun _ _ => ⟨rfl, rfl⟩)
  | .block _ default => .block (AllAlike.refl default)

theorem AllAlike.refl : ∀ is : List Instr, AllAlike .same is is
  | [] => .nil
  | i :: is => .cons (Alike.refl i) (AllAlike.refl is)

end

end Instr

/-! ## Programs -/

/-- Two sections do the same: they have the same text under the same
delimiters, which may be asked for, and code that corresponds. -/
structure SectionBody.Alike (asks : Option Delimiters → Prop) (ρ : Keying)
    (s s' : SectionBody) : Prop where
  source : s'.source = s.source
  delimiters : s'.delimiters = s.delimiters
  asked : asks s.delimiters
  body : Instr.AllAlike ρ s.body s'.body

/-- **Linked programs**: their code corresponds, and so does what is filed
under keys that do. -/
structure Program.Linked (asks : Option Delimiters → Prop) (ρ : Keying) (p p' : Program) :
    Prop where
  strict : p'.strictCallables = p.strictCallables
  escaping : p'.escaping = p.escaping
  body : Instr.AllAlike ρ p.body p'.body
  sections : ∀ key key', ρ.sections key key' →
    Option.Rel (SectionBody.Alike asks ρ) (Entries.get? p.sections key)
      (Entries.get? p'.sections key')
  blocks : ∀ key key', ρ.blocks key key' →
    Option.Rel (Instr.AllAlike ρ) (Entries.get? p.blocks key) (Entries.get? p'.blocks key')

/-- Two programs are linked, flags included. -/
def Program.Same (asks : Option Delimiters → Prop) (p p' : Program) : Prop :=
  ∃ ρ : Keying, ρ.lines = true ∧ p.Linked asks ρ p'

/-- A program is linked to itself, if its sections may ask for their
delimiters. -/
theorem Program.Linked.refl {asks : Option Delimiters → Prop} {p : Program}
    (h : ∀ key s, Entries.get? p.sections key = some s → asks s.delimiters) :
    p.Linked asks .same p := by
  refine ⟨rfl, rfl, .refl _, ?_, ?_⟩
  · rintro key _ rfl
    cases hfound : Entries.get? p.sections key with
    | none => exact .none
    | some s => exact .some ⟨rfl, rfl, h key s hfound, .refl _⟩
  · rintro key _ rfl
    cases Entries.get? p.blocks key with
    | none => exact .none
    | some body => exact .some (.refl _)

theorem Program.Same.refl {asks : Option Delimiters → Prop} {p : Program}
    (h : ∀ key s, Entries.get? p.sections key = some s → asks s.delimiters) : p.Same asks p :=
  ⟨.same, rfl, .refl h⟩

/-! ## Contexts -/

section Contexts

variable (asks : Option Delimiters → Prop)

/-- Two overrides do the same. -/
def BlockRef.Alike (b b' : BlockRef) : Prop :=
  ∃ ρ : Keying, b.program.Linked asks ρ b'.program ∧ ρ.blocks b.key b'.key

/-- Two tables of overrides do the same, block by block. -/
def TablesAlike : Entries BlockRef → Entries BlockRef → Prop :=
  List.Forall₂ fun o o' => o.1 = o'.1 ∧ o.2.Alike asks o'.2

/-- Two contexts look the same to templates. -/
structure Context.Alike (c c' : Context) : Prop where
  frames : c'.frames = c.frames
  skipNull : c'.skipNull = c.skipNull
  overrides : List.Forall₂ (TablesAlike asks) c.overrides c'.overrides

end Contexts

section Contexts

variable {asks : Option Delimiters → Prop} {c c' : Context}

theorem Context.Alike.resolve_eq (h : c.Alike asks c') (host : Host) (lookup : Lookup) :
    c'.resolve host lookup = c.resolve host lookup := by
  obtain ⟨hframes, hskip, -⟩ := h
  cases lookup <;>
    simp only [Context.resolve, Context.find, Context.findDotted, Context.findAnchored,
      Context.top?, hframes, hskip]

theorem Context.Alike.push (h : c.Alike asks c') (value : Value) :
    (c.push value).Alike asks (c'.push value) :=
  ⟨congrArg (value :: ·) h.frames, h.skipNull, h.overrides⟩

theorem Context.Alike.pop (h : c.Alike asks c') : c.pop.Alike asks c'.pop :=
  ⟨congrArg List.tail h.frames, h.skipNull, h.overrides⟩

theorem Context.Alike.pushOverrides {table table' : Entries BlockRef} (h : c.Alike asks c')
    (htable : TablesAlike asks table table') :
    (c.pushOverrides table).Alike asks (c'.pushOverrides table') :=
  ⟨h.frames, h.skipNull, .cons htable h.overrides⟩

theorem Context.Alike.popOverrides (h : c.Alike asks c') :
    c.popOverrides.Alike asks c'.popOverrides := by
  refine ⟨h.frames, h.skipNull, ?_⟩
  have htail := List.forall₂_drop 1 h.overrides
  rw [List.drop_one, List.drop_one] at htail
  exact htail

/-- Tables that do the same have the same names. -/
theorem TablesAlike.get? {table table' : Entries BlockRef} (h : TablesAlike asks table table')
    (name : String) :
    Option.Rel (BlockRef.Alike asks) (Entries.get? table name) (Entries.get? table' name) := by
  induction h with
  | nil => exact .none
  | @cons o o' os os' ho _ ih =>
    obtain ⟨key, block⟩ := o
    obtain ⟨key', block'⟩ := o'
    obtain ⟨rfl, hblock⟩ := ho
    by_cases hname : key = name
    · rw [Entries.get?, if_pos hname, Entries.get?, if_pos hname]
      exact .some hblock
    · rw [Entries.get?, if_neg hname, Entries.get?, if_neg hname]
      exact ih

theorem TablesAlike.insert {table table' : Entries BlockRef} (h : TablesAlike asks table table')
    (name : String) {block block' : BlockRef} (hblock : block.Alike asks block') :
    TablesAlike asks (Entries.insert table name block) (Entries.insert table' name block') := by
  induction h with
  | nil => exact .cons ⟨rfl, hblock⟩ .nil
  | @cons o o' os os' ho hos ih =>
    obtain ⟨key, held⟩ := o
    obtain ⟨key', held'⟩ := o'
    obtain ⟨rfl, hheld⟩ := ho
    by_cases hname : key = name
    · rw [Entries.insert, if_pos hname, Entries.insert, if_pos hname]
      exact .cons ⟨rfl, hblock⟩ hos
    · rw [Entries.insert, if_neg hname, Entries.insert, if_neg hname]
      exact .cons ⟨rfl, hheld⟩ ih

/-- The same block is overridden, by overrides that do the same. -/
theorem Context.Alike.override? (h : c.Alike asks c') (name : String) :
    Option.Rel (BlockRef.Alike asks) (c.override? name) (c'.override? name) := by
  unfold Context.override?
  have htables := List.forall₂_reverse_iff.2 h.overrides
  generalize c.overrides.reverse = tables at htables
  generalize c'.overrides.reverse = tables' at htables
  induction htables with
  | nil => exact .none
  | @cons table table' rest rest' htable _ ih =>
    rw [List.findSome?_cons, List.findSome?_cons]
    have hfound := htable.get? name
    generalize Entries.get? table name = found at hfound
    generalize Entries.get? table' name = found' at hfound
    cases hfound with
    | none => exact ih
    | some hblock => exact .some hblock

/-- The tables of two parent tags that correspond. -/
theorem tablesAlike_overrideTable {ρ : Keying} {p p' : Program} (h : p.Linked asks ρ p')
    {os os' : List (String × String)} (hos : ρ.Overrides os os') :
    TablesAlike asks (Render.overrideTable p os) (Render.overrideTable p' os') := by
  unfold Render.overrideTable Entries.ofPairs
  suffices hall : ∀ table table' : Entries BlockRef, TablesAlike asks table table' →
      TablesAlike asks
        ((os.map fun o => (o.1, (⟨p, o.2⟩ : BlockRef))).foldl
          (fun m p => Entries.insert m p.1 p.2) table)
        ((os'.map fun o => (o.1, (⟨p', o.2⟩ : BlockRef))).foldl
          (fun m p => Entries.insert m p.1 p.2) table') from hall [] [] .nil
  induction hos with
  | nil => exact fun _ _ htable => htable
  | cons ho _ ih =>
    intro table table' htable
    rw [List.map_cons, List.map_cons, List.foldl_cons, List.foldl_cons]
    refine ih _ _ ?_
    dsimp only
    rw [← ho.1]
    exact htable.insert _ ⟨ρ, h, ho.2⟩

end Contexts

/-! ## Engines -/

/-- **Twin engines**: they work with the same host, and on related stores
they get linked programs for the same names and texts. -/
structure Twins (asks : Option Delimiters → Prop) (S : Store → Store → Prop) (e e' : Engine) :
    Prop where
  host : e'.host = e.host
  escape : e'.escape = e.escape
  none : asks none
  actions : ∀ ref delimiters args, asks delimiters →
    (e.host.callInSection ref ⟨delimiters⟩ args).Asks asks
  partials : ∀ name, Matches S (Option.Rel (Program.Same asks)) (e.partialProgram name)
    (e'.partialProgram name)
  lambdas : ∀ text delimiters, asks delimiters →
    Matches S (Program.Same asks) (e.lambdaProgram text delimiters)
      (e'.lambdaProgram text delimiters)

/-! ## The renderer, function by function -/

namespace Render

/-- Two renders are at the same point. -/
structure StatesAlike (asks : Option Delimiters → Prop) (S : Store → Store → Prop)
    (s s' : State) : Prop where
  context : s.context.Alike asks s'.context
  store : S s.store s'.store

/-- Two ways to run instructions from another place give the same for
linked programs, without indent or with the same flags. -/
def RunnersAlike (asks : Option Delimiters → Prop) (S : Store → Store → Prop)
    (again again' : Runner) : Prop :=
  ∀ {ρ : Keying} {p p' : Program} {is is' : List Instr} {indent : String},
    p.Linked asks ρ p' → Instr.AllAlike ρ is is' → ρ.lines = true ∨ indent = "" →
    Matches (StatesAlike asks S) Eq (again p is indent) (again' p' is' indent)

section Blocks

variable {asks : Option Delimiters → Prop} {S : Store → Store → Prop} {α β : Type}
variable {V : α → β → Prop}

/-- Work that matches on the stores matches as part of a render. -/
theorem matches_onStore {work : OnStore α} {work' : OnStore β} (h : Matches S V work work') :
    Matches (StatesAlike asks S) V (onStore work) (onStore work') :=
  matches_onStore_of (fun _ _ hst => hst.store) (fun _ _ _ _ hst hafter => ⟨hst.context, hafter⟩) h

/-- What is done to the context before and after keeps it alike. -/
theorem matches_between {enter enter' leave leave' : Context → Context} {run run' : Render α}
    (henter : ∀ c c', c.Alike asks c' → (enter c).Alike asks (enter' c'))
    (hleave : ∀ c c', c.Alike asks c' → (leave c).Alike asks (leave' c'))
    (h : Matches (StatesAlike asks S) Eq run run') :
    Matches (StatesAlike asks S) Eq (between enter leave run) (between enter' leave' run') :=
  matches_between_of (fun _ _ hst => ⟨henter _ _ hst.context, hst.store⟩)
    (fun _ _ hst => ⟨hleave _ _ hst.context, hst.store⟩) h

theorem matches_inFrame (value : Value) {run run' : Render α}
    (h : Matches (StatesAlike asks S) Eq run run') :
    Matches (StatesAlike asks S) Eq (inFrame value run) (inFrame value run') :=
  matches_between (fun _ _ hc => hc.push value) (fun _ _ hc => hc.pop) h

theorem matches_withOverrides {table table' : Entries BlockRef}
    (htable : TablesAlike asks table table') {run run' : Render α}
    (h : Matches (StatesAlike asks S) Eq run run') :
    Matches (StatesAlike asks S) Eq (withOverrides table run) (withOverrides table' run') :=
  matches_between (fun _ _ hc => hc.pushOverrides htable) (fun _ _ hc => hc.popOverrides) h

end Blocks

section Functions

variable {asks : Option Delimiters → Prop} {S : Store → Store → Prop} {e e' : Engine}
variable {again again' : Runner}

section

variable (h : Twins asks S e e')

include h

theorem matches_resolve (lookup : Lookup) :
    Matches (StatesAlike asks S) Eq (resolve e lookup) (resolve e' lookup) := by
  intro s t hst
  have hresolve := hst.context.resolve_eq e.host lookup
  unfold resolve
  rw [outcome_bind, outcome_bind, outcome_get, outcome_get, andThen_ok, andThen_ok, h.host,
    hresolve]
  exact matches_ofExcept _ s t hst

end

section

variable (hagain : RunnersAlike asks S again again')

include hagain

theorem matches_whole {p p' : Program} (hp : p.Same asks p') (indent : String) :
    Matches (StatesAlike asks S) Eq (whole again p indent) (whole again' p' indent) := by
  obtain ⟨ρ, hlines, hlinked⟩ := hp
  exact hagain hlinked hlinked.body (.inl hlines)

theorem matches_overriding {block block' : BlockRef} (hblock : block.Alike asks block') :
    Matches (StatesAlike asks S) Eq (overriding again block) (overriding again' block') := by
  obtain ⟨ρ, hlinked, hkeys⟩ := hblock
  have hfound := hlinked.blocks _ _ hkeys
  unfold overriding
  generalize Entries.get? block.program.blocks block.key = found at hfound
  generalize Entries.get? block'.program.blocks block'.key = found' at hfound
  cases hfound with
  | none => exact Matches.pure rfl
  | some hbody => exact hagain hlinked hbody (.inr rfl)

variable (h : Twins asks S e e')

include h

theorem matches_given (text : String) {asked : Option Delimiters} (hasked : asks asked) :
    Matches (StatesAlike asks S) Eq (given e again text asked) (given e' again' text asked) :=
  Matches.bind (matches_onStore (h.lambdas text asked hasked)) fun _ _ hp =>
    matches_whole hagain hp ""

/-- Renders of twin engines go abreast. -/
theorem abreast : Abreast (StatesAlike asks S) asks e e' again again' where
  host := h.host
  none := h.none
  actions := h.actions
  resolve := matches_resolve h
  given text _ hasked := matches_given hagain h text hasked
  inFrame value _ _ hrun := matches_inFrame value hrun

theorem matches_parent {ρ : Keying} {p p' : Program} {os os' : List (String × String)}
    (hp : p.Linked asks ρ p') (hos : ρ.Overrides os os') (name : TemplateName) (indent : String) :
    Matches (StatesAlike asks S) Eq (parent e again p name os indent)
      (parent e' again' p' name os' indent) := by
  unfold parent
  rw [hp.strict]
  refine Matches.bind_same ((abreast hagain h).templateName _ name) fun name => ?_
  refine Matches.bind (matches_onStore (h.partials name)) ?_
  intro found found' hfound
  cases hfound with
  | none => exact Matches.pure rfl
  | some hparent =>
    have hempty : os'.isEmpty = os.isEmpty := by cases hos <;> rfl
    dsimp only
    rw [hempty]
    split
    · exact matches_whole hagain hparent indent
    · exact matches_withOverrides (tablesAlike_overrideTable hp hos)
        (matches_whole hagain hparent indent)

omit hagain h in
/-- A flag does not count where there is no indent. -/
theorem indent_eq {ρ : Keying} {flag flag' : Bool} {indent : String}
    (hflag : ρ.lines = true → flag = flag') (hlines : ρ.lines = true ∨ indent = "") :
    (if flag then indent else "") = if flag' then indent else "" := by
  rcases hlines with hlines | hlines
  · rw [hflag hlines]
  · rw [hlines, ite_self, ite_self]

end

mutual

theorem matches_instrs (hagain : RunnersAlike asks S again again') (h : Twins asks S e e')
    {ρ : Keying} {p p' : Program} {indent : String} (hp : p.Linked asks ρ p')
    (hlines : ρ.lines = true ∨ indent = "") :
    ∀ (is is' : List Instr), Instr.AllAlike ρ is is' →
      Matches (StatesAlike asks S) Eq (instrs e again p indent is) (instrs e' again' p' indent is')
  | [], _, .nil => Matches.pure rfl
  | i :: is, i' :: is', .cons hi his => by
    exact Matches.append (matches_instr hagain h hp hlines i i' hi)
      (matches_instrs hagain h hp hlines is is' his)

theorem matches_instr (hagain : RunnersAlike asks S again again') (h : Twins asks S e e')
    {ρ : Keying} {p p' : Program} {indent : String} (hp : p.Linked asks ρ p')
    (hlines : ρ.lines = true ∨ indent = "") :
    ∀ (i i' : Instr), i.Alike ρ i' →
      Matches (StatesAlike asks S) Eq (instr e again p indent i) (instr e' again' p' indent i')
  | .text value flag, .text _ flag', .text hflag => by
    unfold instr
    rw [indent_eq hflag hlines]
    exact Matches.pure rfl
  | .interpolate lookup filters escape flag, .interpolate _ _ _ flag', .interpolate hflag => by
    have hescaped (text : String) : escaped e' p' text = escaped e p text := by
      unfold escaped
      rw [hp.escaping, h.escape]
    unfold instr
    rw [indent_eq hflag hlines, hp.strict]
    refine Matches.bind_same (matches_resolve h lookup) fun value => ?_
    refine Matches.bind_same ((abreast hagain h).settle _ value) fun value => ?_
    refine Matches.bind_same ((abreast hagain h).applyFilters _ value filters) fun value => ?_
    dsimp only
    rw [h.host, hescaped]
    exact Matches.pure rfl
  | .enter lookup filters key, .enter _ _ key', .enter hkey => by
    -- what two keys name is on file in both programs or in neither
    have hfound := hp.sections _ _ hkey
    unfold instr
    rw [hp.strict]
    refine Matches.bind_same (matches_resolve h lookup) fun value => ?_
    refine Matches.bind_same ((abreast hagain h).applyFilters _ value filters) fun value => ?_
    generalize Entries.get? p.sections key = found at hfound
    generalize Entries.get? p'.sections key' = found' at hfound
    cases hfound with
    | none => exact Matches.pure rfl
    | some hs =>
      exact (abreast hagain h).sectionText hp.strict hs.source hs.delimiters hs.asked
        (hagain hp hs.body hlines) value
  | .inverted lookup filters body, .inverted _ _ body', .inverted hbody => by
    unfold instr
    rw [hp.strict]
    refine Matches.bind_same (matches_resolve h lookup) fun value => ?_
    refine Matches.bind_same ((abreast hagain h).applyFilters _ value filters) fun value => ?_
    split
    · exact matches_instrs hagain h hp hlines body body' hbody
    · exact Matches.pure rfl
  | .insertPartial name captured, .insertPartial _ _, .insertPartial => by
    unfold instr
    rw [hp.strict]
    refine Matches.bind_same ((abreast hagain h).templateName _ name) fun name => ?_
    refine Matches.bind (matches_onStore (h.partials name)) ?_
    intro found found' hfound
    cases hfound with
    | none => exact Matches.pure rfl
    | some hinner => exact matches_whole hagain hinner _
  | .extend name os, .extend _ os', .extend hos => by
    unfold instr
    exact matches_parent hagain h hp hos name indent
  | .block name default, .block _ default', .block hdefault => by
    unfold instr
    -- the override is read off the state, so both runs are opened
    intro s t hst
    have hblock := hst.context.override? name
    rw [outcome_bind, outcome_bind, outcome_get, outcome_get, andThen_ok, andThen_ok]
    generalize s.context.override? name = found at hblock
    generalize t.context.override? name = found' at hblock
    cases hblock with
    | none => exact matches_instrs hagain h hp hlines default default' hdefault s t hst
    | some hblock => exact matches_overriding hagain hblock s t hst

end

end Functions

/-- **The renderer cannot tell linked programs apart**: for twin engines,
from points that are alike, two renders give the same and end at points
that are alike again. -/
theorem runnersAlike_code {asks : Option Delimiters → Prop} {S : Store → Store → Prop}
    {e e' : Engine} (h : Twins asks S e e') (depth : Nat) :
    RunnersAlike asks S (code e depth) (code e' depth) := by
  induction depth with
  | zero => exact fun _ _ _ => Matches.throw _
  | succ depth ih => exact fun hp his hlines => matches_instrs ih h hp hlines _ _ his

end Render

end Mustache
