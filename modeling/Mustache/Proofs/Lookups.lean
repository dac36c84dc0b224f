import Mustache.Proofs.PlainData
import Mustache.Proofs.Stocked
/-!
# Mustache — the lookups of a program

A lookup inside the top frame is an error if its name has no leading dot. The
compiler makes such a lookup of a name with a leading dot only
(`grounded_lookupOf`), and so it is everywhere in a program that an engine has
made (`Program.Made.grounded`). Against plain data, where no procedure is called
on the way, such lookups succeed (`Context.DrawnFrom.exists_resolve`).
-/

namespace Mustache

/-- **A lookup is grounded** if it can be made inside a frame: before the first
dot of its name there is nothing. -/
def Lookup.Grounded : Lookup → Prop
  | .findAnchored id => ∃ names, Context.namesOf id = "" :: names
  | _ => True

/-- The lookups of the name of a template. -/
def TemplateName.lookups : TemplateName → List Lookup
  | .fixed _ => []
  | .dynamic lookup => [lookup]

namespace Instr

mutual

/-- The lookups that an instruction makes. -/
def lookups : Instr → List Lookup
  | .text .. => []
  | .interpolate lookup filters .. | .enter lookup filters _ => lookup :: filters.map (·.lookup)
  | .inverted lookup filters body => lookup :: filters.map (·.lookup) ++ lookupsOf body
  | .insertPartial name _ | .extend name _ => name.lookups
  | .block _ default => lookupsOf default

/-- The lookups that instructions make. -/
def lookupsOf : List Instr → List Lookup
  | [] => []
  | i :: is => lookups i ++ lookupsOf is

end

/-- All lookups of some code are grounded. -/
def Grounded (code : List Instr) : Prop := ∀ lookup ∈ lookupsOf code, lookup.Grounded

namespace Grounded

variable {i : Instr} {is js body : List Instr}

theorem nil : Grounded [] := nofun

theorem cons_iff :
    Grounded (i :: is) ↔ (∀ lookup ∈ lookups i, lookup.Grounded) ∧ Grounded is := by
  unfold Grounded
  rw [lookupsOf, List.forall_mem_append]

theorem append (h : Grounded is) (hmore : Grounded js) : Grounded (is ++ js) := by
  induction is with
  | nil => exact hmore
  | cons i is ih =>
    obtain ⟨hi, his⟩ := cons_iff.1 h
    exact cons_iff.2 ⟨hi, ih his⟩

theorem inverted_iff {lookup : Lookup} {filters : List Filter} :
    Grounded (.inverted lookup filters body :: is) ↔
      (lookup.Grounded ∧ ∀ f ∈ filters, f.lookup.Grounded) ∧ Grounded body ∧
        Grounded is := by
  rw [cons_iff, lookups, List.forall_mem_append, List.forall_mem_cons, List.forall_mem_map,
    and_assoc]
  rfl

theorem block_iff {name : String} :
    Grounded (.block name body :: is) ↔ Grounded body ∧ Grounded is := by
  rw [cons_iff, lookups]
  rfl

end Grounded

end Instr

/-! ## What the compiler makes -/

namespace Compile

open Instr (Grounded)

section

variable {pragmas : PragmaSet}

/-- **A lookup inside the top frame has a leading dot.** -/
theorem grounded_lookupOf (pragmas : PragmaSet) (id : String) :
    (lookupOf pragmas id).Grounded := by
  unfold lookupOf
  split
  · trivial
  · split
    · next hdot =>
      obtain ⟨r, hr⟩ := List.head?_eq_some_iff.1 hdot.2
      have hsplit : Text.splitWhere (· = '.') id.toList =
          [] :: Text.splitWhere (· = '.') r := by
        rw [hr, Text.splitWhere]
        split
        · next hnil => exact absurd hnil (Text.splitWhere_ne_nil _ r)
        · next w ws hcons => rw [hcons, if_pos (by decide)]
      exact ⟨_, by rw [Context.namesOf, hsplit]; rfl⟩
    · split <;> trivial

theorem grounded_filtersOf (names : List String) :
    ∀ f ∈ filtersOf pragmas names, f.lookup.Grounded := by
  intro f hf
  obtain ⟨name, -, rfl⟩ := List.mem_map.1 hf
  exact grounded_lookupOf pragmas name

theorem grounded_templateNameOf (t : Token) :
    ∀ lookup ∈ (templateNameOf pragmas t).lookups, lookup.Grounded := by
  unfold templateNameOf
  split
  · exact List.forall_mem_singleton.2 (grounded_lookupOf pragmas _)
  · exact nofun

/-- The lookup of a tag and those of its filters. -/
theorem grounded_tag (name : String) (names : List String) :
    ∀ lookup ∈ lookupOf pragmas name :: (filtersOf pragmas names).map (·.lookup),
      lookup.Grounded :=
  List.forall_mem_cons.2 ⟨grounded_lookupOf pragmas name,
    List.forall_mem_map.2 (grounded_filtersOf names)⟩

theorem grounded_of_leafCode? {starts : Bool} {t : Token} {code : List Instr}
    (h : leafCode? pragmas starts t = some code) : Grounded code := by
  unfold leafCode? at h
  split at h <;> cases h
  case h_1 => exact Grounded.cons_iff.2 ⟨grounded_templateNameOf t, .nil⟩
  case h_2 => exact .nil
  case h_6 => exact Grounded.cons_iff.2 ⟨List.forall_mem_nil _, .nil⟩
  all_goals exact Grounded.cons_iff.2 ⟨grounded_tag _ _, .nil⟩

end

/-- All that is filed has grounded lookups. -/
structure State.Grounded (s : State) : Prop where
  sections : ∀ entry ∈ s.sections, Instr.Grounded entry.2.body
  blocks : ∀ entry ∈ s.blocks, Instr.Grounded entry.2

namespace State.Grounded

variable {s : State}

theorem insert_section (h : s.Grounded) (key : String) {body : SectionBody}
    (hbody : Instr.Grounded body.body) :
    { s with sections := Entries.insert s.sections key body : State }.Grounded := by
  refine ⟨fun entry hentry => ?_, h.blocks⟩
  rcases Entries.mem_insert hentry with rfl | hentry
  · exact hbody
  · exact h.sections entry hentry

theorem insert_block (h : s.Grounded) (key : String) {body : List Instr}
    (hbody : Instr.Grounded body) :
    { s with blocks := Entries.insertNew s.blocks key body : State }.Grounded := by
  refine ⟨h.sections, fun entry hentry => ?_⟩
  rcases Entries.mem_insertNew hentry with rfl | hentry
  · exact hbody
  · exact h.blocks entry hentry

end State.Grounded

variable {digest : String → String} {source : String}

mutual

/-- **A walk makes grounded lookups only.** -/
theorem Walked.grounded : ∀ {s s' : State} {ts : List Token} {code : List Instr},
    Walked digest source s ts code s' → s.Grounded → s'.Grounded ∧ Grounded code
  | _, _, _, _, .nil, hs => ⟨hs, .nil⟩
  | _, _, _, _, .pragma _ hrest, hs => hrest.grounded ⟨hs.sections, hs.blocks⟩
  | _, _, _, _, .leaf hleaf hrest, hs => by
    obtain ⟨hafter, hcode⟩ := hrest.grounded ⟨hs.sections, hs.blocks⟩
    exact ⟨hafter, (grounded_of_leafCode? hleaf).append hcode⟩
  | _, _, _, _, .newSection _ _ hbody hrest, hs => by
    obtain ⟨hinside, hcodeInside⟩ := hbody.grounded hs
    obtain ⟨hafter, hcode⟩ := hrest.grounded (hinside.insert_section _ hcodeInside)
    exact ⟨hafter, Grounded.cons_iff.2 ⟨grounded_tag _ _, hcode⟩⟩
  | _, _, _, _, .knownSection _ _ hrest, hs => by
    obtain ⟨hafter, hcode⟩ := hrest.grounded hs
    exact ⟨hafter, Grounded.cons_iff.2 ⟨grounded_tag _ _, hcode⟩⟩
  | _, _, _, _, .inverted _ hbody hrest, hs => by
    obtain ⟨hinside, hcodeInside⟩ := hbody.grounded hs
    obtain ⟨hafter, hcode⟩ := hrest.grounded hinside
    exact ⟨hafter, Grounded.inverted_iff.2
      ⟨⟨grounded_lookupOf _ _, grounded_filtersOf _⟩, hcodeInside, hcode⟩⟩
  | _, _, _, _, .extend _ hos hrest, hs => by
    obtain ⟨hafter, hcode⟩ := hrest.grounded (hos.grounded hs)
    exact ⟨hafter, Grounded.cons_iff.2 ⟨grounded_templateNameOf _, hcode⟩⟩
  | _, _, _, _, .block _ hbody hrest, hs => by
    obtain ⟨hinside, hcodeInside⟩ := hbody.grounded hs
    obtain ⟨hafter, hcode⟩ := hrest.grounded hinside
    exact ⟨hafter, Grounded.block_iff.2 ⟨hcodeInside, hcode⟩⟩

theorem WalkedOverrides.grounded :
    ∀ {s s' : State} {ts : List Token} {os : List (String × String)},
      WalkedOverrides digest source s ts os s' → s.Grounded → s'.Grounded
  | _, _, _, _, .nil, hs => hs
  | _, _, _, _, .skip _ hrest, hs => hrest.grounded hs
  | _, _, _, _, .override _ hbody hrest, hs => by
    obtain ⟨hinside, hcode⟩ := hbody.grounded hs
    exact hrest.grounded (hinside.insert_block _ hcode)

end

end Compile

namespace Program

/-- The lookups of a program: those of its body, of its sections and of its
overrides. -/
def lookups (p : Program) : List Lookup :=
  Instr.lookupsOf p.body ++ p.sections.flatMap (fun entry => Instr.lookupsOf entry.2.body) ++
    p.blocks.flatMap fun entry => Instr.lookupsOf entry.2

/-- **The lookups of a program that an engine has made are grounded.** -/
theorem Made.grounded {p : Program} (h : p.Made) : ∀ lookup ∈ p.lookups, lookup.Grounded := by
  obtain ⟨digest, pragmas, settings, name, source, nodes, h⟩ := h.exists_compile
  obtain ⟨body, s, hwalked, rfl⟩ := exists_walked h
  obtain ⟨hfiled, hbody⟩ := hwalked.grounded ⟨nofun, nofun⟩
  intro lookup hmem
  rcases List.mem_append.1 hmem with hmem | hmem
  · rcases List.mem_append.1 hmem with hmem | hmem
    · exact hbody lookup hmem
    · obtain ⟨entry, hentry, hmem⟩ := List.mem_flatMap.1 hmem
      exact hfiled.sections entry hentry lookup hmem
  · obtain ⟨entry, hentry, hmem⟩ := List.mem_flatMap.1 hmem
    exact hfiled.blocks entry hentry lookup hmem

section

variable {p : Program} (h : p.Made)

include h

theorem Made.grounded_body : Instr.Grounded p.body :=
  fun lookup hmem => h.grounded lookup (List.mem_append_left _ (List.mem_append_left _ hmem))

theorem Made.grounded_section {key : String} {s : SectionBody}
    (hs : Entries.get? p.sections key = some s) : Instr.Grounded s.body := by
  intro lookup hmem
  refine h.grounded lookup (List.mem_append_left _ (List.mem_append_right _ ?_))
  exact List.mem_flatMap.2 ⟨_, Entries.mem_of_get? hs, hmem⟩

theorem Made.grounded_override {key : String} {body : List Instr}
    (hbody : Entries.get? p.blocks key = some body) : Instr.Grounded body := by
  intro lookup hmem
  refine h.grounded lookup (List.mem_append_right _ ?_)
  exact List.mem_flatMap.2 ⟨_, Entries.mem_of_get? hbody, hmem⟩

end

end Program

/-! ## Looking up in plain data -/

/-- **A grounded lookup in plain data succeeds.** -/
theorem Context.DrawnFrom.exists_resolve {roots : List Value} {c : Context} {host : Host}
    (h : c.DrawnFrom roots) (hroots : ∀ root ∈ roots, root.Plain) {lookup : Lookup}
    (hlookup : lookup.Grounded) : ∃ v, c.resolve host lookup = .ok v ∧ v.FoundIn roots := by
  cases lookup with
  | top => exact ⟨_, rfl, h.top⟩
  | find id => exact h.find hroots id
  | findDotted id => exact h.findDotted hroots id
  | findAnchored id =>
    obtain ⟨names, hnames⟩ := hlookup
    rw [Context.resolve, findAnchored, hnames]
    cases htop : c.top? with
    | some top =>
      have hfound : top.FoundIn roots := h top (List.mem_of_mem_head? htop)
      exact descend_foundIn hroots c.skipNull hfound names
    | none => exact ⟨_, rfl, .missing⟩

end Mustache
