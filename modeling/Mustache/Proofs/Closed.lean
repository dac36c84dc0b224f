import Mustache.Proofs.Compiles
/-!
# Mustache — programs are closed

Instructions name sections and overrides by keys, and the renderer passes
over a key that is not filed without a word. In a closed program no key
leads nowhere: whatever is mentioned in its body, in the body of a section
or in an override, however deep inside inverted sections and the defaults
of blocks, is filed in the same program.

The compiler makes closed programs only (`closed_of_compile`). Along its walk
keys are taken and never given up (`Walked.grows`). So the code of a walk is
closed in what is filed at its end, and what was filed before stays closed
(`Walked.closed`). Since a parsed template compiles, there is such a program
for each (`exists_closed`).
-/

namespace Mustache

namespace Instr

mutual

/-- The keys of the sections that an instruction mentions. -/
def sectionKeys : Instr → List String
  | .enter _ _ key => [key]
  | .inverted _ _ body => sectionKeysOf body
  | .block _ default => sectionKeysOf default
  | .text .. | .interpolate .. | .insertPartial .. | .extend .. => []

/-- The keys of the sections that instructions mention. -/
def sectionKeysOf : List Instr → List String
  | [] => []
  | i :: is => sectionKeys i ++ sectionKeysOf is

end

mutual

/-- The keys of the overrides that an instruction mentions. -/
def overrideKeys : Instr → List String
  | .extend _ overrides => overrides.map (·.2)
  | .inverted _ _ body => overrideKeysOf body
  | .block _ default => overrideKeysOf default
  | .text .. | .interpolate .. | .insertPartial .. | .enter .. => []

/-- The keys of the overrides that instructions mention. -/
def overrideKeysOf : List Instr → List String
  | [] => []
  | i :: is => overrideKeys i ++ overrideKeysOf is

end

theorem sectionKeysOf_append (is js : List Instr) :
    sectionKeysOf (is ++ js) = sectionKeysOf is ++ sectionKeysOf js := by
  induction is with
  | nil => rfl
  | cons i is ih => rw [List.cons_append, sectionKeysOf, sectionKeysOf, ih, List.append_assoc]

theorem overrideKeysOf_append (is js : List Instr) :
    overrideKeysOf (is ++ js) = overrideKeysOf is ++ overrideKeysOf js := by
  induction is with
  | nil => rfl
  | cons i is ih => rw [List.cons_append, overrideKeysOf, overrideKeysOf, ih, List.append_assoc]

/-- **Closed code**: what it mentions is filed. -/
structure ClosedIn (sections : Entries SectionBody) (blocks : Entries (List Instr))
    (code : List Instr) : Prop where
  sections : ∀ key ∈ sectionKeysOf code, Entries.has sections key = true
  blocks : ∀ key ∈ overrideKeysOf code, Entries.has blocks key = true

namespace ClosedIn

variable {sections sections' : Entries SectionBody} {blocks blocks' : Entries (List Instr)}
variable {i : Instr} {is js body : List Instr}

theorem nil : ClosedIn sections blocks [] := ⟨nofun, nofun⟩

/-- What is closed stays closed where no key is given up. -/
theorem mono (h : ClosedIn sections blocks is)
    (hsections : ∀ key, Entries.has sections key = true → Entries.has sections' key = true)
    (hblocks : ∀ key, Entries.has blocks key = true → Entries.has blocks' key = true) :
    ClosedIn sections' blocks' is :=
  ⟨fun key hkey => hsections key (h.sections key hkey),
    fun key hkey => hblocks key (h.blocks key hkey)⟩

theorem append (h : ClosedIn sections blocks is) (hmore : ClosedIn sections blocks js) :
    ClosedIn sections blocks (is ++ js) := by
  refine ⟨?_, ?_⟩
  · rw [sectionKeysOf_append]
    exact List.forall_mem_append.2 ⟨h.sections, hmore.sections⟩
  · rw [overrideKeysOf_append]
    exact List.forall_mem_append.2 ⟨h.blocks, hmore.blocks⟩

theorem cons_iff : ClosedIn sections blocks (i :: is) ↔
    (∀ key ∈ i.sectionKeys, Entries.has sections key = true) ∧
      (∀ key ∈ i.overrideKeys, Entries.has blocks key = true) ∧ ClosedIn sections blocks is := by
  constructor
  · rintro ⟨hsections, hblocks⟩
    rw [sectionKeysOf, List.forall_mem_append] at hsections
    rw [overrideKeysOf, List.forall_mem_append] at hblocks
    exact ⟨hsections.1, hblocks.1, hsections.2, hblocks.2⟩
  · rintro ⟨hsections, hblocks, his⟩
    refine ⟨?_, ?_⟩
    · rw [sectionKeysOf]
      exact List.forall_mem_append.2 ⟨hsections, his.sections⟩
    · rw [overrideKeysOf]
      exact List.forall_mem_append.2 ⟨hblocks, his.blocks⟩

theorem tail (h : ClosedIn sections blocks (i :: is)) : ClosedIn sections blocks is :=
  (cons_iff.1 h).2.2

/-- Code that mentions a section. -/
theorem cons_enter_iff {lookup : Lookup} {filters : List Filter} {key : String} :
    ClosedIn sections blocks (.enter lookup filters key :: is) ↔
      Entries.has sections key = true ∧ ClosedIn sections blocks is := by
  rw [cons_iff, sectionKeys, overrideKeys, List.forall_mem_singleton]
  exact and_congr_right fun _ => and_iff_right (List.forall_mem_nil _)

theorem cons_inverted_iff {lookup : Lookup} {filters : List Filter} :
    ClosedIn sections blocks (.inverted lookup filters body :: is) ↔
      ClosedIn sections blocks body ∧ ClosedIn sections blocks is := by
  rw [cons_iff, sectionKeys, overrideKeys, ← and_assoc]
  exact and_congr_left fun _ => ⟨fun h => ⟨h.1, h.2⟩, fun h => ⟨h.1, h.2⟩⟩

theorem cons_block_iff {name : String} :
    ClosedIn sections blocks (.block name body :: is) ↔
      ClosedIn sections blocks body ∧ ClosedIn sections blocks is := by
  rw [cons_iff, sectionKeys, overrideKeys, ← and_assoc]
  exact and_congr_left fun _ => ⟨fun h => ⟨h.1, h.2⟩, fun h => ⟨h.1, h.2⟩⟩

/-- Code that mentions overrides. -/
theorem cons_extend_iff {name : TemplateName} {overrides : List (String × String)} :
    ClosedIn sections blocks (.extend name overrides :: is) ↔
      (∀ o ∈ overrides, Entries.has blocks o.2 = true) ∧ ClosedIn sections blocks is := by
  rw [cons_iff, sectionKeys, overrideKeys, List.forall_mem_map]
  exact and_iff_right (List.forall_mem_nil _)

end ClosedIn

end Instr

/-- **A closed program**: its body, the bodies of its sections and its
overrides mention nothing that is not filed in it. -/
structure Program.Closed (p : Program) : Prop where
  body : Instr.ClosedIn p.sections p.blocks p.body
  sections : ∀ entry ∈ p.sections, Instr.ClosedIn p.sections p.blocks entry.2.body
  blocks : ∀ entry ∈ p.blocks, Instr.ClosedIn p.sections p.blocks entry.2

/-! ## The walk of the compiler -/

namespace Compile

open Instr (ClosedIn)

/-- No key that is taken is given up. -/
structure State.Grows (s s' : State) : Prop where
  sections : ∀ key, Entries.has s.sections key = true → Entries.has s'.sections key = true
  blocks : ∀ key, Entries.has s.blocks key = true → Entries.has s'.blocks key = true

/-- What is filed mentions nothing that is not filed. -/
structure State.Closed (s : State) : Prop where
  sections : ∀ entry ∈ s.sections, ClosedIn s.sections s.blocks entry.2.body
  blocks : ∀ entry ∈ s.blocks, ClosedIn s.sections s.blocks entry.2

section Steps

variable {s s' s'' : State} {code : List Instr}

theorem State.Grows.refl (s : State) : s.Grows s := ⟨fun _ h => h, fun _ h => h⟩

theorem State.Grows.trans (h : s.Grows s') (h' : s'.Grows s'') : s.Grows s'' :=
  ⟨fun key hkey => h'.sections key (h.sections key hkey),
    fun key hkey => h'.blocks key (h.blocks key hkey)⟩

theorem State.Grows.insert_section (s : State) (key : String) (body : SectionBody) :
    s.Grows { s with sections := Entries.insert s.sections key body } :=
  ⟨fun _ h => Entries.has_insert_of_has key body h, fun _ h => h⟩

theorem State.Grows.insert_block (s : State) (key : String) (body : List Instr) :
    s.Grows { s with blocks := Entries.insertNew s.blocks key body } :=
  ⟨fun _ h => h, fun _ h => Entries.has_insertNew_of_has key body h⟩

/-- Code that is closed at a state is closed later on. -/
theorem State.Grows.closedIn (h : s.Grows s') (hcode : ClosedIn s.sections s.blocks code) :
    ClosedIn s'.sections s'.blocks code :=
  hcode.mono h.sections h.blocks

/-- Filing a section with a closed body. -/
theorem State.Closed.insert_section (h : s.Closed) (key : String) {body : SectionBody}
    (hbody : ClosedIn s.sections s.blocks body.body) :
    { s with sections := Entries.insert s.sections key body : State }.Closed := by
  have hgrows := State.Grows.insert_section s key body
  refine ⟨fun entry hentry => hgrows.closedIn ?_, fun entry hentry => hgrows.closedIn ?_⟩
  · rcases Entries.mem_insert hentry with rfl | hentry
    · exact hbody
    · exact h.sections entry hentry
  · exact h.blocks entry hentry

/-- Filing an override with a closed body. -/
theorem State.Closed.insert_block (h : s.Closed) (key : String) {body : List Instr}
    (hbody : ClosedIn s.sections s.blocks body) :
    { s with blocks := Entries.insertNew s.blocks key body : State }.Closed := by
  have hgrows := State.Grows.insert_block s key body
  refine ⟨fun entry hentry => hgrows.closedIn ?_, fun entry hentry => hgrows.closedIn ?_⟩
  · exact h.sections entry hentry
  · rcases Entries.mem_insertNew hentry with rfl | hentry
    · exact hbody
    · exact h.blocks entry hentry

/-- A node that encloses nothing mentions nothing. -/
theorem closedIn_of_leafCode? {pragmas : PragmaSet} {starts : Bool} {t : Token}
    (h : leafCode? pragmas starts t = some code) (sections : Entries SectionBody)
    (blocks : Entries (List Instr)) : ClosedIn sections blocks code := by
  unfold leafCode? at h
  split at h <;> cases h
  case h_2 => exact .nil
  all_goals exact ClosedIn.cons_iff.2 ⟨nofun, nofun, .nil⟩

end Steps

variable {digest : String → String} {source : String}

mutual

/-- **A walk gives no key up.** -/
theorem Walked.grows : ∀ {s s' : State} {ts : List Token} {code : List Instr},
    Walked digest source s ts code s' → s.Grows s'
  | s, _, _, _, .nil => .refl s
  | _, _, _, _, .pragma _ hrest => ⟨hrest.grows.sections, hrest.grows.blocks⟩
  | _, _, _, _, .leaf _ hrest => ⟨hrest.grows.sections, hrest.grows.blocks⟩
  | _, _, _, _, .newSection _ _ hbody hrest =>
    hbody.grows.trans ((State.Grows.insert_section _ _ _).trans hrest.grows)
  | _, _, _, _, .knownSection _ _ hrest => hrest.grows
  | _, _, _, _, .inverted _ hbody hrest => hbody.grows.trans hrest.grows
  | _, _, _, _, .extend _ hos hrest => hos.grows.trans hrest.grows
  | _, _, _, _, .block _ hbody hrest => hbody.grows.trans hrest.grows

theorem WalkedOverrides.grows : ∀ {s s' : State} {ts : List Token} {os : List (String × String)},
    WalkedOverrides digest source s ts os s' → s.Grows s'
  | s, _, _, _, .nil => .refl s
  | _, _, _, _, .skip _ hrest => hrest.grows
  | _, _, _, _, .override _ hbody hrest =>
    hbody.grows.trans ((State.Grows.insert_block _ _ _).trans hrest.grows)

end

mutual

/-- **The code of a walk is closed** in what is filed at its end, and what is
filed stays closed. -/
theorem Walked.closed : ∀ {s s' : State} {ts : List Token} {code : List Instr},
    Walked digest source s ts code s' → s.Closed →
      s'.Closed ∧ ClosedIn s'.sections s'.blocks code
  | _, _, _, _, .nil, hs => ⟨hs, .nil⟩
  | _, _, _, _, .pragma _ hrest, hs => hrest.closed ⟨hs.sections, hs.blocks⟩
  | _, _, _, _, .leaf hleaf hrest, hs => by
    obtain ⟨hafter, hcode⟩ := hrest.closed ⟨hs.sections, hs.blocks⟩
    exact ⟨hafter, (closedIn_of_leafCode? hleaf _ _).append hcode⟩
  | _, _, _, _, .newSection _ _ hbody hrest, hs => by
    obtain ⟨hinside, hclosed⟩ := hbody.closed hs
    obtain ⟨hafter, hcode⟩ := hrest.closed (hinside.insert_section _ hclosed)
    have hfiled := hrest.grows.sections _ (Entries.has_insert_self _ _ _)
    exact ⟨hafter, ClosedIn.cons_enter_iff.2 ⟨hfiled, hcode⟩⟩
  | _, _, _, _, .knownSection _ hknown hrest, hs => by
    obtain ⟨hafter, hcode⟩ := hrest.closed hs
    exact ⟨hafter, ClosedIn.cons_enter_iff.2 ⟨hrest.grows.sections _ hknown, hcode⟩⟩
  | _, _, _, _, .inverted _ hbody hrest, hs => by
    obtain ⟨hinside, hclosed⟩ := hbody.closed hs
    obtain ⟨hafter, hcode⟩ := hrest.closed hinside
    exact ⟨hafter, ClosedIn.cons_inverted_iff.2 ⟨hrest.grows.closedIn hclosed, hcode⟩⟩
  | _, _, _, _, .extend _ hos hrest, hs => by
    obtain ⟨hinside, hfiled⟩ := hos.closed hs
    obtain ⟨hafter, hcode⟩ := hrest.closed hinside
    exact ⟨hafter, ClosedIn.cons_extend_iff.2
      ⟨fun o ho => hrest.grows.blocks _ (hfiled o ho), hcode⟩⟩
  | _, _, _, _, .block _ hbody hrest, hs => by
    obtain ⟨hinside, hclosed⟩ := hbody.closed hs
    obtain ⟨hafter, hcode⟩ := hrest.closed hinside
    exact ⟨hafter, ClosedIn.cons_block_iff.2 ⟨hrest.grows.closedIn hclosed, hcode⟩⟩

theorem WalkedOverrides.closed : ∀ {s s' : State} {ts : List Token} {os : List (String × String)},
    WalkedOverrides digest source s ts os s' → s.Closed →
      s'.Closed ∧ ∀ o ∈ os, Entries.has s'.blocks o.2 = true
  | _, _, _, _, .nil, hs => ⟨hs, nofun⟩
  | _, _, _, _, .skip _ hrest, hs => hrest.closed hs
  | _, _, _, _, .override _ hbody hrest, hs => by
    obtain ⟨hinside, hclosed⟩ := hbody.closed hs
    obtain ⟨hafter, hfiled⟩ := hrest.closed (hinside.insert_block _ hclosed)
    have hown := hrest.grows.blocks _ (Entries.has_insertNew_self _ _ _)
    exact ⟨hafter, List.forall_mem_cons.2 ⟨hown, hfiled⟩⟩

end

end Compile

namespace Program

/-- **The compiler makes closed programs.** -/
theorem closed_of_compile {digest : String → String} {pragmas : List Pragma}
    {settings : CompileSettings} {name source : String} {nodes : List Token} {p : Program}
    (h : compile digest pragmas settings name source nodes = .ok p) : p.Closed := by
  obtain ⟨body, s, hwalked, rfl⟩ := exists_walked h
  obtain ⟨hfiled, hbody⟩ := hwalked.closed ⟨nofun, nofun⟩
  exact ⟨hbody, hfiled.sections, hfiled.blocks⟩

/-- **A parsed template has a closed program.** -/
theorem exists_closed {delimiters : Delimiters} {text source name : String}
    {defaults pragmas : List Pragma} {ts : List Token} {tree : Tree}
    (hscan : Token.scan delimiters text = .ok ts) (htree : Tree.ofTokens pragmas ts = .ok tree)
    (digest : String → String) (settings : CompileSettings) :
    ∃ p, compile digest defaults settings name source tree.nodes = .ok p ∧ p.Closed := by
  obtain ⟨p, hp⟩ : ∃ p, compile digest defaults settings name source tree.nodes = .ok p :=
    exists_compile hscan htree digest settings
  exact ⟨p, hp, closed_of_compile hp⟩

end Program

end Mustache
