import Mustache.Proofs.Nodes
import Mustache.Proofs.Stored
import Mustache.Proofs.Walk
/-!
# Mustache — what compiling files

However the sections and overrides of a template stand, the compiler files
each key once, and a section under the key of its tag. So what holds of
every section tag of a tree holds of every section that is filed
(`filed_compile`). That keys are filed once is what reading a stored
program back rests on; that their delimiters are accepted, what telling the
class names of section texts apart rests on.
-/

namespace Mustache

namespace Compile

/-- Each key is filed once, and sections under keys they may have. -/
structure State.Filed (P : String → SectionBody → Prop) (s : State) : Prop where
  sections : (Entries.names s.sections).Nodup
  blocks : (Entries.names s.blocks).Nodup
  each : ∀ key body, Entries.get? s.sections key = some body → P key body

variable {digest : String → String} {source : String}
variable {P : String → SectionBody → Prop} {Q : Token → Prop}

/-- A section that is filed leaves the others as they are. -/
theorem State.Filed.insert_section {s : State} (h : s.Filed P) (key : String) {body : SectionBody}
    (hbody : P key body) :
    { s with sections := Entries.insert s.sections key body : State }.Filed P := by
  refine ⟨Entries.nodup_insert h.sections key body, h.blocks, ?_⟩
  intro other found hfound
  rcases Entries.get?_insert hfound with ⟨rfl, rfl⟩ | ⟨-, hfound⟩
  · exact hbody
  · exact h.each other found hfound

/-- What holds of a section tag gives what is to hold of the section that is
filed for it. -/
def FilesAs (digest : String → String) (source : String) (Q : Token → Prop)
    (P : String → SectionBody → Prop) : Prop :=
  ∀ t body, Q t → t.kind = .sectionTag → P (sectionKey digest source t) (sectionBody source t body)

open Token in
mutual

theorem Walked.filed (hP : FilesAs digest source Q P) :
    ∀ {s s' : State} {ts : List Token} {code : List Instr},
      Walked digest source s ts code s' → EverywhereIn Q ts → s.Filed P → s'.Filed P
  | _, _, _, _, .nil, _, hs => hs
  | _, _, _, _, .pragma _ hrest, hts, hs => hrest.filed hP hts.2 ⟨hs.sections, hs.blocks, hs.each⟩
  | _, _, _, _, .leaf _ hrest, hts, hs => hrest.filed hP hts.2 ⟨hs.sections, hs.blocks, hs.each⟩
  | _, _, _, _, .newSection hkind _ hbody hrest, hts, hs =>
    hrest.filed hP hts.2
      ((hbody.filed hP hts.1.nodes hs).insert_section _ (hP _ _ hts.1.self hkind))
  | _, _, _, _, .knownSection _ _ hrest, hts, hs => hrest.filed hP hts.2 hs
  | _, _, _, _, .inverted _ hbody hrest, hts, hs =>
    hrest.filed hP hts.2 (hbody.filed hP hts.1.nodes hs)
  | _, _, _, _, .extend _ hos hrest, hts, hs =>
    hrest.filed hP hts.2 (hos.filed hP hts.1.nodes hs)
  | _, _, _, _, .block _ hbody hrest, hts, hs =>
    hrest.filed hP hts.2 (hbody.filed hP hts.1.nodes hs)

theorem WalkedOverrides.filed (hP : FilesAs digest source Q P) :
    ∀ {s s' : State} {ts : List Token} {os : List (String × String)},
      WalkedOverrides digest source s ts os s' → EverywhereIn Q ts → s.Filed P → s'.Filed P
  | _, _, _, _, .nil, _, hs => hs
  | _, _, _, _, .skip _ hrest, hts, hs => hrest.filed hP hts.2 hs
  | _, _, _, _, .override _ hbody hrest, hts, hs => by
    have hbody := hbody.filed hP hts.1.nodes hs
    exact hrest.filed hP hts.2
      ⟨hbody.sections, Entries.nodup_insertNew hbody.blocks _ _, hbody.each⟩

end

end Compile

/-- **Compiling files each key once, and what holds of every section tag
holds of every section filed.** -/
theorem Program.filed_compile {digest : String → String} {pragmas : List Pragma}
    {settings : CompileSettings} {name source : String} {nodes : List Token} {p : Program}
    {P : String → SectionBody → Prop} {Q : Token → Prop}
    (h : compile digest pragmas settings name source nodes = .ok p)
    (hP : Compile.FilesAs digest source Q P) (hnodes : Token.EverywhereIn Q nodes) :
    p.Distinct ∧ ∀ key body, Entries.get? p.sections key = some body → P key body := by
  obtain ⟨body, s, hwalked, rfl⟩ := exists_walked h
  have hfiled := hwalked.filed hP hnodes ⟨List.nodup_nil, List.nodup_nil, nofun⟩
  exact ⟨⟨hfiled.sections, hfiled.blocks⟩, hfiled.each⟩

/-- Each key is filed once. -/
theorem Program.distinct_of_compile {digest : String → String} {pragmas : List Pragma}
    {settings : CompileSettings} {name source : String} {nodes : List Token} {p : Program}
    (h : compile digest pragmas settings name source nodes = .ok p) : p.Distinct :=
  (filed_compile (P := fun _ _ => True) (Q := fun _ => True) h (fun _ _ _ _ => trivial)
    (.of_within nodes fun _ _ => trivial)).1

end Mustache
