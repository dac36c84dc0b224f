import Mathlib.Logic.Relation
import Mustache.Proofs.SectionKeys
/-!
# Mustache — sections refer to shorter texts

The code of a section mentions other sections by their keys, and what is on
file under such a key may come from another place in the template. But all
that is on file is code of the nodes inside some section tag of the template
(`Walked.stems`), it mentions sections that stand there (`Walked.sectionKeys`),
and their texts are shorter than the one around them (`SectionAt.shorter`).
So whoever follows references comes to ever shorter texts
(`Program.descends_of_compile`), and never back (`Descends.not_refersTo_self`).
-/

namespace Mustache

namespace Program

/-- A section mentions another one: directly, or inside inverted sections and
the defaults of blocks. -/
def RefersTo (p : Program) (key key' : String) : Prop :=
  ∃ s, Entries.get? p.sections key = some s ∧ key' ∈ Instr.sectionKeysOf s.body

/-- **References go to shorter texts**: whatever a section mentions is on file,
and its text is shorter than that of the section. -/
def Descends (p : Program) : Prop :=
  ∀ key s, Entries.get? p.sections key = some s → ∀ key' ∈ Instr.sectionKeysOf s.body,
    ∃ s', Entries.get? p.sections key' = some s' ∧ s'.source.length < s.source.length

/-- How long the text of a section is. -/
def textLength (p : Program) (key : String) : Nat :=
  (Entries.get? p.sections key).elim 0 (·.source.length)

section

variable {p : Program} {key key' : String}

theorem Descends.textLength_lt (h : p.Descends) (hrefers : p.RefersTo key key') :
    p.textLength key' < p.textLength key := by
  obtain ⟨s, hs, hkey⟩ := hrefers
  obtain ⟨s', hs', hlt⟩ := h key s hs key' hkey
  rw [textLength, textLength, hs, hs']
  exact hlt

theorem Descends.textLength_lt_of_transGen (h : p.Descends)
    (hrefers : Relation.TransGen p.RefersTo key key') :
    p.textLength key' < p.textLength key := by
  induction hrefers with
  | single hlast => exact h.textLength_lt hlast
  | tail _ hlast ih => exact Nat.lt_trans (h.textLength_lt hlast) ih

/-- **References do not go round**: no section leads back to itself. -/
theorem Descends.not_refersTo_self (h : p.Descends) (key : String) :
    ¬ Relation.TransGen p.RefersTo key key :=
  fun hround => Nat.lt_irrefl _ (h.textLength_lt_of_transGen hround)

end

end Program

/-! ## What code mentions stands in the template -/

namespace Compile

open Instr (sectionKeysOf sectionKeysOf_append)

variable {digest : String → String} {source : String}

/-- **Code mentions no sections but those among its nodes.** -/
theorem Walked.sectionKeys : ∀ {s s' : State} {ts : List Token} {code : List Instr},
    Walked digest source s ts code s' →
      ∀ key ∈ sectionKeysOf code, KeyOf digest source (visited false ts) key
  | _, _, _, _, .nil, _, h => nomatch h
  | _, _, _, _, .pragma _ hrest, key, h => (hrest.sectionKeys key h).mono rest_subset_visited
  | _, _, _, _, .leaf hleaf hrest, key, h => by
    rw [sectionKeysOf_append] at h
    rcases List.mem_append.1 h with h | h
    · cases (closedIn_of_leafCode? hleaf [] []).sections key h
    · exact (hrest.sectionKeys key h).mono rest_subset_visited
  | _, _, _, _, .newSection hkind _ _ hrest, key, h => by
    rcases List.mem_cons.1 h with rfl | h
    · exact keyOf_self hkind
    · exact (hrest.sectionKeys key h).mono rest_subset_visited
  | _, _, _, _, .knownSection hkind _ hrest, key, h => by
    rcases List.mem_cons.1 h with rfl | h
    · exact keyOf_self hkind
    · exact (hrest.sectionKeys key h).mono rest_subset_visited
  | _, _, _, _, .inverted hkind hbody hrest, key, h => by
    rcases List.mem_append.1 h with h | h
    · exact (hbody.sectionKeys key h).mono (nodes_subset_visited (.inr (.inl hkind)))
    · exact (hrest.sectionKeys key h).mono rest_subset_visited
  | _, _, _, _, .extend _ _ hrest, key, h => (hrest.sectionKeys key h).mono rest_subset_visited
  | _, _, _, _, .block hkind hbody hrest, key, h => by
    rcases List.mem_append.1 h with h | h
    · exact (hbody.sectionKeys key h).mono (nodes_subset_visited (.inr (.inr (.inl hkind))))
    · exact (hrest.sectionKeys key h).mono rest_subset_visited

end Compile

/-! ## The sections of a program -/

namespace Program

variable {digest : String → String} {source name : String} {defaults : List Pragma}
variable {settings : CompileSettings} {tree : Tree} {p : Program}

/-- **References of a compiled template go to shorter texts.** -/
theorem descends_of_compile (hkeyed : tree.Keyed digest source)
    (h : compile digest defaults settings name source tree.nodes = .ok p) : p.Descends := by
  intro key found hfound key' hkey'
  obtain ⟨t, hstems⟩ := (stems_of_compile h).2 key found hfound
  obtain ⟨s, s', hwalked⟩ := hstems.walked
  obtain ⟨u, hu, hkind, rfl⟩ := hwalked.sectionKeys key' hkey'
  have hinside := Compile.within_of_visited hu
  obtain ⟨body, hget⟩ := exists_get?_of_section hkeyed h (hstems.tag.of_inside hinside hkind)
  obtain ⟨_, _, _, hplace⟩ := hkeyed.places t hstems.tag
  refine ⟨_, hget, ?_⟩
  rw [hstems.filed]
  exact hplace.shorter hinside hkind

/-- The body of a program mentions sections that are on file, with texts no
longer than the template. -/
theorem exists_section_of_body (hkeyed : tree.Keyed digest source)
    (h : compile digest defaults settings name source tree.nodes = .ok p) {key : String}
    (hkey : key ∈ Instr.sectionKeysOf p.body) :
    ∃ s, Entries.get? p.sections key = some s ∧ s.source.length ≤ source.length := by
  obtain ⟨s, s', hwalked⟩ := (stems_of_compile h).1
  obtain ⟨u, hu, hkind, rfl⟩ := hwalked.sectionKeys key hkey
  have hsection : tree.HasSection u := ⟨Compile.within_of_visited hu, hkind⟩
  obtain ⟨body, hget⟩ := exists_get?_of_section hkeyed h hsection
  obtain ⟨_, _, _, hplace⟩ := hkeyed.places u hsection
  exact ⟨_, hget, hplace.length_le⟩

end Program

end Mustache
