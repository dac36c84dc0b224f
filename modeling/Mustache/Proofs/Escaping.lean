import Mustache.Proofs.Basic
import Mustache.Render
/-!
# Mustache — escaped text can be read back

A text written in HTML has its special characters as entities. What makes
that safe and what makes it reversible is one fact about characters: a
character is written as itself only if the flags do not mark it, and
otherwise as an entity that stands for it (`escapeChar_of_marked`,
`escapeChar_of_not_marked`). So nothing that is marked is left, and no
ampersand stands alone.

An entity can be told by what a text begins with. Reading the entities of
a written text from left to right therefore gives the text back
(`unescape_escape`), whatever it had in it, entities included.
-/

namespace Mustache

namespace Entities

/-- The entities that are written, and the characters that they stand
for. -/
def table : List (String × Char) :=
  [("&amp;", '&'), ("&lt;", '<'), ("&gt;", '>'), ("&quot;", '"'), ("&#039;", '\''),
    ("&apos;", '\'')]

/-- A character that is written as an entity under some flags. -/
def Marked (flags : UInt32) (c : Char) : Prop :=
  c = '&' ∨ c = '<' ∨ c = '>' ∨ (c = '"' ∧ anySet flags doubleQuotes = true) ∨
    (c = '\'' ∧ allSet flags bothQuotes = true)

/-! ## Reading entities -/

/-- The entity at the front of a text: the character that it stands for, and
what comes after it. -/
def front? (cs : List Char) : Option (Char × List Char) :=
  table.findSome? fun entity => (Text.after? entity.1.toList cs).map (entity.2, ·)

theorem front?_length {cs rest : List Char} {c : Char} (h : front? cs = some (c, rest)) :
    rest.length < cs.length := by
  obtain ⟨entity, hmem, hfound⟩ := List.exists_of_findSome?_eq_some h
  obtain ⟨after, hafter, heq⟩ := Option.map_eq_some_iff.1 hfound
  cases heq
  have hpos : ∀ entity ∈ table, 0 < entity.1.toList.length := by decide
  rw [Text.after?_eq_some hafter, List.length_append]
  exact Nat.lt_add_of_pos_left (hpos entity hmem)

/-- A text with each entity replaced by its character, in one pass from left
to right. What an entity stands for is not looked at again. -/
def unescapeChars : List Char → List Char
  | [] => []
  | c :: cs =>
    match _h : front? (c :: cs) with
    | some (d, rest) => d :: unescapeChars rest
    | none => c :: unescapeChars cs
  termination_by cs => cs.length
  decreasing_by
  · exact front?_length _h
  · exact Nat.lt_succ_self cs.length

/-- A text with its entities replaced by what they stand for. -/
def unescape (text : String) : String := String.ofList (unescapeChars text.toList)

/-- An entity is found at the front of a text, whatever comes after it. -/
theorem front?_entity {entity : String × Char} (h : entity ∈ table) (rest : List Char) :
    front? (entity.1.toList ++ rest) = some (entity.2, rest) := by
  simp only [table, List.mem_cons, List.not_mem_nil, or_false] at h
  rcases h with rfl | rfl | rfl | rfl | rfl | rfl <;> rfl

/-- Every entity begins with an ampersand. -/
theorem front?_of_ne {c : Char} (h : c ≠ '&') (cs : List Char) : front? (c :: cs) = none := by
  refine List.findSome?_eq_none_iff.2 fun entity hmem => ?_
  have hhead : ∀ entity ∈ table, ∃ name, entity.1.toList = '&' :: name := by
    simp [table]
  obtain ⟨name, hname⟩ := hhead entity hmem
  rw [hname, Text.after?, if_neg (Ne.symm h)]
  rfl

theorem unescapeChars_entity {entity : String × Char} (h : entity ∈ table) (rest : List Char) :
    unescapeChars (entity.1.toList ++ rest) = entity.2 :: unescapeChars rest := by
  have hfront := front?_entity h rest
  cases hcs : entity.1.toList ++ rest with
  | nil =>
    rw [hcs] at hfront
    cases hfront
  | cons c cs =>
    rw [hcs] at hfront
    rw [unescapeChars]
    split
    · next hfound =>
      cases hfront.symm.trans hfound
      rfl
    · next hnone => cases hfront.symm.trans hnone

theorem unescapeChars_of_ne {c : Char} (h : c ≠ '&') (cs : List Char) :
    unescapeChars (c :: cs) = c :: unescapeChars cs := by
  have hfront := front?_of_ne h cs
  rw [unescapeChars]
  split
  · next hfound => cases hfront.symm.trans hfound
  · rfl

/-! ## How a character is written -/

section Characters

variable {flags : UInt32} {c : Char}

/-- A marked character is written as an entity that stands for it. -/
theorem escapeChar_of_marked (h : Marked flags c) :
    ∃ entity ∈ table, escapeChar flags c = entity.1.toList ∧ entity.2 = c := by
  rcases h with rfl | rfl | rfl | ⟨rfl, hflag⟩ | ⟨rfl, hflag⟩
  · exact ⟨("&amp;", '&'), by decide, rfl, rfl⟩
  · exact ⟨("&lt;", '<'), by decide, rfl, rfl⟩
  · exact ⟨("&gt;", '>'), by decide, rfl, rfl⟩
  · exact ⟨("&quot;", '"'), by decide, by simp [escapeChar, hflag], rfl⟩
  · have hwritten : escapeChar flags '\'' = (apostrophe flags).toList := by
      simp [escapeChar, hflag]
    rw [hwritten, apostrophe]
    split
    · exact ⟨("&apos;", '\''), by decide, rfl, rfl⟩
    · exact ⟨("&#039;", '\''), by decide, rfl, rfl⟩

/-- Any other character is written as itself. -/
theorem escapeChar_of_not_marked (h : ¬ Marked flags c) : escapeChar flags c = [c] := by
  simp only [Marked, not_or, not_and] at h
  obtain ⟨hamp, hlt, hgt, hdouble, hsingle⟩ := h
  rw [escapeChar, if_neg hamp, if_neg hlt, if_neg hgt]
  split
  · next hc => rw [if_neg (hdouble hc)]
  · split
    · next hc => rw [if_neg (hsingle hc)]
    · rfl

/-- **No marked character is written**, ampersands apart. -/
theorem not_marked_of_mem_escapeChar {d : Char} (h : d ∈ escapeChar flags c) (hne : d ≠ '&') :
    ¬ Marked flags d := by
  by_cases hmarked : Marked flags c
  · obtain ⟨entity, hmem, hwritten, -⟩ := escapeChar_of_marked hmarked
    rw [hwritten] at h
    have hbare : ∀ entity ∈ table, ∀ d ∈ entity.1.toList,
        d ≠ '<' ∧ d ≠ '>' ∧ d ≠ '"' ∧ d ≠ '\'' := by simp [table]
    obtain ⟨hlt, hgt, hdouble, hsingle⟩ := hbare entity hmem d h
    simp [Marked, hne, hlt, hgt, hdouble, hsingle]
  · rw [escapeChar_of_not_marked hmarked] at h
    rwa [List.mem_singleton.1 h]

/-- An ampersand is written only as the first character of an entity. -/
theorem entity_of_suffix_escapeChar {rest : List Char}
    (h : '&' :: rest <:+ escapeChar flags c) :
    ∃ entity ∈ table, entity.1.toList = '&' :: rest := by
  by_cases hmarked : Marked flags c
  · obtain ⟨entity, hmem, hwritten, -⟩ := escapeChar_of_marked hmarked
    rw [hwritten] at h
    have hhead : ∀ entity ∈ table, ∃ name, entity.1.toList = '&' :: name ∧ '&' ∉ name := by
      simp [table]
    obtain ⟨name, hname, hnone⟩ := hhead entity hmem
    rw [hname] at h
    rcases List.suffix_cons_iff.1 h with heq | hsuffix
    · exact ⟨entity, hmem, hname.trans heq.symm⟩
    · exact absurd (hsuffix.subset List.mem_cons_self) hnone
  · rw [escapeChar_of_not_marked hmarked] at h
    have hamp : '&' = c := List.mem_singleton.1 (h.subset List.mem_cons_self)
    exact absurd (.inl hamp.symm) hmarked

end Characters

/-! ## How a text is written -/

section Texts

variable (flags : UInt32)

theorem toList_escape (text : String) :
    (escape flags text).toList = text.toList.flatMap (escapeChar flags) := String.toList_ofList

/-- What is marked does not stand in an escaped text. -/
theorem not_mem_escape {c : Char} (hmarked : Marked flags c) (hne : c ≠ '&') (text : String) :
    c ∉ (escape flags text).toList := by
  intro h
  rw [toList_escape] at h
  obtain ⟨d, -, hc⟩ := List.mem_flatMap.1 h
  exact not_marked_of_mem_escapeChar hc hne hmarked

/-- **Every ampersand begins an entity.** -/
theorem exists_entity_prefix (cs : List Char) {rest : List Char}
    (h : '&' :: rest <:+ cs.flatMap (escapeChar flags)) :
    ∃ entity ∈ table, entity.1.toList <+: '&' :: rest := by
  induction cs with
  | nil => cases List.suffix_nil.1 h
  | cons c cs ih =>
    rw [List.flatMap_cons] at h
    -- the ampersand stands in what is written for the first character, or behind it
    obtain ⟨before, hbefore⟩ := h
    rcases List.append_eq_append_iff.1 hbefore with ⟨inside, hfirst, hrest⟩ | ⟨inside, -, hrest⟩
    · cases inside with
      | nil =>
        refine ih ⟨[], ?_⟩
        rw [List.nil_append, hrest, List.nil_append]
      | cons d inside =>
        obtain rfl : '&' = d := (List.cons.inj hrest).1
        obtain ⟨entity, hmem, hentity⟩ := entity_of_suffix_escapeChar ⟨before, hfirst.symm⟩
        refine ⟨entity, hmem, ?_⟩
        rw [hentity, hrest]
        exact List.prefix_append _ _
    · exact ih ⟨inside, hrest.symm⟩

theorem unescapeChars_flatMap (cs : List Char) :
    unescapeChars (cs.flatMap (escapeChar flags)) = cs := by
  induction cs with
  | nil => rw [List.flatMap_nil, unescapeChars]
  | cons c cs ih =>
    rw [List.flatMap_cons]
    by_cases hmarked : Marked flags c
    · obtain ⟨entity, hmem, hwritten, hc⟩ := escapeChar_of_marked hmarked
      rw [hwritten, unescapeChars_entity hmem, ih, hc]
    · rw [escapeChar_of_not_marked hmarked, List.singleton_append,
        unescapeChars_of_ne (fun hamp => hmarked (.inl hamp)), ih]

/-- **Reading the entities of an escaped text gives the text back.** -/
theorem unescape_escape (text : String) : unescape (escape flags text) = text := by
  rw [unescape, toList_escape, unescapeChars_flatMap, String.ofList_toList]

/-- **Escaped text is safe and can be read back.** It has no angle brackets, and
no quotes of the kinds that the flags ask for; each ampersand in it begins an
entity; and with its entities replaced it is the text. So no two texts are
written alike, whatever the flags. -/
theorem escape_safe_and_reversible (text : String) :
    '<' ∉ (escape flags text).toList ∧ '>' ∉ (escape flags text).toList ∧
      (anySet flags doubleQuotes = true → '"' ∉ (escape flags text).toList) ∧
      (allSet flags bothQuotes = true → '\'' ∉ (escape flags text).toList) ∧
      (∀ rest, '&' :: rest <:+ (escape flags text).toList →
        ∃ entity ∈ table, entity.1.toList <+: '&' :: rest) ∧
      unescape (escape flags text) = text ∧
      ∀ flags' text', escape flags' text' = escape flags text → text' = text := by
  refine ⟨?_, ?_, fun hdouble => ?_, fun hboth => ?_, fun rest h => ?_, unescape_escape flags text,
    fun flags' text' h => ?_⟩
  · exact not_mem_escape flags (.inr (.inl rfl)) (by decide) text
  · exact not_mem_escape flags (.inr (.inr (.inl rfl))) (by decide) text
  · exact not_mem_escape flags (.inr (.inr (.inr (.inl ⟨rfl, hdouble⟩)))) (by decide) text
  · exact not_mem_escape flags (.inr (.inr (.inr (.inr ⟨rfl, hboth⟩)))) (by decide) text
  · rw [toList_escape] at h
    exact exists_entity_prefix flags text.toList h
  · rw [← unescape_escape flags' text', h, unescape_escape]

/-- Text that looks like entities already, with both kinds of quotes, under the
flags that ask for both. -/
theorem escape_safe_and_reversible_of_entities :
    let text := "&lt;\"it's\" &#039;&amp"
    anySet standard doubleQuotes = true ∧ allSet standard bothQuotes = true ∧
      escape standard text = "&amp;lt;&quot;it&#039;s&quot; &amp;#039;&amp;amp" ∧
      '"' ∉ (escape standard text).toList ∧ '\'' ∉ (escape standard text).toList ∧
      unescape (escape standard text) = text := by
  intro text
  have hdouble : anySet standard doubleQuotes = true := by decide
  have hboth : allSet standard bothQuotes = true := by decide
  obtain ⟨-, -, hnoDouble, hnoSingle, -, hback, -⟩ := escape_safe_and_reversible standard text
  exact ⟨hdouble, hboth, by decide +kernel, hnoDouble hdouble, hnoSingle hboth, hback⟩

end Texts

end Entities

/-- **A variable tag leaves no angle bracket unescaped**, unless the engine has an
escape function of its own. -/
theorem Render.not_mem_escaped {e : Engine} (h : e.escape = none) (p : Program) (text : String) :
    '<' ∉ (escaped e p text).toList ∧ '>' ∉ (escaped e p text).toList := by
  have hescaped : ∃ flags, escaped e p text = Entities.escape flags text := by
    rw [escaped, h]
    cases p.escaping with
    | html flags => exact ⟨flags, rfl⟩
    | custom => exact ⟨Entities.standard, rfl⟩
  obtain ⟨flags, hflags⟩ := hescaped
  rw [hflags]
  exact ⟨Entities.not_mem_escape flags (.inr (.inl rfl)) (by decide) text,
    Entities.not_mem_escape flags (.inr (.inr (.inl rfl))) (by decide) text⟩

end Mustache
