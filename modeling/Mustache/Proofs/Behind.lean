import Mustache.Proofs.CodeOf
import Mustache.Proofs.Nesting
/-!
# Mustache — a template behind a line

A template that stands behind a line of another text is read as it is by
itself, one line further down and as many bytes further on as that line
has (`Reads.behind`). So the text between two of its tags is the same
(`slice?_behind`), and nodes that differ in their places only give the same
code, whichever of the two texts they are of (`Walked.unique`).
-/

namespace Mustache

/-- The text between two places, from behind another text. -/
theorem Text.slice?_behind (u v : List Char) (start stop : Nat) :
    slice? (byteLength u + start) (byteLength u + stop) (u ++ v) = slice? start stop v := by
  have hlength : byteLength u + stop - (byteLength u + start) = stop - start := by omega
  have hle : byteLength u + start ≤ byteLength u + stop ↔ start ≤ stop := by omega
  simp only [slice?, dropBytes?_behind, hlength, hle]

namespace Token

theorem Moved.endsLine {t u : Token} (h : t.Moved u) : u.endsLine = t.endsLine := by
  obtain ⟨line, offset?, rfl⟩ := h.exists_eq
  rfl

theorem Moved.isBlank {t u : Token} (h : t.Moved u) : u.isBlank = t.isBlank := by
  obtain ⟨line, offset?, rfl⟩ := h.exists_eq
  rfl

/-- A token one line further down, and some bytes further on: the offsets
that count are those around a section. -/
structure Behind (bytes : Nat) (t u : Token) : Prop where
  moved : t.Moved u
  line : u.line = t.line + 1
  offset : t.kind = .sectionTag ∨ t.kind = .closingTag →
    ∃ n, t.offset? = some n ∧ u.offset? = some (bytes + n)

end Token

/-! ## Reading -/

namespace Scan

open Text (byteLength)

/-- A place one line further down, and some bytes further on. -/
structure Cursor.Behind (bytes : Nat) (start start' : Cursor) : Prop where
  delimiters : start'.delimiters = start.delimiters
  line : start'.line = start.line + 1
  offset : start'.offset = bytes + start.offset

variable {bytes : Nat} {start start' : Cursor} {cs : List Char}

/-- A token is read from any place with the same delimiters. -/
theorem exists_readToken_moved {step : Step} (h : readToken start cs = .ok step)
    (hd : start'.delimiters = start.delimiters) (hclosing : start.closing ≠ []) :
    ∃ step', readToken start' cs = .ok step' ∧ step'.rest = step.rest ∧
      step.token.Moved step'.token ∧ step'.next.delimiters = step.next.delimiters := by
  cases hopened : opened? start.opening cs with
  | some inside =>
    obtain ⟨segment, hcs, htag⟩ := exists_tagSegment hopened h hclosing
    rw [hcs]
    exact htag.again start' step.rest hd
  | none =>
    have hopening : start'.opening = start.opening := congrArg (·.opening.toList) hd
    rw [readToken, hopened] at h
    cases h
    refine ⟨readText start' cs, by rw [readToken, hopening, hopened], ?_, ?_, hd⟩
    · rw [readText, readText, hopening]
    · rw [readText, readText, hopening]
      rfl

/-- **One token**, read behind a line. -/
theorem exists_readToken_behind {step : Step} (hne : cs ≠ []) (h : readToken start cs = .ok step)
    (hplain : step.token.kind ≠ .pragma) (hstart : start.delimiters.Accepted)
    (hbehind : start.Behind bytes start') :
    ∃ step', readToken start' cs = .ok step' ∧ step'.rest = step.rest ∧
      step.token.Behind bytes step'.token ∧ step.next.Behind bytes step'.next := by
  obtain ⟨step', h', hrest, hmoved, hnext⟩ :=
    exists_readToken_moved h hbehind.delimiters hstart.ne_nil.2
  obtain ⟨-, hline, hnextLine⟩ := readToken_line h hplain
  obtain ⟨-, hline', hnextLine'⟩ := readToken_line h' (by rwa [hmoved.kind])
  -- both read the same part of the text
  have hoffset : step'.next.offset = bytes + step.next.offset := by
    obtain ⟨segment, hcs, hspan⟩ := (Reads.single hne h).exists_span hstart
    obtain ⟨segment', hcs', hspan'⟩ :=
      (Reads.single hne h').exists_span (hbehind.delimiters ▸ hstart)
    have hsame : segment' = segment := by
      rw [hcs, hrest] at hcs'
      exact (List.append_cancel_right hcs').symm
    rw [hspan'.offset, hspan.offset, hsame, hbehind.offset]
    exact Nat.add_assoc _ _ _
  refine ⟨step', h', hrest, ⟨hmoved, ?_, fun hkind => ?_⟩, ⟨hnext, ?_, hoffset⟩⟩
  · rw [hline', hline, hbehind.line]
  · obtain ⟨-, -, hplace⟩ := readToken_place h hkind
    obtain ⟨-, -, hplace'⟩ := readToken_place h' (by rwa [hmoved.kind])
    refine ⟨_, hplace, hplace'.trans ?_⟩
    rw [hmoved.kind]
    split
    · rw [hbehind.offset]
    · rw [hoffset]
  · rw [hnextLine', hnextLine, hmoved.endsLine, hbehind.line]
    split <;> rfl

/-- **A text without pragma tags is read behind a line as it is by
itself.** -/
theorem Reads.behind {stop : Cursor} {rest : List Char} {ts : List Token}
    (h : Reads start cs ts stop rest) (hplain : ∀ t ∈ ts, t.kind ≠ .pragma)
    (hstart : start.delimiters.Accepted) (hbehind : start.Behind bytes start') :
    ∃ ts' stop', Reads start' cs ts' stop' rest ∧ List.Forall₂ (Token.Behind bytes) ts ts' := by
  induction h generalizing start' with
  | nil start cs => exact ⟨[], start', .nil _ _, .nil⟩
  | cons hne hread _ ih =>
    obtain ⟨ht, hplain⟩ := List.forall_mem_cons.1 hplain
    obtain ⟨step', hread', hrest, htoken, hnext⟩ :=
      exists_readToken_behind hne hread ht hstart hbehind
    obtain ⟨ts', stop', hmore, hts⟩ := ih hplain (readToken_accepted hread hstart).2 hnext
    exact ⟨_, stop', .cons hne hread' (hrest ▸ hmore), .cons htoken hts⟩

end Scan

/-! ## Nodes of two texts -/

namespace Compile

section Places

variable {digest : String → String} {source source' : String}

/-- Two nodes, of one text each, that differ in their places only. -/
structure Resembles (source source' : String) (t u : Token) : Prop where
  kind : u.kind = t.kind
  name : u.name = t.name
  filters : u.filters = t.filters
  nodes : placelessAll source t.nodes = placelessAll source' u.nodes
  leafCode : ∀ pragmas flag, leafCode? pragmas flag u = leafCode? pragmas flag t
  startsAfter : ∀ starts, startsAfterLeaf starts u = startsAfterLeaf starts t
  templateName : ∀ pragmas, templateNameOf pragmas u = templateNameOf pragmas t
  key : ∀ digest, t.kind = .sectionTag → sectionKey digest source' u = sectionKey digest source t
  body : t.kind = .sectionTag → ∀ body, sectionBody source' u body = sectionBody source t body

theorem Resembles.of_placeless {t u : Token} (h : placeless source t = placeless source' u) :
    Resembles source source' t u := by
  obtain ⟨kind, _, _, name?, text?, delimiters?, dynamic, filters, indent?, _, nodes?⟩ := t
  obtain ⟨kind', _, _, name?', text?', delimiters?', dynamic', filters', indent?', _, nodes?'⟩ := u
  rw [placeless, placeless, Token.mk.injEq] at h
  obtain ⟨rfl, -, -, rfl, htext, rfl, rfl, rfl, rfl, -, hnodes⟩ := h
  have hinside : placelessAll source (nodes?.getD []) = placelessAll source' (nodes?'.getD []) := by
    rw [placelessInside_eq, placelessInside_eq] at hnodes
    cases nodes? <;> cases nodes?' <;> simp_all [placelessAll]
  by_cases hsection : kind = .sectionTag
  · subst hsection
    rw [if_pos rfl, if_pos rfl, Option.some.injEq] at htext
    refine ⟨rfl, rfl, rfl, hinside, fun _ _ => rfl, fun _ => rfl, fun _ => rfl, ?_, ?_⟩
    · intro digest _
      rw [sectionKey, sectionKey, htext]
    · intro _ body
      rw [sectionBody, sectionBody, htext]
  · rw [if_neg hsection, if_neg hsection] at htext
    subst htext
    exact ⟨rfl, rfl, rfl, hinside, fun _ _ => rfl, fun _ => rfl, fun _ => rfl,
      fun _ h => absurd h hsection, fun h => absurd h hsection⟩

theorem exists_resembling {t : Token} {ts us : List Token}
    (h : placelessAll source (t :: ts) = placelessAll source' us) :
    ∃ u us', us = u :: us' ∧ Resembles source source' t u ∧
      placelessAll source ts = placelessAll source' us' := by
  cases us with
  | nil => rw [placelessAll, placelessAll] at h; cases h
  | cons u us' =>
    rw [placelessAll, placelessAll] at h
    obtain ⟨hnode, hrest⟩ := List.cons.inj h
    exact ⟨u, us', rfl, .of_placeless hnode, hrest⟩

mutual

/-- **Nodes that differ in their places only are walked alike**: they give
the same code, and the same is filed. -/
theorem Walked.unique : ∀ {s s₁ s₁' : State} {ts us : List Token} {code code' : List Instr},
    Walked digest source s ts code s₁ → Walked digest source' s us code' s₁' →
      placelessAll source ts = placelessAll source' us → code = code' ∧ s₁ = s₁'
  | _, _, _, _, us, _, _, .nil, h', hsame => by
    cases us with
    | nil => cases h'; exact ⟨rfl, rfl⟩
    | cons u us => rw [placelessAll, placelessAll] at hsame; cases hsame
  | _, _, _, _, _, _, _, .pragma hkind hmore, h', hsame => by
    obtain ⟨u, us, rfl, hnode, hrest⟩ := exists_resembling hsame
    have hmore' := h'.of_pragma (hnode.kind.trans hkind)
    rw [hnode.name] at hmore'
    exact hmore.unique hmore' hrest
  | _, _, _, _, _, _, _, .leaf hcode hmore, h', hsame => by
    obtain ⟨u, us, rfl, hnode, hrest⟩ := exists_resembling hsame
    obtain ⟨more', hmore', rfl⟩ := h'.of_leaf ((hnode.leafCode _ _).trans hcode)
    rw [hnode.startsAfter] at hmore'
    obtain ⟨rfl, rfl⟩ := hmore.unique hmore' hrest
    exact ⟨rfl, rfl⟩
  | _, _, _, _, _, _, _, .newSection hkind hnew hbody hmore, h', hsame => by
    obtain ⟨u, us, rfl, hnode, hrest⟩ := exists_resembling hsame
    -- the keys are the same, so that it is new to the other walk too
    have hkey := hnode.key digest hkind
    rcases h'.of_section (hnode.kind.trans hkind) with
      ⟨-, body', s₂, more', hbody', hmore', rfl⟩ | ⟨hknown, -⟩
    · obtain ⟨rfl, rfl⟩ := hbody.unique hbody' hnode.nodes
      rw [hkey, hnode.body hkind] at hmore'
      obtain ⟨rfl, rfl⟩ := hmore.unique hmore' hrest
      rw [hkey, hnode.name, hnode.filters]
      exact ⟨rfl, rfl⟩
    · rw [hkey, hnew] at hknown
      cases hknown
  | _, _, _, _, _, _, _, .knownSection hkind hknown hmore, h', hsame => by
    obtain ⟨u, us, rfl, hnode, hrest⟩ := exists_resembling hsame
    have hkey := hnode.key digest hkind
    rcases h'.of_section (hnode.kind.trans hkind) with ⟨hnew, -⟩ | ⟨-, more', hmore', rfl⟩
    · rw [hkey, hknown] at hnew
      cases hnew
    · obtain ⟨rfl, rfl⟩ := hmore.unique hmore' hrest
      rw [hkey, hnode.name, hnode.filters]
      exact ⟨rfl, rfl⟩
  | _, _, _, _, _, _, _, .inverted hkind hbody hmore, h', hsame => by
    obtain ⟨u, us, rfl, hnode, hrest⟩ := exists_resembling hsame
    obtain ⟨body', s₂, more', hbody', hmore', rfl⟩ := h'.of_inverted (hnode.kind.trans hkind)
    obtain ⟨rfl, rfl⟩ := hbody.unique hbody' hnode.nodes
    obtain ⟨rfl, rfl⟩ := hmore.unique hmore' hrest
    rw [hnode.name, hnode.filters]
    exact ⟨rfl, rfl⟩
  | _, _, _, _, _, _, _, .extend hkind hos hmore, h', hsame => by
    obtain ⟨u, us, rfl, hnode, hrest⟩ := exists_resembling hsame
    obtain ⟨os', s₂, more', hos', hmore', rfl⟩ := h'.of_parent (hnode.kind.trans hkind)
    obtain ⟨rfl, rfl⟩ := hos.unique hos' hnode.nodes
    obtain ⟨rfl, rfl⟩ := hmore.unique hmore' hrest
    rw [hnode.templateName]
    exact ⟨rfl, rfl⟩
  | _, _, _, _, _, _, _, .block hkind hbody hmore, h', hsame => by
    obtain ⟨u, us, rfl, hnode, hrest⟩ := exists_resembling hsame
    obtain ⟨body', s₂, more', hbody', hmore', rfl⟩ := h'.of_block (hnode.kind.trans hkind)
    obtain ⟨rfl, rfl⟩ := hbody.unique hbody' hnode.nodes
    obtain ⟨rfl, rfl⟩ := hmore.unique hmore' hrest
    rw [hnode.name]
    exact ⟨rfl, rfl⟩

theorem WalkedOverrides.unique :
    ∀ {s s₁ s₁' : State} {ts us : List Token} {os os' : List (String × String)},
      WalkedOverrides digest source s ts os s₁ → WalkedOverrides digest source' s us os' s₁' →
        placelessAll source ts = placelessAll source' us → os = os' ∧ s₁ = s₁'
  | _, _, _, _, us, _, _, .nil, h', hsame => by
    cases us with
    | nil => cases h'; exact ⟨rfl, rfl⟩
    | cons u us => rw [placelessAll, placelessAll] at hsame; cases hsame
  | _, _, _, _, _, _, _, .skip hkind hmore, h', hsame => by
    obtain ⟨u, us, rfl, hnode, hrest⟩ := exists_resembling hsame
    cases h' with
    | skip _ hmore' => exact hmore.unique hmore' hrest
    | override hkind' _ _ => exact absurd (hnode.kind.symm.trans hkind') hkind
  | _, _, _, _, _, _, _, .override hkind hbody hmore, h', hsame => by
    obtain ⟨u, us, rfl, hnode, hrest⟩ := exists_resembling hsame
    cases h' with
    | skip hkind' _ => exact absurd (hnode.kind.trans hkind) hkind'
    | override _ hbody' hmore' =>
      obtain ⟨rfl, rfl⟩ := hbody.unique hbody' hnode.nodes
      obtain ⟨rfl, rfl⟩ := hmore.unique hmore' hrest
      rw [hnode.name]
      exact ⟨rfl, rfl⟩

end

end Places

end Compile

end Mustache
