import Mustache.Program.Compile
import Mustache.Proofs.Nesting
/-!
# Mustache — the text of a section

A node of a section has the offsets of its two tags and says with which
delimiters the first is written. Between the tokens of the two tags stand
tokens that the parser takes by themselves: they open and close only tags
of their own (`enclosed_ofTokens`). The scanner put pragmas elsewhere, but
that does not matter to the text between the tags: scanned by itself it has
the same tokens (`Scan.exists_between_tags`).

So the text of a section is a template in its own right
(`sections_ofTokens`), with one reservation: a pragma tag that stands
elsewhere in the template is not in effect for the text alone.
-/

namespace Mustache

namespace Tree

open Token (Everywhere EverywhereIn Fresh PragmasFirst)

/-! ## Turn by turn -/

/-- The pragmas in effect do not change once all of them were taken. -/
theorem pragmas_build {s s' : State} {ts : List Token} (h : build s ts = .ok s')
    (hts : ∀ t ∈ ts, t.Fresh) (hplain : ∀ t ∈ ts, t.kind ≠ .pragma) : s'.pragmas = s.pragmas := by
  have htake := nesting_build hts s
  rw [h] at htake
  exact Nesting.takeAll_of_plain hplain htake.symm

/-- **A turn of a build**, after some tokens: the token is taken with the
pragmas that are in effect at the end, unless it is one, and then only
pragmas came before. -/
structure TurnIn (set : PragmaSet) (ts done : List Token) (t : Token) (l : List Token)
    (os : List OpenTag) (l' : List Token) (os' : List OpenTag) : Prop where
  tokens : ∃ after, ts = done ++ t :: after
  fresh : t.Fresh
  turn : Turn t l os l' os'
  take : t.kind ≠ .pragma →
    (⟨set, os.map (·.tag)⟩ : Nesting).take t = .ok ⟨set, os'.map (·.tag)⟩
  pragma : t.kind = .pragma → ∀ u ∈ done, u.kind = .pragma

/-- **What every turn keeps**, and what the white space that is taken away
does not matter to, holds when all tokens are taken. -/
theorem turns_build {I : List Token → List Token → List OpenTag → Prop} {s s' : State}
    {ts : List Token} (h : build s ts = .ok s') (hfirst : PragmasFirst ts)
    (hfresh : ∀ t ∈ ts, t.Fresh)
    (hleft : ∀ done siblings l os, LeftOf l siblings → I done siblings os → I done l os)
    (hturn : ∀ done t l os l' os', TurnIn s'.pragmas ts done t l os l' os' → I done l os →
      I (done ++ [t]) l' os')
    (hdrop : ∀ done t l os, t.isBlank = true → t.Fresh → I done l os → I (done ++ [t]) l os)
    (hs : I [] s.siblings s.opened) : I ts s'.siblings s'.opened := by
  suffices hfrom : ∀ done rest, ts = done ++ rest → build s rest = .ok s' →
      I done s.siblings s.opened → I ts s'.siblings s'.opened from hfrom [] ts rfl h hs
  clear h hs
  intro done rest hts h hI
  induction s, rest using build.induct generalizing done with
  | case1 s =>
    rw [build] at h
    cases h
    rwa [hts, List.append_nil]
  | case2 s t rest s₁ drops hstep ih =>
    rw [build, hstep] at h
    obtain ⟨l, hl, hturned⟩ := turn_of_step hstep
    have hfresh_rest : ∀ u ∈ rest, u.Fresh := fun u hu => hfresh u (by rw [hts]; simp [hu])
    obtain ⟨-, hlater, hearlier⟩ := List.pairwise_append.1 (hts ▸ hfirst)
    have hrest := (List.pairwise_cons.1 hlater).1
    -- no pragma is behind a tag of another kind: those in effect here are those at the end
    have hin : TurnIn s'.pragmas ts done t l s.opened s₁.siblings s₁.opened := by
      refine ⟨⟨rest, hts⟩, hfresh t (by rw [hts]; simp), hturned, fun hkind => ?_,
        fun hkind u hu => hearlier u hu t List.mem_cons_self hkind⟩
      have hown := take_of_step hstep
      have hsame : s₁.pragmas = s.pragmas := Nesting.take_of_plain hkind hown
      have hend : s'.pragmas = s₁.pragmas :=
        pragmas_build h (fun u hu => hfresh_rest u (mem_of_mem_after hu))
          fun u hu hpragma => hkind (hrest u (mem_of_mem_after hu) hpragma)
      rw [hend]
      rw [State.nesting, State.nesting, ← hsame] at hown
      exact hown
    have hnext := hturn _ _ _ _ _ _ hin (hleft _ _ _ _ hl hI)
    cases drops with
    | false => exact ih _ (by simp [hts]) h hnext
    | true =>
      obtain ⟨next, more, rfl, hblank⟩ := exists_of_step_drops hstep
      have hdropped := hdrop _ next _ _ hblank (hfresh_rest next List.mem_cons_self) hnext
      exact ih _ (by simp [hts]) h hdropped
  | case3 s t rest e hstep =>
    rw [build, hstep] at h
    cases h

/-! ## What a tag encloses -/

/-- **What a section encloses** among the tokens: between a section tag and
a closing tag, where the node has its offsets from, stand tokens that the
parser takes by themselves. -/
structure Encloses (set : PragmaSet) (ts : List Token) (node first : Token)
    (inside : List Token) (last : Token) : Prop where
  tokens : ∃ before after, ts = before ++ first :: (inside ++ last :: after)
  opens : first.kind = .sectionTag
  closes : last.kind = .closingTag
  offset : node.offset? = first.offset?
  delimiters : node.delimiters? = first.delimiters?
  stop : node.stop? = last.offset?
  taken : (⟨set, []⟩ : Nesting).takeAll inside = .ok ⟨set, []⟩

/-- If the node is a section, it encloses some of the tokens. -/
def EnclosesSome (set : PragmaSet) (ts : List Token) (node : Token) : Prop :=
  node.kind = .sectionTag → ∃ first inside last, Encloses set ts node first inside last

/-- **A tag is open**, and since it was opened the parser took tokens that
opened the tags above it and no others. -/
def OpenedIn (set : PragmaSet) (done above : List Token) (tag : Token) : Prop :=
  ∃ inParent before first inside, done = before ++ first :: inside ∧
    IsTagOf inParent first tag ∧ (⟨set, []⟩ : Nesting).takeAll inside = .ok ⟨set, above⟩

/-- The tree so far, and the tokens it is made of. -/
structure Tracked (set : PragmaSet) (ts done : List Token) (l : List Token) (os : List OpenTag) :
    Prop where
  tags : ∀ above tag below, os.map (·.tag) = above ++ tag :: below → tag.kind ≠ .parentTag →
    OpenedIn set done above tag
  siblings : ∀ t ∈ l, Everywhere (EnclosesSome set ts) t
  before : ∀ o ∈ os, ∀ t ∈ o.before, Everywhere (EnclosesSome set ts) t

section

variable {set : PragmaSet} {ts done above above' below : List Token} {tag t u : Token}
variable {l l' : List Token} {os os' : List OpenTag}

/-- A tag stays open, whatever is taken above it. -/
theorem OpenedIn.take (h : OpenedIn set done above tag) (hparent : tag.kind ≠ .parentTag)
    (htake : (⟨set, above ++ tag :: below⟩ : Nesting).take t =
      .ok ⟨set, above' ++ tag :: below⟩) : OpenedIn set (done ++ [t]) above' tag := by
  obtain ⟨inParent, before, first, inside, rfl, htag, htaken⟩ := h
  refine ⟨inParent, before, first, inside ++ [t], by simp, htag, ?_⟩
  rw [Nesting.takeAll_append, htaken]
  change Nesting.takeAll _ [t] = _
  rcases Nesting.take_above (n := ⟨set, above⟩) hparent htake with ⟨n', hown, heq⟩ | ⟨-, hclosed⟩
  · have hset : set = n'.pragmas := congrArg Nesting.pragmas heq
    have htags : above' = n'.tags := List.append_cancel_right (congrArg Nesting.tags heq)
    rw [Nesting.takeAll_cons, hown, hset, htags]
    rfl
  · have hlength := congrArg List.length hclosed
    simp at hlength
    omega

/-- A pragma is taken before any tag is opened. -/
theorem OpenedIn.not_only_pragmas (h : OpenedIn set done above tag) :
    ¬ ∀ t ∈ done, t.kind = .pragma := by
  obtain ⟨inParent, before, first, inside, rfl, htag, -⟩ := h
  intro hall
  have hfirst := hall first (by simp)
  rcases htag.kind with ⟨-, hkind⟩ | ⟨hkind, -⟩
  · rw [hfirst] at hkind
    exact absurd hkind (by decide)
  · rw [hfirst] at hkind
    cases hkind

/-- White space that goes with a tag changes nothing. -/
theorem Tracked.drop (h : Tracked set ts done l os) (hu : u.kind = .text)
    (hname : u.name? = none) : Tracked set ts (done ++ [u]) l os where
  tags above tag below htags hparent :=
    (h.tags above tag below htags hparent).take hparent
      (Nesting.take_text ⟨set, above ++ tag :: below⟩ hu hname)
  siblings := h.siblings
  before := h.before

/-- A section that is closed encloses what was taken since its tag was
opened. -/
theorem OpenedIn.encloses (h : OpenedIn set done [] tag) {after : List Token}
    (hts : ts = done ++ t :: after) (hkind : tag.kind = .sectionTag)
    (hcloses : t.kind = .closingTag) (nodes? : Option (List Token)) :
    EnclosesSome set ts { tag with stop? := t.offset?, nodes? := nodes? } := by
  obtain ⟨inParent, before, first, inside, rfl, htag, htaken⟩ := h
  intro _
  refine ⟨first, inside, t, ?_⟩
  constructor
  · exact ⟨before, after, by rw [hts, List.append_assoc, List.cons_append]⟩
  · rcases htag.kind with ⟨hsame, -⟩ | ⟨-, hblock, -⟩
    · rw [← hsame, hkind]
    · rw [hkind] at hblock
      cases hblock
  · exact hcloses
  · exact htag.shape.offset
  · exact htag.shape.delimiters
  · rfl
  · exact htaken

/-- **A turn keeps track.** -/
theorem Tracked.turn (h : Tracked set ts done l os) (hturn : Turn t l os l' os')
    (hts : ∃ after, ts = done ++ t :: after) (hnodes : t.nodes? = none)
    (htake : t.kind ≠ .pragma →
      (⟨set, os.map (·.tag)⟩ : Nesting).take t = .ok ⟨set, os'.map (·.tag)⟩)
    (hpragma : t.kind = .pragma → ∀ u ∈ done, u.kind = .pragma) :
    Tracked set ts (done ++ [t]) l' os' := by
  obtain ⟨after, hts⟩ := hts
  -- a tag that was open and is open still has taken the token, whatever is open above it
  have hkeep (above above' below : List Token) (tag : Token)
      (hos : os.map (·.tag) = above ++ tag :: below)
      (hos' : os'.map (·.tag) = above' ++ tag :: below) (hparent : tag.kind ≠ .parentTag) :
      OpenedIn set (done ++ [t]) above' tag := by
    have hopen := h.tags above tag below hos hparent
    by_cases hkind : t.kind = .pragma
    · exact absurd (hpragma hkind) hopen.not_only_pragmas
    · have htake := htake hkind
      rw [hos, hos'] at htake
      exact hopen.take hparent htake
  cases hturn with
  | pass => exact ⟨fun _ _ _ hos hparent => hkeep _ _ _ _ hos hos hparent, h.siblings, h.before⟩
  | leaf hleaf =>
    refine ⟨fun _ _ _ hos hparent => hkeep _ _ _ _ hos hos hparent, ?_, h.before⟩
    refine List.forall_mem_cons.2 ⟨Token.everywhere_iff.2 ⟨fun hkind => ?_, ?_⟩, h.siblings⟩
    · rcases hleaf.kind with ⟨hsame, hnot⟩ | ⟨-, hescaped⟩
      · rw [← hsame, hkind] at hnot
        exact absurd hnot (by decide)
      · rw [hkind] at hescaped
        cases hescaped
    · rw [Token.nodes, hleaf.nodes, hnodes]
      exact trivial
  | enter htag =>
    refine ⟨fun above tag below hos hparent => ?_, List.forall_mem_nil _, ?_⟩
    · cases above with
      | nil =>
        obtain ⟨rfl, -⟩ := List.cons.inj hos
        exact ⟨_, done, t, [], rfl, htag, rfl⟩
      | cons newest above => exact hkeep _ _ _ _ (List.cons.inj hos).2 hos hparent
    · exact List.forall_mem_cons.2 ⟨h.siblings, h.before⟩
  | @close o _ hcloses =>
    obtain ⟨hbefore, hmore⟩ := List.forall_mem_cons.1 h.before
    refine ⟨fun above tag below hos hparent => ?_, ?_, hmore⟩
    · exact hkeep (o.tag :: above) _ _ _ (congrArg (o.tag :: ·) hos) hos hparent
    · refine List.forall_mem_cons.2 ⟨Token.everywhere_iff.2 ⟨fun hkind => ?_, ?_⟩, hbefore⟩
      · have hsection : o.tag.kind = .sectionTag := hkind
        have hopen := h.tags [] o.tag _ rfl (by rw [hsection]; decide)
        exact hopen.encloses hts hkind hcloses _ hkind
      · exact Token.everywhereIn_iff.2 fun u hu => h.siblings u (List.mem_reverse.1 hu)

end

theorem tracked_build {s s' : State} {ts : List Token} (h : build s ts = .ok s')
    (hfirst : PragmasFirst ts) (hfresh : ∀ t ∈ ts, t.Fresh)
    (hs : Tracked s'.pragmas ts [] s.siblings s.opened) :
    Tracked s'.pragmas ts ts s'.siblings s'.opened :=
  turns_build h hfirst hfresh
    (fun _ _ _ _ hl h => ⟨h.tags, hl.forall_mem h.siblings, h.before⟩)
    (fun _ _ _ _ _ _ hturned h =>
      h.turn hturned.turn hturned.tokens hturned.fresh.nodes hturned.take hturned.pragma)
    (fun _ _ _ _ hblank hfresh h =>
      h.drop (isBlank_kind hblank) (hfresh.name_of_text (isBlank_kind hblank))) hs

/-- **What a section encloses the parser takes by itself**, and its node has
the offsets of its two tags. -/
theorem enclosed_ofTokens {pragmas : List Pragma} {ts : List Token} {tree : Tree}
    (h : ofTokens pragmas ts = .ok tree) (hfirst : PragmasFirst ts) (hfresh : ∀ t ∈ ts, t.Fresh) :
    EverywhereIn (EnclosesSome tree.pragmas ts) tree.nodes := by
  obtain ⟨s, hbuild, -, rfl⟩ := ofTokens_eq_ok_iff.1 h
  have htracked := tracked_build hbuild hfirst hfresh
    ⟨fun above tag below hnil => by simp at hnil, nofun, nofun⟩
  exact Token.everywhereIn_iff.2 fun t ht => htracked.siblings t (List.mem_reverse.1 ht)

end Tree

/-! ## Tokens as they stand -/

namespace Scan

open Token (Moved)

/-- The two tags stand in the text as they stand in the list with the pragmas
put first, and so does what is between them, pragmas apart. -/
theorem exists_of_hoistPragmas {raw before inside after : List Token} {first last : Token}
    (h : hoistPragmas raw = before ++ first :: (inside ++ last :: after))
    (hfirst : first.kind ≠ .pragma) :
    ∃ before' inside' after', raw = before' ++ first :: (inside' ++ last :: after') ∧
      inside'.filter (fun t => t.kind ≠ .pragma) = inside := by
  -- no pragma is cut off with the part before, as that ends with a tag that is none
  have hplain : ∃ between, raw.filter (fun t => t.kind ≠ .pragma) =
      between ++ first :: (inside ++ last :: after) := by
    rcases List.append_eq_append_iff.1 h with ⟨between, -, hplain⟩ | ⟨between, hpragmas, hrest⟩
    · exact ⟨between, hplain⟩
    · cases between with
      | nil => exact ⟨[], hrest.symm⟩
      | cons t between =>
        obtain ⟨rfl, -⟩ := List.cons.inj hrest
        have hmem : first ∈ (raw.filter fun t => t.kind = .pragma).reverse := by
          rw [hpragmas]
          simp
        have hkind := (List.mem_filter.1 (List.mem_reverse.1 hmem)).2
        exact absurd (of_decide_eq_true hkind) hfirst
  obtain ⟨between, hplain⟩ := hplain
  obtain ⟨before', rest, rfl, -, hrest⟩ := exists_of_filter_eq hplain
  obtain ⟨inside', after', rfl, hinside, -⟩ := exists_of_filter_eq hrest
  exact ⟨before', inside', after', rfl, hinside⟩

/-- The pragmas that are put first are those of the text, last one first. -/
theorem filter_hoistPragmas (ts : List Token) :
    ((hoistPragmas ts).filter fun t => t.kind = .pragma) =
      (ts.filter fun t => t.kind = .pragma).reverse := by
  rw [hoistPragmas, List.filter_append, List.filter_reverse, List.filter_filter,
    List.filter_filter]
  simp

/-- What is asked of its kind a token at another place has too. -/
theorem moved_filter {ts us : List Token} (h : List.Forall₂ Moved ts us)
    (p : TokenKind → Bool) :
    List.Forall₂ Moved (ts.filter fun t => p t.kind) (us.filter fun t => p t.kind) := by
  refine List.rel_filter (fun t u hmoved => ?_) h
  dsimp only
  rw [hmoved.kind]

end Scan

/-! ## The text between the tags -/

namespace Tree

open Compile (sectionSource)
open Token (EverywhereIn Moved)

/-- **The text of a section is a template in its own right**, from the
delimiters in force at its tag: it has tokens, and a tree if the pragmas
that the parser looks at and that are in effect for the template are in
effect for the text alone. These are the ones that its own pragma tags
leave in effect. -/
structure StandsAlone (delimiters : Delimiters) (pragmas : List Pragma) (source : String)
    (set : PragmaSet) (t : Token) (d : Delimiters) : Prop where
  inForce : Scan.InForce delimiters source t d
  accepted : d.Accepted
  delimiters : t.delimiters? = some d
  parsed : ∃ tokens tags, Token.scan d (sectionSource source t) = .ok tokens ∧
    ofTokens pragmas (tokens.filter fun t => t.kind = .pragma) = .ok tags ∧
    (tags.pragmas.Covers set → ∃ tree, ofTokens pragmas tokens = .ok tree)

theorem StandsAlone.isAccepted {delimiters d : Delimiters} {pragmas : List Pragma}
    {source : String} {set : PragmaSet} {t : Token}
    (h : StandsAlone delimiters pragmas source set t d) : t.IsAccepted := by
  intro d' hd'
  rw [h.delimiters] at hd'
  cases hd'
  exact h.accepted

/-- The pragma tags of a part of a template are taken by themselves, too, and
then no pragma is in effect that is not for the template. -/
theorem exists_taken_pragmas {n m : Nesting} {before inside after tokens : List Token}
    (hmoved : List.Forall₂ Moved inside tokens) (htags : n.tags = [])
    (h : n.takeAll (Scan.hoistPragmas (before ++ (inside ++ after))) = .ok m) :
    ∃ m', n.takeAll (tokens.filter fun t => t.kind = .pragma).reverse = .ok m' ∧
      m.pragmas.Covers m'.pragmas ∧ m'.tags = [] := by
  have hpragmas (ts : List Token) :
      ∀ t ∈ (ts.filter fun t => t.kind = .pragma).reverse, t.kind = .pragma := by
    intro t ht
    exact of_decide_eq_true (List.mem_filter.1 (List.mem_reverse.1 ht)).2
  -- the last pragma of a template comes first, and so those after the part do
  rw [Scan.hoistPragmas, List.filter_append, List.filter_append, List.reverse_append,
    List.reverse_append, List.append_assoc, List.append_assoc, Nesting.takeAll_append] at h
  obtain ⟨n₁, hafter, h⟩ := exists_of_bind_eq_ok h
  rw [Nesting.takeAll_append] at h
  obtain ⟨n₂, hinside, h⟩ := exists_of_bind_eq_ok h
  rw [Nesting.takeAll_append] at h
  obtain ⟨n₃, hbefore, h⟩ := exists_of_bind_eq_ok h
  have hend : m.pragmas = n₃.pragmas :=
    Nesting.takeAll_of_plain (fun t ht => of_decide_eq_true (List.mem_filter.1 ht).2) h
  obtain ⟨hset₁, htags₁, -⟩ := Nesting.takeAll_covered (hpragmas after) (.refl _) hafter
  obtain ⟨hset₃, -, -⟩ := Nesting.takeAll_covered (hpragmas before) (.refl _) hbefore
  have hsame : n₁.Alike n₁ := ⟨fun _ _ => rfl, by rw [htags₁, htags]; exact .nil⟩
  have hmoved' := List.rel_reverse (Scan.moved_filter hmoved fun kind => kind = .pragma)
  obtain ⟨m₂, hinside', halike⟩ := Nesting.takeAll_moved hsame hmoved' hinside
  obtain ⟨-, -, m', htaken, hset', htags'⟩ :=
    Nesting.takeAll_covered (hpragmas tokens) hset₁ hinside'
  refine ⟨m', htaken, ?_, htags'.trans htags⟩
  rw [hend]
  exact (hset₃.trans halike.pragmas.covers).trans hset'

/-- What the parser takes by itself in a template it takes by itself. -/
theorem exists_taken_again {set : PragmaSet} {n : Nesting} {inside tokens : List Token}
    (hmoved : List.Forall₂ Moved inside tokens)
    (h : (⟨set, []⟩ : Nesting).takeAll (inside.filter fun t => t.kind ≠ .pragma) = .ok ⟨set, []⟩)
    (hset : set.ParsesAlike n.pragmas) (htags : n.tags = []) :
    ∃ set', n.takeAll (tokens.filter fun t => t.kind ≠ .pragma) = .ok ⟨set', []⟩ := by
  have hsame : (⟨set, []⟩ : Nesting).Alike n := ⟨hset, by rw [htags]; exact .nil⟩
  have hmoved' := Scan.moved_filter hmoved fun kind => kind ≠ .pragma
  obtain ⟨⟨set', tags'⟩, htaken, -, htags'⟩ := Nesting.takeAll_moved hsame hmoved' h
  cases htags'
  exact ⟨set', htaken⟩

/-- **The texts of the sections of a template stand alone.** -/
theorem sections_ofTokens {delimiters : Delimiters} (hd : delimiters.Accepted)
    {pragmas : List Pragma} {source : String} {ts : List Token} {tree : Tree}
    (hscan : Token.scan delimiters source = .ok ts) (htree : ofTokens pragmas ts = .ok tree) :
    EverywhereIn (fun t => t.kind = .sectionTag →
      ∃ d, StandsAlone delimiters pragmas source tree.pragmas t d) tree.nodes := by
  obtain ⟨raw, hraw, rfl⟩ := Scan.exists_of_scan hscan
  have hfresh := Scan.fresh_scan hscan
  have hall := (exists_ofTokens_iff hfresh).1 ⟨tree, htree, rfl⟩
  refine EverywhereIn.mono (fun t hencloses hkind => ?_) tree.nodes
    (enclosed_ofTokens htree (Scan.pragmasFirst_hoistPragmas raw) hfresh)
  obtain ⟨first, inside, last, hencloses⟩ := hencloses hkind
  obtain ⟨before, after, hts⟩ := hencloses.tokens
  have hfirst : first.kind ≠ .pragma := by
    rw [hencloses.opens]
    decide
  -- from the list with the pragmas put first back to the tokens as they stand in the text
  obtain ⟨before, inside', after, rfl, rfl⟩ := Scan.exists_of_hoistPragmas hts hfirst
  obtain ⟨d, text, hbetween⟩ :=
    Scan.exists_between_tags hd hraw hencloses.opens hencloses.closes
  obtain ⟨tokens, htokens, hmoved⟩ := hbetween.rescanned
  have hsource : sectionSource source t = String.ofList text := by
    rw [sectionSource, hencloses.offset, hencloses.stop, hbetween.slice]
    rfl
  have hagain : Token.scan d (sectionSource source t) = .ok (Scan.hoistPragmas tokens) := by
    rw [hsource, Token.scan, String.toList_ofList, htokens]
    rfl
  have hfresh' := Scan.fresh_scan hagain
  -- the pragma tags in the text are among those that the parser took first
  have hparts : before ++ first :: (inside' ++ last :: after) =
      (before ++ [first]) ++ (inside' ++ last :: after) := by simp
  rw [hparts] at hall
  obtain ⟨m, hpragmas, hcovers, htags⟩ := exists_taken_pragmas hmoved rfl hall
  have hown : (⟨.ofPragmas pragmas, []⟩ : Nesting).takeAll
      ((Scan.hoistPragmas tokens).filter fun t => t.kind = .pragma) = .ok ⟨m.pragmas, []⟩ := by
    rw [Scan.filter_hoistPragmas, hpragmas, ← htags]
  obtain ⟨tags, htags', hset⟩ :=
    (exists_ofTokens_iff fun t ht => hfresh' t (List.mem_of_mem_filter ht)).2 hown
  refine ⟨d, ?_, hbetween.accepted, ?_, ?_⟩
  · rw [Scan.InForce, hencloses.offset]
    exact hbetween.inForce
  · rw [hencloses.delimiters, hbetween.delimiters]
  · refine ⟨_, tags, hagain, htags', fun hown => ?_⟩
    rw [hset] at hown
    obtain ⟨set', htaken⟩ := exists_taken_again hmoved hencloses.taken
      (.of_covers hcovers hown) htags
    have hwhole : (⟨.ofPragmas pragmas, []⟩ : Nesting).takeAll (Scan.hoistPragmas tokens) =
        .ok ⟨set', []⟩ := by
      rw [Scan.hoistPragmas, Nesting.takeAll_append, hpragmas]
      exact htaken
    obtain ⟨again, hagain, -⟩ := (exists_ofTokens_iff hfresh').2 hwhole
    exact ⟨again, hagain⟩

end Tree

end Mustache
