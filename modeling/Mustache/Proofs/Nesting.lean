import Mustache.Proofs.Pragmas
import Mustache.Proofs.Segments
/-!
# Mustache — which tokens the parser takes

Whether the parser takes a token depends on the pragmas in effect and on
the tags that are open, and on nothing else: not on lines, on texts, or on
the white space that is taken away around a tag. `Nesting` is that part of
its state and `Nesting.takeAll` the check by itself. The parser fails when
the check does, with the same error (`nesting_build`), and accepts a list
of tokens if the check ends with no tag open (`exists_ofTokens_iff`).

What the check can do with one token is listed by `Nesting.Fits` and
`Nesting.Clashes`. Of all of it three things are proved. What goes on above an open tag that
is no parent goes on alike with nothing below (`Nesting.take_above`). It
goes on alike for tokens that are read alike (`Nesting.takeAll_alike`), as
the same tokens at other places are (`Nesting.takeAll_moved`). And pragma
tags are taken where fewer pragmas are in effect
(`Nesting.takeAll_covered`).
-/

namespace Mustache

namespace Tree

/-- The pragmas in effect and the open tags, innermost one first. -/
structure Nesting where
  pragmas : PragmaSet
  tags : List Token

namespace Nesting

/-- Whether the next token stands directly inside a parent tag. -/
def inParent (n : Nesting) : Bool := n.tags.head?.any fun p => p.kind = .parentTag

/-- One more tag is open. -/
def enter (n : Nesting) (t : Token) : Nesting := { n with tags := t :: n.tags }

/-- Refuse a tag that stands directly inside a parent tag. -/
def outsideParent (n : Nesting) (t : Token) (next : Nesting) : Except Error Nesting :=
  if n.inParent then .error (.malformed .illegalInParent t) else .ok next

/-- Close the innermost open tag. -/
def close (n : Nesting) (t : Token) : Except Error Nesting :=
  match n.tags with
  | [] => .error (.malformed .unexpectedClosing t)
  | tag :: tags =>
    if t.name ≠ tag.name ∨ t.dynamic ≠ tag.dynamic then .error (.malformed (.nesting tag) t)
    else .ok { n with tags }

/-- Take a token whose name has been read. -/
def place (n : Nesting) (t : Token) : Except Error Nesting :=
  match t.kind with
  | .delimiterTag | .partialTag => n.outsideParent t n
  | .sectionTag | .invertedTag | .parentTag => n.outsideParent t (n.enter t)
  | .closingTag => n.close t
  | .blockVar =>
    if n.pragmas.has .blocks then
      .ok (n.enter (if n.inParent then { t with kind := .blockArg } else t))
    else .ok n
  | .pragma => .ok { n with pragmas := n.pragmas.enable t.name }
  | _ => .ok n

/-- Take a token. -/
def take (n : Nesting) (t : Token) : Except Error Nesting := do n.place (← readName n.pragmas t)

/-- Take token after token. -/
def takeAll (n : Nesting) (ts : List Token) : Except Error Nesting := ts.foldlM take n

theorem takeAll_cons (n : Nesting) (t : Token) (ts : List Token) :
    n.takeAll (t :: ts) = n.take t >>= fun m => m.takeAll ts := List.foldlM_cons

theorem takeAll_append (n : Nesting) (ts us : List Token) :
    n.takeAll (ts ++ us) = n.takeAll ts >>= fun m => m.takeAll us := List.foldlM_append

/-! ### Which token fits -/

variable {n m : Nesting} {t : Token} {e : Error}

/-- **A token fits**: what it does to the open tags. Its name has been
read. -/
inductive Fits (n : Nesting) (t : Token) : Nesting → Prop
  | opens (hkind : t.kind ∈ [.sectionTag, .invertedTag, .parentTag]) (hout : n.inParent = false) :
      Fits n t (n.enter t)
  | opensBlock (hkind : t.kind = .blockVar) (hblocks : n.pragmas.has .blocks = true) :
      Fits n t (n.enter (if n.inParent then { t with kind := .blockArg } else t))
  | closes {tag : Token} {below : List Token} (hkind : t.kind = .closingTag)
      (htags : n.tags = tag :: below) (hname : t.name = tag.name)
      (hdynamic : t.dynamic = tag.dynamic) : Fits n t ⟨n.pragmas, below⟩
  | stands (hkind : t.kind ∈ [.delimiterTag, .partialTag]) (hout : n.inParent = false) :
      Fits n t n
  | enables (hkind : t.kind = .pragma) : Fits n t ⟨n.pragmas.enable t.name, n.tags⟩
  | plain (hkind : t.kind ∈ [.comment, .escaped, .tripleBrace, .ampersand, .text, .blockArg]) :
      Fits n t n
  | asVariable (hkind : t.kind = .blockVar) (hblocks : n.pragmas.has .blocks = false) : Fits n t n

/-- **A token clashes** with the open tags, and the error that is reported.
Its name has been read. -/
inductive Clashes (n : Nesting) (t : Token) : Error → Prop
  | inParent (hin : n.inParent = true)
      (hkind : t.kind ∈ [.delimiterTag, .sectionTag, .invertedTag, .partialTag, .parentTag]) :
      Clashes n t (.malformed .illegalInParent t)
  | unexpected (hkind : t.kind = .closingTag) (htags : n.tags = []) :
      Clashes n t (.malformed .unexpectedClosing t)
  | mismatched {tag : Token} {below : List Token} (hkind : t.kind = .closingTag)
      (htags : n.tags = tag :: below) (hne : t.name ≠ tag.name ∨ t.dynamic ≠ tag.dynamic) :
      Clashes n t (.malformed (.nesting tag) t)

theorem Fits.place_eq (h : Fits n t m) : n.place t = .ok m := by
  unfold place
  cases h with
  | opens hkind hout =>
    simp only [List.mem_cons, List.not_mem_nil, or_false] at hkind
    rcases hkind with hkind | hkind | hkind <;> simp [hkind, outsideParent, hout]
  | opensBlock hkind hblocks => simp [hkind, hblocks]
  | closes hkind htags hname hdynamic => simp [hkind, close, htags, hname, hdynamic]
  | stands hkind hout =>
    simp only [List.mem_cons, List.not_mem_nil, or_false] at hkind
    rcases hkind with hkind | hkind <;> simp [hkind, outsideParent, hout]
  | enables hkind => simp [hkind]
  | plain hkind =>
    simp only [List.mem_cons, List.not_mem_nil, or_false] at hkind
    rcases hkind with hkind | hkind | hkind | hkind | hkind | hkind <;> simp [hkind]
  | asVariable hkind hblocks => simp [hkind, hblocks]

theorem Clashes.place_eq (h : Clashes n t e) : n.place t = .error e := by
  unfold place
  cases h with
  | inParent hin hkind =>
    simp only [List.mem_cons, List.not_mem_nil, or_false] at hkind
    rcases hkind with hkind | hkind | hkind | hkind | hkind <;> simp [hkind, outsideParent, hin]
  | unexpected hkind htags => simp [hkind, close, htags]
  | mismatched hkind htags hne => simp [hkind, close, htags, hne]

/-- A token fits or clashes. -/
theorem exists_fits_or_clashes (n : Nesting) (t : Token) :
    (∃ m, Fits n t m) ∨ ∃ e, Clashes n t e := by
  have hstands (hkind : t.kind ∈ [.delimiterTag, .partialTag]) :
      (∃ m, Fits n t m) ∨ ∃ e, Clashes n t e := by
    cases hin : n.inParent with
    | false => exact .inl ⟨_, .stands hkind hin⟩
    | true => exact .inr ⟨_, .inParent hin (by revert hkind; cases t.kind <;> decide)⟩
  have hopens (hkind : t.kind ∈ [.sectionTag, .invertedTag, .parentTag]) :
      (∃ m, Fits n t m) ∨ ∃ e, Clashes n t e := by
    cases hin : n.inParent with
    | false => exact .inl ⟨_, .opens hkind hin⟩
    | true => exact .inr ⟨_, .inParent hin (by revert hkind; cases t.kind <;> decide)⟩
  cases hkind : t.kind with
  | delimiterTag | partialTag => exact hstands (by rw [hkind]; decide)
  | sectionTag | invertedTag | parentTag => exact hopens (by rw [hkind]; decide)
  | closingTag =>
    cases htags : n.tags with
    | nil => exact .inr ⟨_, .unexpected hkind htags⟩
    | cons tag below =>
      by_cases hsame : t.name = tag.name ∧ t.dynamic = tag.dynamic
      · exact .inl ⟨_, .closes hkind htags hsame.1 hsame.2⟩
      · exact .inr ⟨_, .mismatched hkind htags (by tauto)⟩
  | blockVar =>
    cases hblocks : n.pragmas.has .blocks with
    | true => exact .inl ⟨_, .opensBlock hkind hblocks⟩
    | false => exact .inl ⟨_, .asVariable hkind hblocks⟩
  | pragma => exact .inl ⟨_, .enables hkind⟩
  | comment | escaped | tripleBrace | ampersand | text | blockArg =>
    exact .inl ⟨_, .plain (by rw [hkind]; decide)⟩

theorem place_eq_ok_iff : n.place t = .ok m ↔ Fits n t m := by
  refine ⟨fun h => ?_, Fits.place_eq⟩
  rcases exists_fits_or_clashes n t with ⟨m', hfits⟩ | ⟨e, hclashes⟩
  · rw [hfits.place_eq] at h
    cases h
    exact hfits
  · rw [hclashes.place_eq] at h
    cases h

theorem place_eq_error_iff : n.place t = .error e ↔ Clashes n t e := by
  refine ⟨fun h => ?_, Clashes.place_eq⟩
  rcases exists_fits_or_clashes n t with ⟨m, hfits⟩ | ⟨e', hclashes⟩
  · rw [hfits.place_eq] at h
    cases h
  · rw [hclashes.place_eq] at h
    cases h
    exact hclashes

end Nesting

/-! ## The parser checks so -/

/-- What of the state the check sees. -/
def State.nesting (s : State) : Nesting := ⟨s.pragmas, s.opened.map (·.tag)⟩

theorem State.nesting_inParent (s : State) :
    s.nesting.inParent = s.enclosing?.any fun p => p.kind = .parentTag := by
  unfold Nesting.inParent nesting enclosing?
  rw [List.head?_map]

@[simp] theorem nesting_clear (s : State) (rest : List Token) :
    (clear s rest).state.nesting = s.nesting := by
  rw [State.nesting, clear_pragmas, clear_opened]
  rfl

@[simp] theorem nesting_countLine (s : State) (line : Nat) :
    (s.countLine line).nesting = s.nesting := by
  rw [State.nesting, countLine_pragmas, countLine_opened]
  rfl

/-- Where a parent tag refuses a tag, the check does. -/
theorem nesting_outsideParent {s : State} {t : Token} {next : State × Bool} {n : Nesting}
    (hnext : next.1.nesting = n) :
    (checkOutsideParent s t >>= fun _ => (pure next : Placed)).map (fun r => r.1.nesting) =
      s.nesting.outsideParent t n := by
  unfold checkOutsideParent Nesting.outsideParent
  rw [State.nesting_inParent]
  split
  · rfl
  · exact congrArg Except.ok hnext

theorem nesting_close (s : State) (t : Token) (rest : List Token) :
    (close s t rest).map (fun r => r.1.nesting) = s.nesting.close t := by
  obtain ⟨line?, position, pragmas, siblings, opened⟩ := s
  unfold close Nesting.close
  cases opened with
  | nil => rfl
  | cons o opened =>
    change _ = if t.name ≠ o.tag.name ∨ t.dynamic ≠ o.tag.dynamic then
      Except.error (Error.malformed (.nesting o.tag) t)
      else Except.ok (⟨pragmas, opened.map (·.tag)⟩ : Nesting)
    dsimp only
    split
    · rfl
    · have hpragmas := clear_pragmas ⟨line?, position, pragmas, siblings, o :: opened⟩ rest
      exact congrArg (fun pragmas => Except.ok (⟨pragmas, opened.map (·.tag)⟩ : Nesting)) hpragmas

theorem nesting_place (s : State) (t : Token) (rest : List Token) :
    (place s t rest).map (fun r => r.1.nesting) = s.nesting.place t := by
  have hcleared := nesting_clear s rest
  have hpragmas := clear_pragmas s rest
  have hopened := clear_opened s rest
  unfold place Nesting.place
  cases hkind : t.kind <;> dsimp only
  case sectionTag | invertedTag =>
    refine nesting_outsideParent ?_
    rw [← hcleared]
    rfl
  case parentTag => exact nesting_outsideParent rfl
  case delimiterTag | partialTag => exact nesting_outsideParent hcleared
  case closingTag => exact nesting_close s t rest
  case blockVar =>
    rw [State.nesting_inParent]
    change _ = if s.pragmas.has .blocks = true then _ else _
    split
    · refine congrArg Except.ok ?_
      rw [State.enter, State.nesting, hpragmas, hopened]
      rfl
    · rfl
  case pragma =>
    refine congrArg Except.ok ?_
    rw [State.add, State.nesting, hopened]
    rfl
  case comment => exact congrArg Except.ok hcleared
  all_goals rfl

/-- **A step checks its token.** -/
theorem nesting_step (s : State) (t : Token) (rest : List Token) :
    (step s t rest).map (fun r => r.1.nesting) = s.nesting.take t := by
  unfold step Nesting.take
  have hpragmas : s.nesting.pragmas = (s.countLine t.line).pragmas := (countLine_pragmas _ _).symm
  dsimp only
  rw [hpragmas]
  cases readName (s.countLine t.line).pragmas t with
  | error e => rfl
  | ok u =>
    have hplace := nesting_place (s.countLine t.line) u rest
    rw [nesting_countLine] at hplace
    exact hplace

/-- A step that succeeds is one of the check. -/
theorem take_of_step {s s' : State} {t : Token} {rest : List Token} {drops : Bool}
    (h : step s t rest = .ok (s', drops)) : s.nesting.take t = .ok s'.nesting := by
  rw [← nesting_step s t rest, h]
  rfl

/-- What goes with a tag is white space. -/
theorem exists_of_clear_drops {s : State} {rest : List Token}
    (h : (clear s rest).dropsNext = true) :
    ∃ next more, rest = next :: more ∧ next.isBlank = true := by
  unfold clear at h
  dsimp only at h
  repeat' split at h
  all_goals
    first
    | (cases h; done)
    | exact ⟨_, _, rfl, (Bool.and_eq_true_iff.1 (by assumption)).1⟩

theorem drops_of_place {s s' : State} {t : Token} {rest : List Token} {drops : Bool}
    (h : place s t rest = .ok (s', drops)) : drops = false ∨ drops = (clear s rest).dropsNext := by
  cases placing_of_place h with
  | enterParent | addSigil | addLeaf => exact .inl rfl
  | _ => exact .inr rfl

/-- A step takes the next token away only if that is white space. -/
theorem exists_of_step_drops {s s' : State} {t : Token} {rest : List Token}
    (h : step s t rest = .ok (s', true)) :
    ∃ next more, rest = next :: more ∧ next.isBlank = true := by
  obtain ⟨u, -, h⟩ := exists_of_step h
  have hdrops := (drops_of_place h).resolve_left Bool.noConfusion
  exact exists_of_clear_drops hdrops.symm

/-- A token without a name changes nothing, if it is a piece of text. -/
theorem Nesting.take_text (n : Nesting) {t : Token} (hkind : t.kind = .text)
    (hname : t.name? = none) : n.take t = .ok n := by
  have hread : readName n.pragmas t = .ok t := by
    rw [readName, hname, if_pos (.inr rfl)]
  rw [take, hread]
  change n.place t = _
  rw [place, hkind]

/-- **The parser fails exactly when the check does**, and with the same
error. -/
theorem nesting_build {ts : List Token} (hts : ∀ t ∈ ts, t.Fresh) (s : State) :
    (build s ts).map State.nesting = s.nesting.takeAll ts := by
  induction s, ts using build.induct with
  | case1 s =>
    rw [build]
    rfl
  | case2 s t rest s₁ drops hstep ih =>
    rw [build, hstep, Nesting.takeAll_cons, take_of_step hstep]
    refine (ih fun u hu => hts u (List.mem_cons_of_mem t (mem_of_mem_after hu))).trans ?_
    cases drops with
    | false => rfl
    | true =>
      obtain ⟨next, more, rfl, hblank⟩ := exists_of_step_drops hstep
      have hkind := isBlank_kind hblank
      have hnext := hts next (List.mem_cons_of_mem t List.mem_cons_self)
      change s₁.nesting.takeAll more = s₁.nesting.takeAll (next :: more)
      rw [Nesting.takeAll_cons, Nesting.take_text _ hkind (hnext.name_of_text hkind)]
      rfl
  | case3 s t rest e hstep =>
    have htake := nesting_step s t rest
    rw [hstep] at htake
    rw [build, hstep, Nesting.takeAll_cons, ← htake]
    rfl

/-- **A list of tokens has a tree if the check takes them all** and no tag
is open then. -/
theorem exists_ofTokens_iff {ts : List Token} (hts : ∀ t ∈ ts, t.Fresh) {pragmas : List Pragma}
    {set : PragmaSet} :
    (∃ tree, ofTokens pragmas ts = .ok tree ∧ tree.pragmas = set) ↔
      (⟨.ofPragmas pragmas, []⟩ : Nesting).takeAll ts = .ok ⟨set, []⟩ := by
  have hbuild := nesting_build hts ⟨none, 0, .ofPragmas pragmas, [], []⟩
  constructor
  · rintro ⟨tree, htree, rfl⟩
    obtain ⟨s, hs, hopened, rfl⟩ := ofTokens_eq_ok_iff.1 htree
    rw [hs] at hbuild
    refine hbuild.symm.trans (congrArg Except.ok ?_)
    rw [State.nesting, hopened]
    rfl
  · intro htake
    rw [show State.nesting _ = ⟨PragmaSet.ofPragmas pragmas, []⟩ from rfl, htake] at hbuild
    cases hs : build ⟨none, 0, .ofPragmas pragmas, [], []⟩ ts with
    | error e => rw [hs] at hbuild; cases hbuild
    | ok s =>
      rw [hs] at hbuild
      have hnesting : s.nesting = ⟨set, []⟩ := Except.ok.inj hbuild
      have hopened : s.opened = [] := List.map_eq_nil_iff.1 (congrArg Nesting.tags hnesting)
      have hpragmas : s.pragmas = set := congrArg Nesting.pragmas hnesting
      exact ⟨_, ofTokens_eq_ok_iff.2 ⟨s, hs, hopened, rfl⟩, hpragmas⟩

/-! ## What is above an open tag -/

namespace Nesting

variable {n m : Nesting} {o t u : Token} {below : List Token}

/-- With more tags open below. -/
def above (n : Nesting) (o : Token) (below : List Token) : Nesting :=
  { n with tags := n.tags ++ o :: below }

theorem inParent_above (ho : o.kind ≠ .parentTag) : (n.above o below).inParent = n.inParent := by
  unfold inParent above
  cases htags : n.tags with
  | nil => simpa using ho
  | cons tag tags => rfl

theorem place_above (ho : o.kind ≠ .parentTag) (h : (n.above o below).place t = .ok m) :
    (∃ n', n.place t = .ok n' ∧ m = n'.above o below) ∨ (n.tags = [] ∧ m.tags = below) := by
  have hparent : (n.above o below).inParent = n.inParent := inParent_above ho
  simp only [place_eq_ok_iff] at h ⊢
  cases h with
  | opens hkind hout => exact .inl ⟨_, .opens hkind (hparent ▸ hout), rfl⟩
  | opensBlock hkind hblocks =>
    rw [hparent]
    exact .inl ⟨_, .opensBlock hkind hblocks, rfl⟩
  | closes hkind htags hname hdynamic =>
    -- only a closing tag looks at the tags below, and only if none is open above them
    change n.tags ++ o :: below = _ at htags
    cases hown : n.tags with
    | nil =>
      rw [hown] at htags
      exact .inr ⟨rfl, (List.cons.inj htags).2.symm⟩
    | cons tag tags =>
      rw [hown] at htags
      obtain ⟨rfl, rfl⟩ := List.cons.inj htags
      exact .inl ⟨_, .closes hkind hown hname hdynamic, rfl⟩
  | stands hkind hout => exact .inl ⟨_, .stands hkind (hparent ▸ hout), rfl⟩
  | enables hkind => exact .inl ⟨_, .enables hkind, rfl⟩
  | plain hkind => exact .inl ⟨_, .plain hkind, rfl⟩
  | asVariable hkind hblocks => exact .inl ⟨_, .asVariable hkind hblocks, rfl⟩

/-- **Above an open tag that is no parent** a token is taken as if there was
nothing below, or it closes that tag. -/
theorem take_above (ho : o.kind ≠ .parentTag) (h : (n.above o below).take t = .ok m) :
    (∃ n', n.take t = .ok n' ∧ m = n'.above o below) ∨ (n.tags = [] ∧ m.tags = below) := by
  unfold take at h ⊢
  obtain ⟨u, hread, h⟩ := exists_of_bind_eq_ok h
  rw [show (n.above o below).pragmas = n.pragmas from rfl] at hread
  rw [hread]
  exact place_above ho h

end Nesting

end Tree

/-! ## Tokens at other places -/

/-- The pragmas that the parser looks at. -/
def Pragma.parsing : List Pragma := [.filters, .blocks, .dynamicNames]

/-- To the parser two sets of pragmas are the same. -/
def PragmaSet.ParsesAlike (set set' : PragmaSet) : Prop :=
  ∀ p ∈ Pragma.parsing, set.has p = set'.has p

theorem PragmaSet.ParsesAlike.enable {set set' : PragmaSet} (h : set.ParsesAlike set')
    (name : String) : (set.enable name).ParsesAlike (set'.enable name) := by
  intro p hp
  rw [Bool.eq_iff_iff, has_enable, has_enable, h p hp]

/-- As far as the parser looks at them, all pragmas of a set are in another
one. -/
def PragmaSet.Covers (set set' : PragmaSet) : Prop :=
  ∀ p ∈ Pragma.parsing, set'.has p = true → set.has p = true

theorem PragmaSet.ParsesAlike.covers {set set' : PragmaSet} (h : set.ParsesAlike set') :
    set.Covers set' := fun p hp hhas => (h p hp).trans hhas

/-- Sets of which each has what the other has are the same to the parser. -/
theorem PragmaSet.ParsesAlike.of_covers {set set' : PragmaSet} (h : set.Covers set')
    (h' : set'.Covers set) : set.ParsesAlike set' :=
  fun p hp => Bool.eq_iff_iff.2 ⟨h' p hp, h p hp⟩

theorem PragmaSet.Covers.refl (set : PragmaSet) : set.Covers set := fun _ _ h => h

theorem PragmaSet.Covers.trans {set set' set'' : PragmaSet} (h : set.Covers set')
    (h' : set'.Covers set'') : set.Covers set'' := fun p hp hhas => h p hp (h' p hp hhas)

namespace Token.Moved

variable {t u : Token}

theorem exists_eq (h : t.Moved u) :
    ∃ line offset?, u = { t with line := line, offset? := offset? } := ⟨u.line, u.offset?, h⟩

theorem kind (h : t.Moved u) : u.kind = t.kind := by
  obtain ⟨line, offset?, rfl⟩ := h.exists_eq
  rfl

theorem name? (h : t.Moved u) : u.name? = t.name? := by
  obtain ⟨line, offset?, rfl⟩ := h.exists_eq
  rfl

theorem name (h : t.Moved u) : u.name = t.name := by rw [Token.name, Token.name, h.name?]

theorem dynamic (h : t.Moved u) : u.dynamic = t.dynamic := by
  obtain ⟨line, offset?, rfl⟩ := h.exists_eq
  rfl

end Token.Moved

/-- **To the check two tokens are the same tag**: they have one kind and one
name. -/
structure Token.SameTag (t u : Token) : Prop where
  kind : u.kind = t.kind
  name : u.name = t.name
  dynamic : u.dynamic = t.dynamic

theorem Token.Moved.sameTag {t u : Token} (h : t.Moved u) : t.SameTag u :=
  ⟨h.kind, h.name, h.dynamic⟩

namespace Tree

open Token (Moved SameTag)

section

variable {t t' u : Token} {set set' : PragmaSet}

theorem readDynamicName_moved (hmoved : t.Moved u) (h : readDynamicName t = .ok t') :
    ∃ u', readDynamicName u = .ok u' ∧ t'.Moved u' := by
  unfold readDynamicName at h ⊢
  rw [hmoved.name, hmoved.kind]
  split at h
  · split at h
    · next hkind =>
      cases h
      rw [if_pos hkind]
      obtain ⟨line, offset?, rfl⟩ := hmoved.exists_eq
      exact ⟨_, rfl, rfl⟩
    · cases h
  · cases h
    exact ⟨u, rfl, hmoved⟩

theorem readFilters_moved (hmoved : t.Moved u) : (readFilters t).Moved (readFilters u) := by
  unfold readFilters
  rw [hmoved.name]
  obtain ⟨line, offset?, rfl⟩ := hmoved.exists_eq
  split <;> rfl

/-- A name is read in two parts. -/
theorem readName_eq (set : PragmaSet) (t : Token) :
    readName set t =
      if t.kind = .comment ∨ t.name?.isNone then .ok t
      else (if set.has .dynamicNames then readDynamicName t else .ok t) >>= fun v =>
        .ok (if set.has .filters then readFilters v else v) := by
  unfold readName
  cases set.has .dynamicNames <;> rfl

/-- A name is read alike wherever its token stands. -/
theorem readName_moved (hset : set.ParsesAlike set') (hmoved : t.Moved u)
    (h : readName set t = .ok t') : ∃ u', readName set' u = .ok u' ∧ t'.Moved u' := by
  have hfilters := hset .filters (by decide)
  have hdynamic := hset .dynamicNames (by decide)
  rw [readName_eq] at h ⊢
  rw [hmoved.kind, hmoved.name?, ← hfilters, ← hdynamic]
  split at h
  · next hplain =>
    cases h
    exact ⟨u, if_pos hplain, hmoved⟩
  · next hnamed =>
    rw [if_neg hnamed]
    obtain ⟨v, hread, h⟩ := exists_of_bind_eq_ok h
    obtain ⟨w, hread', hmoved'⟩ : ∃ w,
        (if set.has .dynamicNames then readDynamicName u else .ok u) = .ok w ∧ v.Moved w := by
      split at hread
      · next hhas =>
        rw [if_pos hhas]
        exact readDynamicName_moved hmoved hread
      · next hhas =>
        cases hread
        rw [if_neg hhas]
        exact ⟨u, rfl, hmoved⟩
    rw [hread']
    cases h
    refine ⟨_, rfl, ?_⟩
    split
    · exact readFilters_moved hmoved'
    · exact hmoved'

end

namespace Nesting

/-- To the check two states are the same: the same pragmas, as far as it
looks at them, and the same tags. -/
structure Alike (n n' : Nesting) : Prop where
  pragmas : n.pragmas.ParsesAlike n'.pragmas
  tags : List.Forall₂ SameTag n.tags n'.tags

/-- Where the name of the first token is read, so is that of the second, and
they are the same tag then. -/
def ReadAlike (set set' : PragmaSet) (t u : Token) : Prop :=
  ∀ t', readName set t = .ok t' → ∃ u', readName set' u = .ok u' ∧ t'.SameTag u'

variable {n n' m : Nesting} {t u : Token}

theorem Alike.inParent (h : n.Alike n') : n'.inParent = n.inParent := by
  obtain ⟨pragmas, tags⟩ := n
  obtain ⟨pragmas', tags'⟩ := n'
  obtain ⟨-, htags⟩ := h
  unfold Nesting.inParent
  cases htags with
  | nil => rfl
  | cons hsame _ => simp [hsame.kind]

theorem Alike.enter (h : n.Alike n') (hsame : t.SameTag u) : (n.enter t).Alike (n'.enter u) :=
  ⟨h.pragmas, .cons hsame h.tags⟩

theorem place_alike (h : n.Alike n') (hsame : t.SameTag u) (hplace : n.place t = .ok m) :
    ∃ m', n'.place u = .ok m' ∧ m.Alike m' := by
  have hkinds {kinds : List TokenKind} (hkind : t.kind ∈ kinds) : u.kind ∈ kinds :=
    hsame.kind ▸ hkind
  have hblocks := h.pragmas .blocks (by decide)
  simp only [place_eq_ok_iff] at hplace ⊢
  cases hplace with
  | opens hkind hout =>
    exact ⟨_, .opens (hkinds hkind) (h.inParent.trans hout), h.enter hsame⟩
  | opensBlock hkind hhas =>
    refine ⟨_, .opensBlock (hsame.kind.trans hkind) (hblocks.symm.trans hhas), h.enter ?_⟩
    rw [h.inParent]
    split
    · exact ⟨rfl, hsame.name, hsame.dynamic⟩
    · exact hsame
  | closes hkind htags hname hdynamic =>
    have halike := h.tags
    rw [htags] at halike
    generalize htags' : n'.tags = tags' at halike
    cases halike with
    | cons htag hmore =>
      refine ⟨_, .closes (hsame.kind.trans hkind) htags' ?_ ?_, h.pragmas, hmore⟩
      · rw [hsame.name, htag.name, hname]
      · rw [hsame.dynamic, htag.dynamic, hdynamic]
  | stands hkind hout => exact ⟨_, .stands (hkinds hkind) (h.inParent.trans hout), h⟩
  | enables hkind =>
    refine ⟨_, .enables (hsame.kind.trans hkind), ?_, h.tags⟩
    rw [hsame.name]
    exact h.pragmas.enable _
  | plain hkind => exact ⟨_, .plain (hkinds hkind), h⟩
  | asVariable hkind hhas =>
    exact ⟨_, .asVariable (hsame.kind.trans hkind) (hblocks.symm.trans hhas), h⟩

/-- **Tokens that are read alike are taken alike.** -/
theorem take_alike (h : n.Alike n') (hread : ReadAlike n.pragmas n'.pragmas t u)
    (htake : n.take t = .ok m) : ∃ m', n'.take u = .ok m' ∧ m.Alike m' := by
  unfold take at htake ⊢
  obtain ⟨v, hfirst, hplace⟩ := exists_of_bind_eq_ok htake
  obtain ⟨w, hsecond, hsame⟩ := hread v hfirst
  rw [hsecond]
  exact place_alike h hsame hplace

theorem readAlike_of_moved {set set' : PragmaSet} (hset : set.ParsesAlike set')
    (hmoved : t.Moved u) : ReadAlike set set' t u := by
  intro t' hread
  obtain ⟨u', hread', hmoved'⟩ := readName_moved hset hmoved hread
  exact ⟨u', hread', hmoved'.sameTag⟩

/-- **The same tokens at other places are taken alike.** -/
theorem takeAll_moved {ts us : List Token} (h : n.Alike n') (hmoved : List.Forall₂ Moved ts us)
    (htake : n.takeAll ts = .ok m) : ∃ m', n'.takeAll us = .ok m' ∧ m.Alike m' := by
  induction hmoved generalizing n n' with
  | nil =>
    cases htake
    exact ⟨n', rfl, h⟩
  | cons hmoved _ ih =>
    rw [takeAll_cons] at htake
    obtain ⟨m₁, hfirst, hmore⟩ := exists_of_bind_eq_ok htake
    obtain ⟨m₁', hfirst', halike⟩ := take_alike h (readAlike_of_moved h.pragmas hmoved) hfirst
    obtain ⟨m', hmore', hm⟩ := ih halike hmore
    refine ⟨m', ?_, hm⟩
    rw [takeAll_cons, hfirst']
    exact hmore'

end Nesting

/-! ## Pragma tags -/

section

variable {t v : Token} {set set' : PragmaSet}

theorem readDynamicName_pragma (hkind : t.kind = .pragma) (h : readDynamicName t = .ok v) :
    v = t := by
  unfold readDynamicName at h
  split at h
  · rw [hkind, if_neg (by decide)] at h
    cases h
  · cases h
    rfl

/-- No filters stand in the name of a known pragma. -/
theorem readFilters_pragma {p : Pragma} (h : t.name = p.name) : readFilters t = t := by
  have hname : ((Text.splitWhere (· = '|') p.name.toList).map
      fun part => String.ofList (Text.trim part)) = [p.name] := by
    cases p <;> decide +kernel
  rw [readFilters, h, hname]

/-- With fewer pragmas in effect a pragma tag is read too, and names no other
pragma. -/
theorem readName_covered (hkind : t.kind = .pragma) (hset : set.Covers set')
    (h : readName set t = .ok v) :
    ∃ w, readName set' t = .ok w ∧ w.kind = .pragma ∧
      ∀ p : Pragma, w.name = p.name → v.name = p.name := by
  rw [readName_eq] at h ⊢
  split at h
  · next hplain =>
    cases h
    exact ⟨t, if_pos hplain, hkind, fun _ hp => hp⟩
  · next hnamed =>
    rw [if_neg hnamed]
    obtain ⟨u, hread, h⟩ := exists_of_bind_eq_ok h
    -- a pragma tag that was read has no dynamic name, so reading such names left it alone
    have hsame : u = t := by
      split at hread
      · exact readDynamicName_pragma hkind hread
      · cases hread
        rfl
    have hread' : (if set'.has .dynamicNames then readDynamicName t else .ok t) = .ok t := by
      split
      · next hhas =>
        rw [if_pos (hset .dynamicNames (by decide) hhas), hsame] at hread
        exact hread
      · rfl
    rw [hread']
    rw [hsame] at h
    have hv : (if set.has .filters then readFilters t else t) = v := Except.ok.inj h
    refine ⟨_, rfl, ?_, fun p hp => ?_⟩
    · split
      · unfold readFilters
        split <;> exact hkind
      · exact hkind
    · -- filters are cut off on one side only, and a known name has none
      rw [← hv]
      split at hp
      · next hhas =>
        rw [if_pos (hset .filters (by decide) hhas)]
        exact hp
      · split
        · rw [readFilters_pragma hp]
          exact hp
        · exact hp

end

namespace Nesting

variable {n n' m : Nesting} {t : Token} {ts : List Token}

theorem take_of_plain (hkind : t.kind ≠ .pragma) (h : n.take t = .ok m) :
    m.pragmas = n.pragmas := by
  unfold take at h
  obtain ⟨u, hread, h⟩ := exists_of_bind_eq_ok h
  cases place_eq_ok_iff.1 h with
  | enables hu => exact absurd ((sameButName_readName hread).kind.symm.trans hu) hkind
  | _ => rfl

theorem takeAll_of_plain (hts : ∀ t ∈ ts, t.kind ≠ .pragma) (h : n.takeAll ts = .ok m) :
    m.pragmas = n.pragmas := by
  induction ts generalizing n with
  | nil =>
    cases h
    rfl
  | cons t ts ih =>
    obtain ⟨ht, hts⟩ := List.forall_mem_cons.1 hts
    rw [takeAll_cons] at h
    obtain ⟨m₁, hfirst, hmore⟩ := exists_of_bind_eq_ok h
    exact (ih hts hmore).trans (take_of_plain ht hfirst)

/-- **Tokens that are read alike are taken alike**, one after the other. No pragma
is among them, so that each is read under the same pragmas. -/
theorem takeAll_alike {us : List Token} (h : n.Alike n') (hts : ∀ t ∈ ts, t.kind ≠ .pragma)
    (hus : ∀ u ∈ us, u.kind ≠ .pragma)
    (hread : List.Forall₂ (ReadAlike n.pragmas n'.pragmas) ts us) (htake : n.takeAll ts = .ok m) :
    ∃ m', n'.takeAll us = .ok m' ∧ m.Alike m' := by
  induction ts generalizing n n' us with
  | nil =>
    cases hread
    cases htake
    exact ⟨n', rfl, h⟩
  | cons t ts ih =>
    cases hread with
    | cons hread hreads =>
      obtain ⟨ht, hts⟩ := List.forall_mem_cons.1 hts
      obtain ⟨hu, hus⟩ := List.forall_mem_cons.1 hus
      rw [takeAll_cons] at htake ⊢
      obtain ⟨m₁, hfirst, hmore⟩ := exists_of_bind_eq_ok htake
      obtain ⟨m₁', hfirst', halike⟩ := take_alike h hread hfirst
      rw [← take_of_plain ht hfirst, ← take_of_plain hu hfirst'] at hreads
      rw [hfirst']
      exact ih halike hts hus hreads hmore

/-- A pragma tag opens nothing and takes no pragma away. With fewer pragmas
in effect it is taken too, and then fewer are in effect still. -/
theorem take_covered (hkind : t.kind = .pragma) (hset : n.pragmas.Covers n'.pragmas)
    (h : n.take t = .ok m) :
    m.pragmas.Covers n.pragmas ∧ m.tags = n.tags ∧
      ∃ m', n'.take t = .ok m' ∧ m.pragmas.Covers m'.pragmas ∧ m'.tags = n'.tags := by
  unfold take at h ⊢
  obtain ⟨v, hread, h⟩ := exists_of_bind_eq_ok h
  obtain ⟨w, hread', hw, hnames⟩ := readName_covered hkind hset hread
  have hv : v.kind = .pragma := (sameButName_readName hread).kind.trans hkind
  rw [hread']
  unfold place at h
  rw [hv] at h
  cases h
  refine ⟨fun p _ hp => (PragmaSet.has_enable _ _ p).2 (.inr hp), rfl,
    ⟨n'.pragmas.enable w.name, n'.tags⟩, ?_, fun p hp hhas => ?_, rfl⟩
  · change n'.place w = _
    rw [place, hw]
  · rw [PragmaSet.has_enable] at hhas ⊢
    exact hhas.imp (fun heq => (hnames p heq.symm).symm) (hset p hp)

/-- Pragma tags that are taken are taken where fewer pragmas are in
effect. -/
theorem takeAll_covered (hts : ∀ t ∈ ts, t.kind = .pragma) (hset : n.pragmas.Covers n'.pragmas)
    (h : n.takeAll ts = .ok m) :
    m.pragmas.Covers n.pragmas ∧ m.tags = n.tags ∧
      ∃ m', n'.takeAll ts = .ok m' ∧ m.pragmas.Covers m'.pragmas ∧ m'.tags = n'.tags := by
  induction ts generalizing n n' with
  | nil =>
    cases h
    exact ⟨.refl _, rfl, n', rfl, hset, rfl⟩
  | cons t ts ih =>
    obtain ⟨ht, hts⟩ := List.forall_mem_cons.1 hts
    rw [takeAll_cons] at h ⊢
    obtain ⟨m₁, hfirst, hmore⟩ := exists_of_bind_eq_ok h
    obtain ⟨hgrown, htags, m₁', hfirst', hset', htags'⟩ := take_covered ht hset hfirst
    obtain ⟨hgrown', htags₁, m', hmore', hset'', htags₁'⟩ := ih hts hset' hmore
    rw [hfirst']
    exact ⟨hgrown'.trans hgrown, htags₁.trans htags, m', hmore', hset'', htags₁'.trans htags'⟩

end Nesting

end Tree

end Mustache
