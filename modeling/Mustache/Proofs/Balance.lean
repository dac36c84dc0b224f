import Mathlib
import Mustache.Proofs.Nesting
/-!
# Mustache — balanced templates

A template is balanced if its tags open and close like brackets.
`Nesting.Passes` says so of a list of tokens, read from left to right: each
token fits the tags that are open before it (`Nesting.Fits`), after its name
has been read as the pragmas have it (`reading`). `Nesting.Refuses` says how
a token may fail to, and with which error.

The parser accepts exactly the balanced lists. Where it fails, it reports the
first token that is refused, or, if none is, the innermost tag that was never
closed (`ofTokens_balanced`). The white space that it takes away around tags
has no part in this: `ofTokensWhole` parses without taking any away, and
accepts and refuses alike.
-/

namespace Mustache

namespace Tree

/-! ## Names -/

/-- The name begins with a star, so that the context is to give it. -/
def Starred (t : Token) : Prop := (Text.trimStart t.name.toList).head? = some '*'

/-- A star on a tag whose name the context cannot give. The text of a comment
is no name. -/
def MisplacedStar (set : PragmaSet) (t : Token) : Prop :=
  set.has .dynamicNames = true ∧ Starred t ∧
    t.kind ∉ [.partialTag, .parentTag, .closingTag, .comment]

/-- The token without the star of its name. -/
def withoutStar (t : Token) : Token :=
  match Text.trimStart t.name.toList with
  | '*' :: r => { t with name? := some (String.ofList (Text.trimStart r)), dynamic := true }
  | _ => t

/-- The token with its name as the pragmas have it. -/
def reading (set : PragmaSet) (t : Token) : Token :=
  if t.kind = .comment then t
  else
    let u := if set.has .dynamicNames then withoutStar t else t
    if set.has .filters then readFilters u else u

section

variable {set : PragmaSet} {t : Token}

theorem readDynamicName_of_starred (h : Starred t) :
    readDynamicName t =
      if t.kind = .partialTag ∨ t.kind = .parentTag ∨ t.kind = .closingTag then
        .ok (withoutStar t)
      else .error (.malformed .invalidDynamicName t) := by
  unfold Starred at h
  unfold readDynamicName withoutStar
  obtain ⟨r, hr⟩ := List.head?_eq_some_iff.1 h
  simp only [hr]

theorem withoutStar_of_not_starred (h : ¬ Starred t) : withoutStar t = t := by
  unfold withoutStar
  split
  · next r hr => exact absurd (by rw [Starred, hr]; rfl) h
  · rfl

theorem readDynamicName_of_not_starred (h : ¬ Starred t) : readDynamicName t = .ok t := by
  unfold readDynamicName
  split
  · next r hr => exact absurd (by rw [Starred, hr]; rfl) h
  · rfl

/-- A token without a name has nothing to read. -/
theorem reading_of_unnamed (h : t.name? = none) : reading set t = t := by
  have hname : t.name = "" := by rw [Token.name, h]; rfl
  have hstar : ¬ Starred t := by
    rw [Starred, hname]
    decide
  have hfilters : readFilters t = t := by
    rw [readFilters, hname]
    rfl
  unfold reading
  dsimp only
  rw [withoutStar_of_not_starred hstar, ite_self, hfilters, ite_self, ite_self]

theorem kind_withoutStar (t : Token) : (withoutStar t).kind = t.kind := by
  unfold withoutStar
  split <;> rfl

theorem kind_readFilters (t : Token) : (readFilters t).kind = t.kind := by
  unfold readFilters
  split <;> rfl

@[simp] theorem kind_reading (set : PragmaSet) (t : Token) : (reading set t).kind = t.kind := by
  unfold reading
  dsimp only
  split
  · rfl
  · split <;> split <;> simp only [kind_readFilters, kind_withoutStar]

open Classical in
/-- **Reading a name** fails at a misplaced star only. -/
theorem readName_eq_reading :
    readName set t =
      if MisplacedStar set t then .error (.malformed .invalidDynamicName t)
      else .ok (reading set t) := by
  rw [readName_eq]
  -- comments and tags without a name are not read
  by_cases hunread : t.kind = .comment ∨ t.name?.isNone
  · rw [if_pos hunread]
    have hreading : reading set t = t := by
      rcases hunread with hcomment | hunnamed
      · exact if_pos hcomment
      · exact reading_of_unnamed (Option.isNone_iff_eq_none.1 hunnamed)
    have hplaced : ¬ MisplacedStar set t := by
      rintro ⟨-, hstar, hkind⟩
      rcases hunread with hcomment | hunnamed
      · exact hkind (by rw [hcomment]; decide)
      · rw [Starred, Token.name, Option.isNone_iff_eq_none.1 hunnamed] at hstar
        exact absurd hstar (by decide)
    rw [if_neg hplaced, hreading]
  · rw [if_neg hunread]
    have hcomment : t.kind ≠ .comment := fun h => hunread (.inl h)
    have hreading : reading set t =
        if set.has .filters then readFilters (if set.has .dynamicNames then withoutStar t else t)
        else (if set.has .dynamicNames then withoutStar t else t) := if_neg hcomment
    rw [hreading]
    by_cases hdynamic : set.has .dynamicNames = true
    · rw [if_pos hdynamic, if_pos hdynamic]
      by_cases hstar : Starred t
      · rw [readDynamicName_of_starred hstar]
        by_cases hkind : t.kind = .partialTag ∨ t.kind = .parentTag ∨ t.kind = .closingTag
        · have hplaced : ¬ MisplacedStar set t := by
            rintro ⟨-, -, hnot⟩
            rcases hkind with h | h | h <;> exact hnot (by rw [h]; decide)
          rw [if_pos hkind, if_neg hplaced]
          rfl
        · have hmisplaced : MisplacedStar set t := by
            refine ⟨hdynamic, hstar, ?_⟩
            simp only [List.mem_cons, List.not_mem_nil, or_false]
            tauto
          rw [if_neg hkind, if_pos hmisplaced]
          rfl
      · rw [readDynamicName_of_not_starred hstar, withoutStar_of_not_starred hstar,
          if_neg fun h : MisplacedStar set t => hstar h.2.1]
        rfl
    · rw [if_neg hdynamic, if_neg hdynamic, if_neg fun h : MisplacedStar set t => hdynamic h.1]
      rfl

end

/-! ## Which token is taken -/

namespace Nesting

variable {n m : Nesting} {t : Token} {ts : List Token} {e : Error}

/-- **A token is taken**: its name is read, and it fits. -/
def Takes (n : Nesting) (t : Token) (m : Nesting) : Prop :=
  ¬ MisplacedStar n.pragmas t ∧ Fits n (reading n.pragmas t) m

/-- **A token is refused**, and the error that is reported: for the star of
its name, or because it clashes. -/
def Refuses (n : Nesting) (t : Token) (e : Error) : Prop :=
  MisplacedStar n.pragmas t ∧ e = .malformed .invalidDynamicName t ∨
    ¬ MisplacedStar n.pragmas t ∧ Clashes n (reading n.pragmas t) e

theorem take_of_misplacedStar (h : MisplacedStar n.pragmas t) :
    n.take t = .error (.malformed .invalidDynamicName t) := by
  rw [take, readName_eq_reading, if_pos h]
  rfl

theorem take_of_not_misplacedStar (h : ¬ MisplacedStar n.pragmas t) :
    n.take t = n.place (reading n.pragmas t) := by
  rw [take, readName_eq_reading, if_neg h]
  rfl

theorem take_eq_ok_iff : n.take t = .ok m ↔ n.Takes t m := by
  by_cases hstar : MisplacedStar n.pragmas t
  · rw [take_of_misplacedStar hstar]
    exact ⟨nofun, fun h => absurd hstar h.1⟩
  · rw [take_of_not_misplacedStar hstar, place_eq_ok_iff]
    exact ⟨fun h => ⟨hstar, h⟩, And.right⟩

theorem take_eq_error_iff : n.take t = .error e ↔ n.Refuses t e := by
  by_cases hstar : MisplacedStar n.pragmas t
  · rw [take_of_misplacedStar hstar]
    constructor
    · intro h
      cases h
      exact .inl ⟨hstar, rfl⟩
    · rintro (⟨-, rfl⟩ | ⟨hnot, -⟩)
      · rfl
      · exact absurd hstar hnot
  · rw [take_of_not_misplacedStar hstar, place_eq_error_iff]
    exact ⟨fun h => .inr ⟨hstar, h⟩, fun h => (h.resolve_left fun h => hstar h.1).2⟩

/-! ## Token after token -/

/-- **A list of tokens passes** if each is taken in turn. -/
inductive Passes : Nesting → List Token → Nesting → Prop
  | nil {n : Nesting} : Passes n [] n
  | cons {n m m' : Nesting} {t : Token} {ts : List Token} :
      n.Takes t m → Passes m ts m' → Passes n (t :: ts) m'

theorem takeAll_eq_ok_iff : n.takeAll ts = .ok m ↔ n.Passes ts m := by
  constructor
  · intro h
    induction ts generalizing n with
    | nil =>
      cases h
      exact .nil
    | cons t ts ih =>
      rw [takeAll_cons] at h
      obtain ⟨m₁, hfirst, hmore⟩ := exists_of_bind_eq_ok h
      exact .cons (take_eq_ok_iff.1 hfirst) (ih hmore)
  · intro h
    induction h with
    | nil => rfl
    | cons htakes _ ih =>
      rw [takeAll_cons, take_eq_ok_iff.2 htakes]
      exact ih

/-- **The check fails at the first token that is refused.** -/
theorem takeAll_eq_error_iff :
    n.takeAll ts = .error e ↔
      ∃ before t after m, ts = before ++ t :: after ∧ n.Passes before m ∧ m.Refuses t e := by
  constructor
  · intro h
    induction ts generalizing n with
    | nil => cases h
    | cons t ts ih =>
      rw [takeAll_cons] at h
      cases hfirst : n.take t with
      | error e' =>
        rw [hfirst] at h
        cases h
        exact ⟨[], t, ts, n, rfl, .nil, take_eq_error_iff.1 hfirst⟩
      | ok m₁ =>
        rw [hfirst] at h
        obtain ⟨before, u, after, m, rfl, hpasses, hrefuses⟩ := ih h
        exact ⟨t :: before, u, after, m, rfl, .cons (take_eq_ok_iff.1 hfirst) hpasses, hrefuses⟩
  · rintro ⟨before, t, after, m, rfl, hpasses, hrefuses⟩
    rw [takeAll_append, takeAll_eq_ok_iff.2 hpasses]
    change m.takeAll (t :: after) = _
    rw [takeAll_cons, take_eq_error_iff.2 hrefuses]
    rfl

/-- What is left to check when all tokens have been taken. -/
def finish (n : Nesting) : Except Error PragmaSet :=
  match n.tags with
  | [] => .ok n.pragmas
  | tag :: _ => .error (.malformed .missingClosing tag)

end Nesting

/-! ## Nothing taken away -/

/-- Something on a line, behind a token that then has no line to itself. -/
def follower (line : Nat) : Token := .bare .escaped line

/-- Add token after token, each as if more stood behind it on its line: no
white space is taken away. -/
def buildWhole (s : State) (ts : List Token) : Except Error State :=
  ts.foldlM (fun s t => (step s t [follower t.line]).map (·.1)) s

/-- The tree of a list of tokens with all the white space of the template. -/
def ofTokensWhole (pragmas : List Pragma) (ts : List Token) : Except Error Tree := do
  let s ← buildWhole ⟨none, 0, PragmaSet.ofPragmas pragmas, [], []⟩ ts
  match s.opened with
  | [] => return ⟨s.siblings.reverse, s.pragmas⟩
  | ⟨tag, _⟩ :: _ => .error (.malformed .missingClosing tag)

section

variable {s s' : State} {t u : Token} {ts : List Token} {drops : Bool}

theorem buildWhole_cons (s : State) (t : Token) (ts : List Token) :
    buildWhole s (t :: ts) =
      (step s t [follower t.line]).map (·.1) >>= fun s => buildWhole s ts := List.foldlM_cons

/-- With something behind it on its line, a token takes nothing away. -/
theorem clear_follower (s : State) (line : Nat) :
    clear (s.countLine line) [follower line] = ⟨s.countLine line, false, none⟩ := by
  have hblank : (follower line).isBlank = false := rfl
  have hline : ¬ (s.countLine line).line? ≠ some (follower line).line :=
    not_not_intro (countLine_line s line)
  unfold clear
  dsimp only
  rw [if_neg hline, hblank, Bool.false_and, if_neg Bool.false_ne_true, ite_self]

theorem leaves_of_step_follower (h : step s t [follower t.line] = .ok (s', drops)) (ht : t.Fresh)
    (ho : s.OpenedTags) : s'.OpenedTags ∧ s'.leaves = s.leaves ++ leafOf t none := by
  by_cases hpragma : t.kind = .pragma
  · obtain ⟨u, hread, h⟩ := exists_of_step h
    have hname := sameButName_readName hread
    have hkind : u.kind = .pragma := hname.kind.trans hpragma
    cases (Placing.place_eq (.addPragma hkind)).symm.trans h
    rw [clear_follower]
    constructor
    · have hopened := countLine_opened s t.line
      exact fun o hmem => ho o (hopened ▸ hmem)
    · have hleaf : leaves u = [] := leaves_eq_nil (by rw [hkind]; decide) (by rw [hkind]; decide)
        (hname.nodes.trans ht.nodes)
      rw [leafOf_eq_nil (by rw [hpragma]; decide) (by rw [hpragma]; decide), State.leaves_add,
        hleaf]
      exact congrArg (· ++ []) (State.leaves_countLine s t.line)
  · have hstepped := stepped_of_step h ht hpragma ho
    have hcleared (blocks : Bool) :
        clearedAt blocks s t [follower t.line] = ⟨s.countLine t.line, false, none⟩ := by
      unfold clearedAt
      split
      · exact clear_follower s t.line
      · rfl
    refine ⟨hstepped.opened, ?_⟩
    rw [hstepped.leaves, hcleared]
    exact congrArg (· ++ leafOf t none) (State.leaves_countLine s t.line)

theorem leaves_of_buildWhole (hts : ∀ t ∈ ts, t.Fresh) (ho : s.OpenedTags)
    (h : buildWhole s ts = .ok s') : s'.leaves = s.leaves ++ ts.flatMap (leafOf · none) := by
  induction ts generalizing s with
  | nil =>
    cases h
    exact (List.append_nil _).symm
  | cons t ts ih =>
    obtain ⟨ht, hts⟩ := List.forall_mem_cons.1 hts
    rw [buildWhole_cons] at h
    obtain ⟨s₁, hfirst, hmore⟩ := exists_of_bind_eq_ok h
    cases hstep : step s t [follower t.line] with
    | error e =>
      rw [hstep] at hfirst
      cases hfirst
    | ok next =>
      obtain ⟨s₂, drops⟩ := next
      rw [hstep] at hfirst
      cases hfirst
      obtain ⟨ho₁, hleaves⟩ := leaves_of_step_follower hstep ht ho
      rw [ih hts ho₁ hmore, hleaves, List.append_assoc, List.flatMap_cons]

/-- **Nothing is taken away**: the tree has every text of the template, and no
partial is indented. -/
theorem leaves_ofTokensWhole {pragmas : List Pragma} {tree : Tree} (hts : ∀ t ∈ ts, t.Fresh)
    (h : ofTokensWhole pragmas ts = .ok tree) :
    leavesOf tree.nodes = ts.flatMap (leafOf · none) := by
  obtain ⟨⟨line?, position, set, siblings, opened⟩, hbuild, h⟩ := exists_of_bind_eq_ok h
  have hleaves := leaves_of_buildWhole hts (fun _ ho => absurd ho List.not_mem_nil) hbuild
  cases opened with
  | nil =>
    cases h
    exact hleaves
  | cons o opened => cases h

theorem nesting_buildWhole (s : State) (ts : List Token) :
    (buildWhole s ts).map State.nesting = s.nesting.takeAll ts := by
  induction ts generalizing s with
  | nil => rfl
  | cons t ts ih =>
    rw [buildWhole_cons, Nesting.takeAll_cons, ← nesting_step s t [follower t.line]]
    cases step s t [follower t.line] with
    | error e => rfl
    | ok next => exact ih next.1

end

/-! ## What the parser accepts -/

section

variable {pragmas : List Pragma} {ts : List Token} {e : Error}

/-- The check at its start: no tag is open. -/
def Nesting.start (pragmas : List Pragma) : Nesting := ⟨.ofPragmas pragmas, []⟩

/-- How a parser ends, seen by the check. -/
theorem pragmas_of_finish {built : Except Error State} {n : Except Error Nesting}
    (h : built.map State.nesting = n) :
    (built >>= fun s : State =>
      match s.opened with
      | [] => (pure ⟨s.siblings.reverse, s.pragmas⟩ : Except Error Tree)
      | ⟨tag, _⟩ :: _ => .error (.malformed .missingClosing tag)).map Tree.pragmas =
      n >>= Nesting.finish := by
  subst h
  cases built with
  | error e => rfl
  | ok s =>
    obtain ⟨line?, position, set, siblings, opened⟩ := s
    cases opened with
    | nil => rfl
    | cons o opened => rfl

/-- The parser ends as the check does. -/
theorem pragmas_ofTokens (hts : ∀ t ∈ ts, t.Fresh) :
    (ofTokens pragmas ts).map Tree.pragmas =
      (Nesting.start pragmas).takeAll ts >>= Nesting.finish :=
  pragmas_of_finish (nesting_build hts _)

/-- And so does the one that takes no white space away. -/
theorem pragmas_ofTokensWhole :
    (ofTokensWhole pragmas ts).map Tree.pragmas =
      (Nesting.start pragmas).takeAll ts >>= Nesting.finish :=
  pragmas_of_finish (nesting_buildWhole _ ts)

theorem exists_ofTokens_iff_passes (hts : ∀ t ∈ ts, t.Fresh) :
    (∃ tree, ofTokens pragmas ts = .ok tree) ↔
      ∃ set, (Nesting.start pragmas).Passes ts ⟨set, []⟩ := by
  constructor
  · rintro ⟨tree, htree⟩
    exact ⟨tree.pragmas, Nesting.takeAll_eq_ok_iff.1
      ((exists_ofTokens_iff hts).1 ⟨tree, htree, rfl⟩)⟩
  · rintro ⟨set, hpasses⟩
    obtain ⟨tree, htree, -⟩ := (exists_ofTokens_iff hts).2 (Nesting.takeAll_eq_ok_iff.2 hpasses)
    exact ⟨tree, htree⟩

/-- **The error of the parser**: that of the first token refused, or the tag
that was never closed. -/
theorem ofTokens_eq_error_iff (hts : ∀ t ∈ ts, t.Fresh) :
    ofTokens pragmas ts = .error e ↔
      (∃ before t after n, ts = before ++ t :: after ∧
        (Nesting.start pragmas).Passes before n ∧ n.Refuses t e) ∨
      ∃ n tag below, (Nesting.start pragmas).Passes ts n ∧ n.tags = tag :: below ∧
        e = .malformed .missingClosing tag := by
  have hends : (ofTokens pragmas ts).map Tree.pragmas = _ := pragmas_ofTokens hts
  have herror : ofTokens pragmas ts = .error e ↔
      ((Nesting.start pragmas).takeAll ts >>= Nesting.finish) = .error e := by
    rw [← hends]
    cases ofTokens pragmas ts with
    | ok tree => exact ⟨nofun, nofun⟩
    | error e' => exact ⟨fun h => by rw [Except.error.inj h]; rfl, fun h => by cases h; rfl⟩
  -- either a token is refused, or all are taken and a tag is still open
  rw [herror, ← Nesting.takeAll_eq_error_iff]
  cases htake : (Nesting.start pragmas).takeAll ts with
  | error e' =>
    constructor
    · intro h
      cases h
      exact .inl rfl
    · rintro (h | ⟨n, tag, below, hpasses, -⟩)
      · cases h
        rfl
      · rw [Nesting.takeAll_eq_ok_iff.2 hpasses] at htake
        cases htake
  | ok n =>
    change n.finish = .error e ↔ _
    constructor
    · intro h
      unfold Nesting.finish at h
      split at h
      · cases h
      · next tag below htags =>
        cases h
        exact .inr ⟨n, tag, below, Nesting.takeAll_eq_ok_iff.1 htake, htags, rfl⟩
    · rintro (h | ⟨n', tag, below, hpasses, htags, rfl⟩)
      · cases h
      · rw [Nesting.takeAll_eq_ok_iff.2 hpasses] at htake
        cases htake
        rw [Nesting.finish, htags]

/-- **The parser accepts exactly the balanced templates.** It accepts the
tokens of a template if each is taken in turn and no tag is open at the end.
Otherwise it reports the first token that is refused, or, if none is, the
innermost open tag, whose closing tag is missing. It ends in the same way if
no white space is taken away. -/
theorem ofTokens_balanced {delimiters : Delimiters} {source : String}
    (hscan : Token.scan delimiters source = .ok ts) (pragmas : List Pragma) :
    ((∃ tree, ofTokens pragmas ts = .ok tree) ↔
      ∃ set, (Nesting.start pragmas).Passes ts ⟨set, []⟩) ∧
    (∀ e, ofTokens pragmas ts = .error e ↔
      (∃ before t after n, ts = before ++ t :: after ∧
        (Nesting.start pragmas).Passes before n ∧ n.Refuses t e) ∨
      ∃ n tag below, (Nesting.start pragmas).Passes ts n ∧ n.tags = tag :: below ∧
        e = .malformed .missingClosing tag) ∧
    (ofTokensWhole pragmas ts).map Tree.pragmas = (ofTokens pragmas ts).map Tree.pragmas := by
  have hfresh := Scan.fresh_scan hscan
  exact ⟨exists_ofTokens_iff_passes hfresh, fun _ => ofTokens_eq_error_iff hfresh,
    pragmas_ofTokensWhole.trans (pragmas_ofTokens hfresh).symm⟩

/-- A section inside a parent tag. -/
def sectionInParent : String := "\x7b\x7b<p\x7d\x7d\n\x7b\x7b#s\x7d\x7d\x7b\x7b/p\x7d\x7d"

/-- The section is the first token refused. -/
theorem ofTokens_balanced_of_section_in_parent :
    ∃ ts e, Token.scan .standard sectionInParent = .ok ts ∧ ofTokens [] ts = .error e ∧
      ((∃ before t after n, ts = before ++ t :: after ∧ (Nesting.start []).Passes before n ∧
        n.Refuses t e) ∨
      ∃ n tag below, (Nesting.start []).Passes ts n ∧ n.tags = tag :: below ∧
        e = .malformed .missingClosing tag) ∧
      (ofTokensWhole [] ts).map Tree.pragmas = .error e := by
  let tag (kind : TokenKind) (name : String) (line offset : Nat) : Token :=
    { Token.ofTag kind name line with
      delimiters? := some Delimiters.standard
      offset? := some offset }
  let inner := tag .sectionTag "s" 1 13
  let ts : List Token :=
    [tag .parentTag "p" 0 6, Token.ofText "\n" 0, inner, tag .closingTag "p" 1 13]
  have hscan : Token.scan .standard sectionInParent = .ok ts := by cbv
  have hparse : ofTokens [] ts = .error (.malformed .illegalInParent inner) := by cbv
  obtain ⟨-, herror, hwhole⟩ := ofTokens_balanced hscan []
  exact ⟨ts, _, hscan, hparse, (herror _).1 hparse, by rw [hwhole, hparse]; rfl⟩

end

end Tree

end Mustache
