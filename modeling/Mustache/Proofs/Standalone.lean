import Mathlib
import Mustache.Proofs.Trim
/-!
# Mustache — standalone lines

A line that holds one tag and white space around it goes with its tag:
the white space is left out of the tree, and a partial takes what stood
before it as its indent. `trimmedLeaves` says so line by line, with no
parser: it is what a tree should be left with.

The parser decides the same question with less at hand. It looks at the
last sibling it has built and not at the line, so it misreads a line whose
second token is a tag where the first one left no sibling, or left one of
an earlier line in sight (`misread`). `leaves_eq_trimmedLeaves_iff` says that this is
all: the tree has the leaves it should have exactly if no line is misread.
-/

namespace Mustache

namespace Tree

/-! ## Lines and what they leave -/

/-- The tokens of a line. -/
def lineOf (ts : List Token) (n : Nat) : List Token := ts.filter fun t => t.line = n

/-- Nothing stands on a later line. -/
def isLast (ts : List Token) (n : Nat) : Bool := ts.all fun t => t.line ≤ n

/-- White space that ends its line, or the template if that is on its last
line. -/
def trails (last : Bool) (t : Token) : Bool := t.isBlank && (t.endsLine || last)

/-- **A standalone line**: a tag that may stand alone, with at most one
piece of white space before it and at most one after it, the latter ending
the line or the template. -/
def Standalone (blocks : Bool) (ts : List Token) (n : Nat) : Prop :=
  ∃ (lead? : Option Token) (tag : Token) (trail? : Option Token),
    lineOf ts n = lead?.toList ++ tag :: trail?.toList ∧
    (∀ lead ∈ lead?, lead.isBlank = true) ∧
    tag.kind.standsAlone blocks = true ∧
    (∀ trail ∈ trail?, trails (isLast ts n) trail = true)

/-- Whether the tokens of a line make it standalone. -/
def standsOut (blocks last : Bool) : List Token → Bool
  | [tag] => tag.kind.standsAlone blocks
  | [a, b] =>
    a.isBlank && b.kind.standsAlone blocks || a.kind.standsAlone blocks && trails last b
  | [lead, tag, trail] => lead.isBlank && tag.kind.standsAlone blocks && trails last trail
  | _ => false

theorem standalone_iff {blocks : Bool} {ts : List Token} {n : Nat} :
    standsOut blocks (isLast ts n) (lineOf ts n) = true ↔ Standalone blocks ts n := by
  constructor
  · intro h
    unfold standsOut at h
    split at h
    · next tag heq => exact ⟨none, tag, none, heq, nofun, h, nofun⟩
    · next a b heq =>
      rcases Bool.or_eq_true_iff.1 h with h | h
      · obtain ⟨ha, hb⟩ := Bool.and_eq_true_iff.1 h
        exact ⟨some a, b, none, heq, by simpa using ha, hb, nofun⟩
      · obtain ⟨ha, hb⟩ := Bool.and_eq_true_iff.1 h
        exact ⟨none, a, some b, heq, nofun, ha, by simpa using hb⟩
    · next lead tag trail heq =>
      simp only [Bool.and_eq_true] at h
      exact ⟨some lead, tag, some trail, heq, by simpa using h.1.1, h.1.2, by simpa using h.2⟩
    · cases h
  · rintro ⟨lead?, tag, trail?, heq, hlead, htag, htrail⟩
    rw [heq]
    cases lead? <;> cases trail? <;> simp_all [standsOut]

instance (blocks : Bool) (ts : List Token) (n : Nat) : Decidable (Standalone blocks ts n) :=
  decidable_of_iff _ standalone_iff

/-- The leaf of a token, given its line and whether that is standalone. -/
def leafIn (alone : Bool) (line : List Token) (t : Token) : List Leaf :=
  if t.kind = .text then if t.isBlank && alone then [] else [.text t]
  else if t.kind = .partialTag then
    let lead? := if alone then line.head?.filter (·.isBlank) else none
    [.insert (lead?.bind (·.text?))]
  else []

/-- The leaf that a token of a template should leave. -/
def trimmedLeaf (blocks : Bool) (ts : List Token) (t : Token) : List Leaf :=
  leafIn (Standalone blocks ts t.line) (lineOf ts t.line) t

/-- **What trimming should leave of a template**: every piece of text but
the white space of standalone lines, and every partial, with the white
space before it as its indent if its line is standalone. -/
def trimmedLeaves (blocks : Bool) (ts : List Token) : List Leaf :=
  ts.flatMap (trimmedLeaf blocks ts)

/-! ## Lines that are misread -/

/-- Whether a token of a line should stay. -/
def staysIn (alone : Bool) (t : Token) : Bool := !(t.isBlank && alone)

/-- The siblings after some tokens, given those before them. -/
def siblingsAfterAll (blocks : Bool) (siblings ts : List Token) : List Token :=
  ts.foldl (fun siblings t => siblingsAfter blocks t siblings) siblings

/-- The siblings that the parser should see at the start of a line, last
one first. -/
def siblingsAt (blocks : Bool) (ts : List Token) (n : Nat) : List Token :=
  siblingsAfterAll blocks []
    (ts.filter fun t => t.line < n && staysIn (Standalone blocks ts t.line) t)

/-- Whether the siblings before a tag are taken for white space, and it
matters: the last one is white space, or there is none and something is
left of the line. -/
def fooled (left : List Token) : List Token → Bool
  | [] => !left.isEmpty
  | sibling :: _ => sibling.isBlank

/-- Whether a line is misread, given the siblings at its start: its second
token is a tag that may stand alone, nothing but white space follows it,
and what stands before it is no white space, but the siblings in sight
are taken for it. -/
def misreadIn (blocks last : Bool) (siblings : List Token) : List Token → Bool
  | first :: tag :: more =>
    !first.isBlank && tag.kind.standsAlone blocks &&
      (match more with
        | [] => true
        | [trail] => trails last trail
        | _ => false) &&
      fooled more (siblingsAfter blocks first siblings)
  | _ => false

/-- A line that the parser takes for standalone and that is not. -/
def misread (blocks : Bool) (ts : List Token) (n : Nat) : Bool :=
  misreadIn blocks (isLast ts n) (siblingsAt blocks ts n) (lineOf ts n)

theorem siblingsAfter_text {blocks : Bool} {t : Token} (h : t.kind = .text)
    (siblings : List Token) : siblingsAfter blocks t siblings = t :: siblings := by
  rw [siblingsAfter, h, if_neg (by decide), if_neg (by cases blocks <;> decide)]

/-! ## Siblings that look alike -/

namespace SameSiblings

variable {l m : List Token}

theorem refl (l : List Token) : SameSiblings l l := by
  induction l with
  | nil => exact .nil
  | cons t l ih =>
    by_cases h : t.kind = .text
    · exact .text h ih
    · exact .tag h h

theorem siblingsAfter (h : SameSiblings l m) (blocks : Bool) (t : Token) :
    SameSiblings (siblingsAfter blocks t l) (siblingsAfter blocks t m) := by
  unfold Tree.siblingsAfter
  split
  · exact h
  · split
    · exact .nil
    · by_cases ht : t.kind = .text
      · exact .text ht h
      · exact .tag ht ht

theorem fooled_eq (h : SameSiblings l m) (left : List Token) : fooled left l = fooled left m := by
  cases h with
  | nil => rfl
  | text _ _ => rfl
  | tag ht hu => simp [fooled, Token.isBlank, ht, hu]

theorem misreadIn_eq (h : SameSiblings l m) (blocks last : Bool) (line : List Token) :
    misreadIn blocks last l line = misreadIn blocks last m line := by
  unfold misreadIn
  split
  · next first tag more => rw [(h.siblingsAfter blocks first).fooled_eq]
  · rfl

/-- A piece of text in sight is the same in both. -/
theorem head_eq {t u : Token} (h : SameSiblings (t :: l) (u :: m)) (hu : u.kind = .text) :
    t = u := by
  cases h with
  | text _ _ => rfl
  | tag _ hne => exact absurd hu hne

end SameSiblings

/-! ## The white space around a token

What clearing does depends on what is left of the line, and then on the
siblings in sight. -/

/-- What follows a tag fits if it stands on another line or is white space
that ends its line or the template; then this says if it goes with the
tag. -/
def follow? (line? : Option Nat) : List Token → Option Bool
  | [] => some false
  | next :: more =>
    if line? ≠ some next.line then some false
    else if next.isBlank && (more.isEmpty || next.endsLine) then some true
    else none

/-- Clearing, given whether what follows fits. -/
def clearOn (s : State) : Option Bool → Cleared
  | none => ⟨s, false, none⟩
  | some drops =>
    match s.position, s.siblings with
    | 0, _ => ⟨s, drops, none⟩
    | 1, [] => ⟨s, drops, none⟩
    | 1, lead :: before =>
      if lead.isBlank then ⟨{ s with siblings := before }, drops, some lead⟩
      else ⟨s, false, none⟩
    | _, _ => ⟨s, false, none⟩

theorem clear_eq_clearOn (s : State) (rest : List Token) :
    clear s rest = clearOn s (follow? s.line? rest) := by
  obtain ⟨line?, position, pragmas, siblings, opened⟩ := s
  unfold clear follow?
  rcases position with _ | _ | position
  · -- the first token of a line: nothing before it is looked at
    cases rest with
    | nil => rfl
    | cons next more =>
      simp only [Bool.not_true, Bool.false_eq_true, if_false]
      repeat' split
      all_goals rfl
  · rcases siblings with _ | ⟨lead, before⟩
    · cases rest with
      | nil => rfl
      | cons next more =>
        simp only [Bool.not_true, Bool.false_eq_true, if_false]
        repeat' split
        all_goals rfl
    · -- the second one: the last sibling is looked at
      cases hlead : lead.isBlank with
      | false =>
        simp only [clearOn, hlead, Bool.not_false, Bool.false_eq_true, if_false, if_true]
        split <;> rfl
      | true =>
        have htaken (drops : Bool) :
            clearOn ⟨line?, 1, pragmas, lead :: before, opened⟩ (some drops) =
              ⟨⟨line?, 1, pragmas, before, opened⟩, drops, some lead⟩ := by
          simp only [clearOn, hlead, if_true]
        simp only [hlead, Bool.not_true, Bool.false_eq_true, if_false]
        cases rest with
        | nil => exact (htaken false).symm
        | cons next more =>
          dsimp only
          split
          · exact (htaken false).symm
          · split
            · exact (htaken true).symm
            · rfl
  · -- a later one: it is not on its own
    cases rest with
    | nil => rfl
    | cons next more =>
      simp only [Bool.not_false, if_true]
      repeat' split
      all_goals rfl

/-- The end of a line: what is left of it, and what stands on the lines
after it. -/
structure LineEnd (n : Nat) (l more : List Token) : Prop where
  line : l = [] ∨ IsLine n l more
  more : OnLines (n + 1) more

/-- On a line it fits that nothing is left, or a single piece of white
space. -/
def tail? : List Token → Option Bool
  | [] => some false
  | [t] => if t.isBlank then some true else none
  | _ => none

theorem LineEnd.follow?_eq {n : Nat} {l more : List Token} (h : LineEnd n l more) :
    follow? (some n) (l ++ more) = tail? l := by
  obtain ⟨hl, hmore⟩ := h
  rcases l with _ | ⟨t, _ | ⟨u, l⟩⟩
  · rcases more with _ | ⟨next, more⟩
    · rfl
    · have hnext : next.line = n + 1 := hmore.2.1
      simp [follow?, tail?, hnext]
  · have hlast : t.line = n ∧ (t.endsLine = true ∨ more = []) := by
      cases hl.resolve_left (by simp) with
      | last _ hline hlast => exact ⟨hline, hlast⟩
      | cons _ _ _ hnil => exact absurd rfl hnil.ne_nil
    rcases hlast.2 with hends | hnone
    · simp [follow?, tail?, hlast.1, hends]
    · simp [follow?, tail?, hlast.1, hnone]
  · cases hl.resolve_left (by simp) with
    | cons _ hline hends _ => simp [follow?, tail?, hline, hends]

theorem tail?_eq_some {l : List Token} {drops : Bool} (h : tail? l = some drops) :
    (l = [] ∧ drops = false) ∨ ∃ t, l = [t] ∧ t.isBlank = true ∧ drops = true := by
  rcases l with _ | ⟨t, _ | ⟨u, l⟩⟩
  · cases h
    exact .inl ⟨rfl, rfl⟩
  · simp only [tail?] at h
    split at h
    · next hblank =>
      cases h
      exact .inr ⟨t, rfl, hblank, rfl⟩
    · cases h
  · cases h

/-- A tag that may stand alone is no text. -/
theorem kind_ne_of_standsAlone {blocks : Bool} {t : Token}
    (h : t.kind.standsAlone blocks = true) : t.kind ≠ .text := by
  intro htext
  rw [htext] at h
  cases h

theorem isBlank_of_standsAlone {blocks : Bool} {t : Token} (h : t.kind.standsAlone blocks = true) :
    t.isBlank = false := by
  have hkind := kind_ne_of_standsAlone h
  simp [Token.isBlank, hkind]

theorem standsAlone_of_isBlank {t : Token} (blocks : Bool) (h : t.isBlank = true) :
    t.kind.standsAlone blocks = false := by
  rw [isBlank_kind h]
  rfl

/-! ## One token of a line -/

/-- What the parser keeps to throughout. -/
structure State.Sound (blocks : Bool) (s : State) : Prop where
  blocks : s.pragmas.has .blocks = blocks
  opened : s.OpenedTags

/-- The parser has gone on from one state to another on a line: the leaves
that were added, and how the siblings changed. -/
structure Passed (blocks : Bool) (n : Nat) (s s' : State) (new : List Leaf)
    (kept : List Token) : Prop where
  line : s'.line? = some n
  sound : s'.Sound blocks
  leaves : s'.leaves = s.leaves ++ new
  siblings : ∀ m, SameSiblings s.siblings m →
    SameSiblings s'.siblings (siblingsAfterAll blocks m kept)

theorem Passed.trans {blocks : Bool} {n : Nat} {s s' s'' : State} {new new' : List Leaf}
    {kept kept' : List Token} (h : Passed blocks n s s' new kept)
    (h' : Passed blocks n s' s'' new' kept') :
    Passed blocks n s s'' (new ++ new') (kept ++ kept') where
  line := h'.line
  sound := h'.sound
  leaves := by rw [h'.leaves, h.leaves, List.append_assoc]
  siblings m hm := by
    have hboth := h'.siblings _ (h.siblings m hm)
    rw [siblingsAfterAll, siblingsAfterAll, ← List.foldl_append] at hboth
    exact hboth

section Line

variable {blocks : Bool} {n : Nat} {s f : State} {t : Token} {l more : List Token}

/-- A run of the parser begins with a step. -/
theorem exists_step {rest : List Token} (h : build s (t :: rest) = .ok f) :
    ∃ s' drops, step s t rest = .ok (s', drops) ∧
      build s' (if drops then rest.tail else rest) = .ok f := by
  rw [build] at h
  split at h
  · next s' drops hstep => exact ⟨s', drops, hstep, h⟩
  · cases h

/-- What is left of the white space around a token of a line. -/
def clearedOn (blocks : Bool) (n : Nat) (s : State) (t : Token) (l : List Token) : Cleared :=
  if t.kind.standsAlone blocks then clearOn (s.countLine n) (tail? l)
  else ⟨s.countLine n, false, none⟩

/-- Clearing takes the next token only if that is all that is left. -/
theorem clearOn_dropsNext {d : Option Bool} (h : (clearOn s d).dropsNext = true) :
    d = some true := by
  cases d with
  | none => cases h
  | some drops =>
    unfold clearOn at h
    dsimp only at h
    repeat' split at h
    all_goals first | (cases h; done) | (rw [show drops = true from h])

/-- What a step does on a line, by what is left of the line. -/
structure SteppedOn (blocks : Bool) (n : Nat) (s : State) (t : Token) (l : List Token)
    (s' : State) : Prop where
  line : s'.line? = some n
  position : s'.position = (s.countLine n).position
  sound : s'.Sound blocks
  leaves : s'.leaves = (clearedOn blocks n s t l).state.leaves ++
    leafOf t (clearedOn blocks n s t l).lead?
  siblings : ∀ m, SameSiblings (clearedOn blocks n s t l).state.siblings m →
    SameSiblings s'.siblings (siblingsAfter blocks t m)

/-- The parser takes a step on a line, and goes on with the line. -/
theorem exists_steppedOn (hline : IsLine n (t :: l) more) (hmore : OnLines (n + 1) more)
    (hpragma : t.kind ≠ .pragma) (hs : s.Sound blocks)
    (h : build s (t :: (l ++ more)) = .ok f) :
    ∃ s', SteppedOn blocks n s t l s' ∧
      build s' ((if (clearedOn blocks n s t l).dropsNext then l.tail else l) ++ more) = .ok f := by
  obtain ⟨s', drops, hstep, hrest⟩ := exists_step h
  have hn : t.line = n := hline.line_eq t List.mem_cons_self
  have hend : LineEnd n l more := by
    refine ⟨?_, hmore⟩
    cases hline with
    | last => exact .inl rfl
    | cons _ _ _ hl => exact .inr hl
  have hcleared : clearedAt blocks s t (l ++ more) = clearedOn blocks n s t l := by
    rw [clearedAt, clearedOn, clear_eq_clearOn, countLine_line, hn, hend.follow?_eq]
  have hstepped := stepped_of_step hstep (hline.fresh t List.mem_cons_self) hpragma hs.opened
  rw [hs.blocks] at hstepped
  refine ⟨s', ⟨?_, ?_, ⟨?_, hstepped.opened⟩, ?_, ?_⟩, ?_⟩
  · rw [hstepped.line, hn]
  · rw [hstepped.position, hn]
  · rw [hstepped.pragmas, hs.blocks]
  · rw [hstepped.leaves, hcleared]
  · rw [← hcleared]
    exact hstepped.siblings
  · rw [hstepped.drops_eq, hcleared] at hrest
    split at hrest
    · next hdrops =>
      -- only a single token that is left goes with the tag
      have htail : tail? l = some true := by
        unfold clearedOn at hdrops
        split at hdrops
        · exact clearOn_dropsNext hdrops
        · cases hdrops
      rw [if_pos hdrops]
      rcases tail?_eq_some htail with ⟨-, hfalse⟩ | ⟨u, rfl, -⟩
      · cases hfalse
      · exact hrest
    · next hdrops =>
      rw [if_neg hdrops]
      exact hrest

/-- A step that takes nothing away that was read before. -/
theorem SteppedOn.passed {s' : State} {drops : Bool} (h : SteppedOn blocks n s t l s')
    (huncleared : clearedOn blocks n s t l = ⟨s.countLine n, drops, none⟩) :
    Passed blocks n s s' (leafOf t none) [t] where
  line := h.line
  sound := h.sound
  leaves := by rw [h.leaves, huncleared, State.leaves_countLine]
  siblings m hm := by
    refine h.siblings m ?_
    rw [huncleared]
    rwa [countLine_siblings]

/-- After two tokens of a line nothing is taken away any more. -/
theorem clearedOn_of_pos (blocks : Bool) (t : Token) (l : List Token)
    (hline : s.line? = some n) (hpos : 1 ≤ s.position) :
    clearedOn blocks n s t l = ⟨s.countLine n, false, none⟩ := by
  have hcount : s.countLine n = { s with position := s.position + 1 } := by
    rw [State.countLine, if_pos hline]
  unfold clearedOn
  split
  · rw [hcount]
    obtain ⟨p, hp⟩ : ∃ p, s.position = p + 1 := ⟨s.position - 1, by omega⟩
    unfold clearOn
    cases tail? l <;> simp [hp]
  · rfl

/-- The tokens of a line after the first two stay as they are. -/
theorem exists_passed (hline : IsLine n l more) (hmore : OnLines (n + 1) more)
    (hpragma : ∀ t ∈ l, t.kind ≠ .pragma) (hs : s.Sound blocks) (hat : s.line? = some n)
    (hpos : 1 ≤ s.position) (h : build s (l ++ more) = .ok f) :
    ∃ s', build s' more = .ok f ∧ Passed blocks n s s' (l.flatMap (leafOf · none)) l := by
  induction hline generalizing s with
  | @last t more hfresh hn hends =>
    obtain ⟨s', hstep, hrest⟩ := exists_steppedOn (.last hfresh hn hends) hmore
      (hpragma t List.mem_cons_self) hs h
    have huncleared := clearedOn_of_pos blocks t [] hat hpos
    rw [huncleared] at hrest
    refine ⟨s', hrest, ?_⟩
    simpa using hstep.passed huncleared
  | @cons t l more hfresh hn hends hl ih =>
    obtain ⟨s', hstep, hrest⟩ := exists_steppedOn (.cons hfresh hn hends hl) hmore
      (hpragma t List.mem_cons_self) hs h
    have huncleared := clearedOn_of_pos blocks t l hat hpos
    rw [huncleared] at hrest
    have hpos' : 1 ≤ s'.position := by
      rw [hstep.position, State.countLine, if_pos hat]
      exact Nat.le_add_left 1 _
    obtain ⟨s'', hrest', hpassed⟩ := ih hmore
      (fun u hu => hpragma u (List.mem_cons_of_mem _ hu)) hstep.sound hstep.line hpos' hrest
    exact ⟨s'', hrest', (hstep.passed huncleared).trans hpassed⟩

end Line

/-! ## One line -/

/-- How many pieces of text there are. -/
def texts (leaves : List Leaf) : Nat := leaves.countP Leaf.isText

theorem texts_append (a b : List Leaf) : texts (a ++ b) = texts a + texts b :=
  List.countP_append

/-- The leaves that a line should leave. -/
def leavesOn (blocks last : Bool) (l : List Token) : List Leaf :=
  l.flatMap (leafIn (standsOut blocks last l) l)

/-- The tokens of a line that should stay. -/
def keptOn (blocks last : Bool) (l : List Token) : List Token :=
  l.filter (staysIn (standsOut blocks last l))

section Leaves

variable {alone : Bool} {l : List Token} {t : Token}

theorem leafIn_false : leafIn false l t = leafOf t none := by
  simp [leafIn, leafOf]

/-- The first token of a line has nothing before it. -/
theorem leafIn_first (h : t.isBlank = false) : leafIn alone (t :: l) t = leafOf t none := by
  cases alone <;> simp [leafIn, leafOf, Option.filter_some, h]

theorem leafIn_second {lead : Token} (hlead : lead.isBlank = true) (h : t.isBlank = false) :
    leafIn true (lead :: l) t = leafOf t (some lead) := by
  simp [leafIn, leafOf, Option.filter_some, hlead, h]

theorem leafIn_blank (h : t.isBlank = true) : leafIn true l t = [] := by
  simp [leafIn, isBlank_kind h, h]

theorem staysIn_false : staysIn false t = true := by simp [staysIn]

theorem staysIn_true : staysIn true t = !t.isBlank := by simp [staysIn]

end Leaves

/-- **What the parser makes of a line**: what it should, unless it
misreads it; then a piece of text goes that should have stayed. -/
structure ReadLine (blocks : Bool) (n : Nat) (last : Bool) (l : List Token) (s s' : State) :
    Prop where
  line : s'.line? = some n
  sound : s'.Sound blocks
  exact : misreadIn blocks last s.siblings l = false →
    Passed blocks n s s' (leavesOn blocks last l) (keptOn blocks last l)
  short : misreadIn blocks last s.siblings l = true →
    texts s'.leaves < texts (s.leaves ++ leavesOn blocks last l)

theorem ReadLine.of_passed {blocks last : Bool} {n : Nat} {l : List Token} {s s' : State}
    (h : Passed blocks n s s' (leavesOn blocks last l) (keptOn blocks last l))
    (hread : misreadIn blocks last s.siblings l = false) : ReadLine blocks n last l s s' :=
  ⟨h.line, h.sound, fun _ => h, fun hmis => absurd hmis (by rw [hread]; decide)⟩

/-- A line that is not standalone leaves every piece of text. -/
theorem leavesOn_of_not {blocks last : Bool} {l : List Token}
    (h : standsOut blocks last l = false) :
    leavesOn blocks last l = l.flatMap (leafOf · none) := by
  have hleaf : leafIn false l = (leafOf · none) := funext fun _ => leafIn_false
  rw [leavesOn, h, hleaf]

/-- On a line that is not standalone everything stays. -/
theorem ReadLine.of_all {blocks last : Bool} {n : Nat} {l : List Token} {s s' : State}
    (h : Passed blocks n s s' (l.flatMap (leafOf · none)) l)
    (halone : standsOut blocks last l = false)
    (hread : misreadIn blocks last s.siblings l = false) : ReadLine blocks n last l s s' := by
  refine .of_passed ?_ hread
  have hkept : keptOn blocks last l = l := by
    rw [keptOn, halone, List.filter_eq_self]
    exact fun t _ => staysIn_false
  rw [leavesOn_of_not halone, hkept]
  exact h

section Line

variable {blocks : Bool} {n : Nat} {s f : State} {t u : Token} {l more : List Token}

/-- The last token of a line trails if it is white space. -/
theorem trails_last (h : IsLine n [t] more) : trails more.isEmpty t = t.isBlank := by
  cases h with
  | last _ _ hlast =>
    rcases hlast with hends | rfl
    · simp [trails, hends]
    · simp [trails]
  | cons _ _ _ hl => exact absurd rfl hl.ne_nil

/-- What is left of a line after its first token. -/
theorem IsLine.tail (h : IsLine n (t :: u :: l) more) : IsLine n (u :: l) more := by
  cases h with
  | cons _ _ _ hl => exact hl

/-- Whether a line with two tokens or more is standalone. -/
theorem standsOut_cons_cons (blocks : Bool) (h : IsLine n (t :: u :: l) more) :
    standsOut blocks more.isEmpty (t :: u :: l) =
      (t.isBlank && u.kind.standsAlone blocks && (tail? l).isSome ||
        t.kind.standsAlone blocks && tail? (u :: l) == some true) := by
  rcases l with _ | ⟨x, _ | ⟨y, l⟩⟩
  · rw [standsOut, trails_last (IsLine.tail h)]
    cases hu : u.isBlank <;> simp [tail?, hu]
  · rw [standsOut, trails_last (IsLine.tail (IsLine.tail h))]
    cases hx : x.isBlank <;> simp [tail?, hx]
  · simp [standsOut, tail?]

/-- Whether it is misread. -/
theorem misreadIn_cons_cons (blocks : Bool) (h : IsLine n (t :: u :: l) more)
    (siblings : List Token) :
    misreadIn blocks more.isEmpty siblings (t :: u :: l) =
      (!t.isBlank && u.kind.standsAlone blocks && (tail? l).isSome &&
        fooled l (siblingsAfter blocks t siblings)) := by
  unfold misreadIn
  rcases l with _ | ⟨x, _ | ⟨y, l⟩⟩
  · rfl
  · dsimp only
    rw [trails_last (IsLine.tail (IsLine.tail h))]
    cases hx : x.isBlank <;> simp [tail?, hx]
  · rfl

/-- The first token of a line that was not read before takes nothing away
but what is left of the line. -/
theorem clearedOn_first (hline : s.line? ≠ some n) :
    clearedOn blocks n s t l =
      ⟨s.countLine n, t.kind.standsAlone blocks && tail? l == some true, none⟩ := by
  have hposition : (s.countLine n).position = 0 := by rw [State.countLine, if_neg hline]
  unfold clearedOn
  cases t.kind.standsAlone blocks with
  | false => rfl
  | true =>
    rw [if_pos rfl, Bool.true_and]
    unfold clearOn
    rw [hposition]
    rcases tail? l with _ | _ | _ <;> rfl

/-- A line of a single token. -/
theorem readLine_single {last : Bool} {s' : State} (hline : s.line? ≠ some n)
    (h : SteppedOn blocks n s t [] s') : ReadLine blocks n last [t] s s' := by
  refine .of_passed ?_ rfl
  cases hblank : t.isBlank with
  | true =>
    have halone := standsAlone_of_isBlank blocks hblank
    have hleaves : leavesOn blocks last [t] = leafOf t none := by
      simp [leavesOn, standsOut, halone, leafIn_false]
    have hkept : keptOn blocks last [t] = [t] := by
      simp [keptOn, standsOut, halone, staysIn_false]
    rw [hleaves, hkept]
    exact h.passed (clearedOn_first hline)
  | false =>
    have hleaves : leavesOn blocks last [t] = leafOf t none := by
      simp [leavesOn, leafIn_first hblank]
    have hkept : keptOn blocks last [t] = [t] := by
      simp [keptOn, staysIn, hblank]
    rw [hleaves, hkept]
    exact h.passed (clearedOn_first hline)

/-- A tag that a line begins with, and white space after it. -/
theorem readLine_lead {s' : State} (hline : s.line? ≠ some n) (hu : IsLine n [u] more)
    (halone : t.kind.standsAlone blocks = true) (hblank : u.isBlank = true)
    (h : SteppedOn blocks n s t [u] s') : ReadLine blocks n more.isEmpty [t, u] s s' := by
  have htag := isBlank_of_standsAlone halone
  have hout : standsOut blocks more.isEmpty [t, u] = true := by
    simp [standsOut, halone, trails_last hu, hblank]
  have hleaves : leavesOn blocks more.isEmpty [t, u] = leafOf t none := by
    simp [leavesOn, hout, leafIn_first htag, leafIn_blank hblank]
  have hkept : keptOn blocks more.isEmpty [t, u] = [t] := by
    simp [keptOn, hout, staysIn, htag, hblank]
  refine .of_passed ?_ ?_
  · rw [hleaves, hkept]
    exact h.passed (clearedOn_first hline)
  · have hnot := standsAlone_of_isBlank blocks hblank
    simp [misreadIn, hnot]

/-! ### The second token

Here the parser looks back at the siblings. -/

/-- The second token of a line takes the last sibling away, if that is
white space and what is left of the line fits. -/
theorem clearedOn_second (blocks : Bool) (t : Token) (l : List Token)
    (hline : s.line? = some n) (hpos : s.position = 0) :
    clearedOn blocks n s t l =
      match t.kind.standsAlone blocks, tail? l, s.siblings with
      | true, some drops, [] => ⟨s.countLine n, drops, none⟩
      | true, some drops, lead :: before =>
        if lead.isBlank then ⟨{ s.countLine n with siblings := before }, drops, some lead⟩
        else ⟨s.countLine n, false, none⟩
      | _, _, _ => ⟨s.countLine n, false, none⟩ := by
  have hposition : (s.countLine n).position = 1 := by
    rw [State.countLine, if_pos hline]
    exact congrArg (· + 1) hpos
  unfold clearedOn
  cases t.kind.standsAlone blocks with
  | false => rfl
  | true =>
    rw [if_pos rfl]
    cases tail? l with
    | none => rfl
    | some drops =>
      cases hsiblings : s.siblings <;>
        simp only [clearOn, hposition, countLine_siblings, hsiblings]

/-- Which line is counted does not matter to the leaves. -/
theorem leaves_countLine_siblings (s : State) (n : Nat) (before : List Token) :
    { s.countLine n with siblings := before }.leaves = { s with siblings := before }.leaves := by
  simp [State.leaves]

/-- White space before a tag, and the tag has the line to itself. -/
theorem readLine_second {s₁ s' : State} {before : List Token} {drops : Bool}
    (hline : IsLine n (t :: u :: l) more) (ht : t.isBlank = true)
    (hu : u.kind.standsAlone blocks = true) (htail : tail? l = some drops)
    (h₁ : Passed blocks n s s₁ (leafOf t none) [t]) (hbefore : s₁.siblings = t :: before)
    (hcleared : clearedOn blocks n s₁ u l =
      ⟨{ s₁.countLine n with siblings := before }, drops, some t⟩)
    (h : SteppedOn blocks n s₁ u l s') :
    ReadLine blocks n more.isEmpty (t :: u :: l) s s' := by
  have hkind := isBlank_kind ht
  have hub := isBlank_of_standsAlone hu
  have hout : standsOut blocks more.isEmpty (t :: u :: l) = true := by
    simp [standsOut_cons_cons blocks hline, ht, hu, htail]
  -- what is left of the line is nothing, or white space that goes too
  have hrest : ∀ v ∈ l, v.isBlank = true := by
    rcases tail?_eq_some htail with ⟨rfl, -⟩ | ⟨v, rfl, hv, -⟩
    · simp
    · simpa using hv
  have hleaves : leavesOn blocks more.isEmpty (t :: u :: l) = leafOf u (some t) := by
    have hnone : l.flatMap (leafIn true (t :: u :: l)) = [] :=
      List.flatMap_eq_nil_iff.2 fun v hv => leafIn_blank (hrest v hv)
    rw [leavesOn, hout, List.flatMap_cons, List.flatMap_cons, leafIn_blank ht,
      leafIn_second ht hub, hnone, List.nil_append, List.append_nil]
  have hkept : keptOn blocks more.isEmpty (t :: u :: l) = [u] := by
    have hnone : l.filter (staysIn true) = [] :=
      List.filter_eq_nil_iff.2 fun v hv => by simp [staysIn, hrest v hv]
    rw [keptOn, hout]
    simp [staysIn_true, ht, hub, hnone]
  refine .of_passed ?_ (by simp [misreadIn, ht])
  rw [hleaves, hkept]
  refine ⟨h.line, h.sound, ?_, ?_⟩
  · -- what was added for the white space is what goes with it again
    have hdropped : { s₁ with siblings := before }.leaves ++ [Leaf.text t] =
        s.leaves ++ [Leaf.text t] := by
      rw [← leaves_of_text hkind, ← State.leaves_of_siblings hbefore, h₁.leaves, leafOf,
        if_pos hkind, leaves_of_text hkind]
    rw [h.leaves, hcleared]
    dsimp only
    rw [leaves_countLine_siblings, List.append_cancel_right hdropped]
  · intro m hm
    refine h.siblings m ?_
    rw [hcleared]
    have hboth : SameSiblings s₁.siblings (siblingsAfter blocks t m) := h₁.siblings m hm
    rw [hbefore, siblingsAfter_text hkind] at hboth
    cases hboth with
    | text _ hsame => exact hsame
    | tag hne _ => exact absurd hkind hne

/-- A tag that takes something away that should have stayed: what stands
before it on the line is no white space. -/
theorem readLine_short {s₁ s' : State} (hline : IsLine n (t :: u :: l) more)
    (ht : t.isBlank = false)
    (hout : (t.kind.standsAlone blocks && tail? (u :: l) == some true) = false)
    (hread : misreadIn blocks more.isEmpty s.siblings (t :: u :: l) = true)
    (h₁ : Passed blocks n s s₁ (leafOf t none) [t]) (h : SteppedOn blocks n s₁ u l s')
    (hleaves : texts s'.leaves < texts (s₁.leaves ++ leafOf u none ++ l.flatMap (leafOf · none))) :
    ReadLine blocks n more.isEmpty (t :: u :: l) s s' := by
  have halone : standsOut blocks more.isEmpty (t :: u :: l) = false := by
    rw [standsOut_cons_cons blocks hline, ht, hout]
    simp
  refine ⟨h.line, h.sound, fun hnot => absurd hread (by rw [hnot]; decide), fun _ => ?_⟩
  rw [leavesOn_of_not halone, List.flatMap_cons, List.flatMap_cons, ← List.append_assoc,
    ← h₁.leaves, ← List.append_assoc]
  exact hleaves

/-- A second token that takes nothing away, on a line that is not
standalone. -/
theorem exists_readLine_all {s₁ s₂ : State} (hline : IsLine n (t :: u :: l) more)
    (hmore : OnLines (n + 1) more) (hpragma : ∀ v ∈ l, v.kind ≠ .pragma)
    (h₁ : Passed blocks n s s₁ (leafOf t none) [t]) (h₂ : SteppedOn blocks n s₁ u l s₂)
    (huncleared : clearedOn blocks n s₁ u l = ⟨s₁.countLine n, false, none⟩)
    (halone : standsOut blocks more.isEmpty (t :: u :: l) = false)
    (hread : misreadIn blocks more.isEmpty s.siblings (t :: u :: l) = false)
    (h : build s₂ (l ++ more) = .ok f) :
    ∃ s', build s' more = .ok f ∧ ReadLine blocks n more.isEmpty (t :: u :: l) s s' := by
  have hboth := h₁.trans (h₂.passed huncleared)
  rcases l with _ | ⟨v, l⟩
  · exact ⟨s₂, h, .of_all (by simpa using hboth) halone hread⟩
  · have hpos : 1 ≤ s₂.position := by
      rw [h₂.position, State.countLine, if_pos h₁.line]
      exact Nat.le_add_left 1 _
    obtain ⟨s', hrest, hpassed⟩ := exists_passed (IsLine.tail (IsLine.tail hline)) hmore hpragma
      h₂.sound h₂.line hpos h
    refine ⟨s', hrest, .of_all ?_ halone hread⟩
    have hall := hboth.trans hpassed
    simpa using hall

/-- What is left of the line goes if it is white space. -/
theorem eq_nil_of_tail? {drops : Bool} (h : tail? l = some drops) :
    (if drops then l.tail else l) = [] := by
  rcases tail?_eq_some h with ⟨rfl, rfl⟩ | ⟨v, rfl, -, rfl⟩ <;> rfl

/-- A tag leaves no text. -/
theorem texts_leafOf {lead? : Option Token} (h : t.kind.standsAlone blocks = true) :
    texts (leafOf t lead?) = 0 := by
  unfold leafOf
  rw [if_neg (kind_ne_of_standsAlone h)]
  split <;> rfl

/-- A second token that may stand alone, where what is left of the line
fits. Then it depends on the last sibling. -/
theorem exists_readLine_second {s₁ s₂ : State} {drops : Bool}
    (hl : IsLine n (t :: u :: l) more) (hmore : OnLines (n + 1) more)
    (hpragma : ∀ v ∈ l, v.kind ≠ .pragma)
    (hout : (t.kind.standsAlone blocks && tail? (u :: l) == some true) = false)
    (hu : u.kind.standsAlone blocks = true) (htail : tail? l = some drops)
    (h₁ : Passed blocks n s s₁ (leafOf t none) [t]) (hpos : s₁.position = 0)
    (h₂ : SteppedOn blocks n s₁ u l s₂)
    (h : build s₂ ((if (clearedOn blocks n s₁ u l).dropsNext then l.tail else l) ++ more) = .ok f) :
    ∃ s', build s' more = .ok f ∧ ReadLine blocks n more.isEmpty (t :: u :: l) s s' := by
  have hcleared := clearedOn_second blocks u l h₁.line hpos
  have hsame : SameSiblings s₁.siblings (siblingsAfter blocks t s.siblings) :=
    h₁.siblings _ (.refl _)
  have halone := standsOut_cons_cons blocks hl
  have hread := misreadIn_cons_cons blocks hl s.siblings
  rw [hu, htail] at hcleared
  rw [hout, hu, htail, Bool.or_false, Option.isSome_some, Bool.and_true, Bool.and_true] at halone
  rw [hu, htail, Option.isSome_some, Bool.and_true, Bool.and_true] at hread
  -- white space that the line begins with is in sight
  have hlead (ht : t.isBlank = true) :
      SameSiblings s₁.siblings (t :: s.siblings) := by
    rw [← siblingsAfter_text (isBlank_kind ht)]
    exact hsame
  rw [← hsame.fooled_eq] at hread
  cases hsiblings : s₁.siblings with
  | nil =>
    rw [hsiblings] at hcleared hread hlead
    have ht : t.isBlank = false := by
      rw [← Bool.not_eq_true]
      intro hblank
      cases hlead hblank
    rw [ht] at halone hread
    rw [hcleared] at h
    rcases tail?_eq_some htail with ⟨rfl, rfl⟩ | ⟨v, rfl, hv, rfl⟩
    · exact exists_readLine_all hl hmore hpragma h₁ h₂ hcleared halone hread h
    · refine ⟨s₂, h, readLine_short hl ht hout hread h₁ h₂ ?_⟩
      have hv : texts ([v].flatMap (leafOf · none)) = 1 := by
        simp [leafOf, isBlank_kind hv, texts, Leaf.isText]
      rw [h₂.leaves, hcleared, texts_append _ ([v].flatMap _), hv]
      dsimp only
      rw [State.leaves_countLine]
      exact Nat.lt_succ_self _
  | cons lead before =>
    rw [hsiblings] at hcleared hread hlead
    dsimp only at hcleared
    rw [fooled] at hread
    cases hblank : lead.isBlank with
    | false =>
      -- the last sibling is no white space: nothing is taken away
      have ht : t.isBlank = false := by
        rw [← Bool.not_eq_true]
        intro ht
        rw [(hlead ht).head_eq (isBlank_kind ht), ht] at hblank
        cases hblank
      rw [hblank, if_neg (by decide)] at hcleared
      rw [ht] at halone
      rw [hblank, Bool.and_false] at hread
      rw [hcleared] at h
      exact exists_readLine_all hl hmore hpragma h₁ h₂ hcleared halone hread h
    | true =>
      rw [hblank, if_pos rfl] at hcleared
      rw [hcleared, eq_nil_of_tail? htail] at h
      cases ht : t.isBlank with
      | true =>
        cases (hlead ht).head_eq (isBlank_kind ht)
        exact ⟨s₂, h, readLine_second hl ht hu htail h₁ hsiblings hcleared h₂⟩
      | false =>
        rw [ht, hblank] at hread
        refine ⟨s₂, h, readLine_short hl ht hout hread h₁ h₂ ?_⟩
        have hleaves := congrArg texts (State.leaves_of_siblings hsiblings)
        have hone : texts (leaves lead) = 1 := by
          rw [leaves_of_text (isBlank_kind hblank)]
          rfl
        rw [texts_append, hone] at hleaves
        rw [h₂.leaves, hcleared, texts_append, texts_append, texts_append, texts_leafOf hu,
          texts_leafOf hu, hleaves]
        dsimp only
        rw [leaves_countLine_siblings]
        omega

/-- **One line**, from its first token on. -/
theorem exists_readLine (hl : IsLine n l more) (hmore : OnLines (n + 1) more)
    (hpragma : ∀ t ∈ l, t.kind ≠ .pragma) (hs : s.Sound blocks) (hline : s.line? ≠ some n)
    (h : build s (l ++ more) = .ok f) :
    ∃ s', build s' more = .ok f ∧ ReadLine blocks n more.isEmpty l s s' := by
  rcases l with _ | ⟨t, l⟩
  · exact absurd rfl hl.ne_nil
  obtain ⟨s₁, hstep₁, hrest₁⟩ := exists_steppedOn hl hmore (hpragma t List.mem_cons_self) hs h
  rw [clearedOn_first hline] at hrest₁
  rcases l with _ | ⟨u, l⟩
  · refine ⟨s₁, ?_, readLine_single hline hstep₁⟩
    simpa [tail?] using hrest₁
  cases hout : t.kind.standsAlone blocks && tail? (u :: l) == some true with
  | true =>
    simp only [Bool.and_eq_true, beq_iff_eq] at hout
    -- the first token takes the white space behind it, and the line is read
    rcases tail?_eq_some hout.2 with ⟨hnil, -⟩ | ⟨v, hv, hblank, -⟩
    · cases hnil
    · cases hv
      refine ⟨s₁, ?_, readLine_lead hline (IsLine.tail hl) hout.1 hblank hstep₁⟩
      simpa [hout.1, tail?, hblank] using hrest₁
  | false =>
    rw [hout] at hrest₁
    have h₁ := hstep₁.passed (clearedOn_first hline)
    have hpos₁ : s₁.position = 0 := by
      rw [hstep₁.position, State.countLine, if_neg hline]
    have hpragma' : ∀ v ∈ l, v.kind ≠ .pragma := fun v hv =>
      hpragma v (List.mem_cons_of_mem _ (List.mem_cons_of_mem _ hv))
    -- a second token is read, the last one that may take anything away
    obtain ⟨s₂, hstep₂, hrest₂⟩ := exists_steppedOn (IsLine.tail hl) hmore
      (hpragma u (List.mem_cons_of_mem _ List.mem_cons_self)) hstep₁.sound hrest₁
    have hcleared := clearedOn_second blocks u l hstep₁.line hpos₁
    have halone := standsOut_cons_cons blocks hl
    have hread := misreadIn_cons_cons blocks hl s.siblings
    rw [hout, Bool.or_false] at halone
    cases hu : u.kind.standsAlone blocks with
    | false =>
      rw [hu] at hcleared halone hread
      rw [hcleared] at hrest₂
      exact exists_readLine_all hl hmore hpragma' h₁ hstep₂ hcleared (by simpa using halone)
        (by simpa using hread) hrest₂
    | true =>
      cases htail : tail? l with
      | none =>
        rw [hu, htail] at hcleared halone hread
        rw [hcleared] at hrest₂
        exact exists_readLine_all hl hmore hpragma' h₁ hstep₂ hcleared (by simpa using halone)
          (by simpa using hread) hrest₂
      | some drops =>
        exact exists_readLine_second hl hmore hpragma' hout hu htail h₁ hpos₁ hstep₂ hrest₂

end Line

/-! ## The whole template

Lines that were read and lines that are to come: what a line says of
itself does not depend on where the template was cut. -/

/-- A template that is cut before a line. -/
structure CutAt (n : Nat) (ts before rest : List Token) : Prop where
  eq : ts = before ++ rest
  before : ∀ t ∈ before, t.line < n
  rest : OnLines n rest

section Cut

variable {blocks : Bool} {n : Nat} {ts before l more : List Token}

theorem CutAt.next (h : CutAt n ts before (l ++ more)) (hl : IsLine n l more)
    (hmore : OnLines (n + 1) more) : CutAt (n + 1) ts (before ++ l) more where
  eq := by rw [h.eq, List.append_assoc]
  before t ht := by
    rcases List.mem_append.1 ht with ht | ht
    · exact Nat.lt_succ_of_lt (h.before t ht)
    · exact Nat.lt_succ_of_le (Nat.le_of_eq (hl.line_eq t ht))
  rest := hmore

theorem CutAt.lineOf_eq (h : CutAt n ts before (l ++ more)) (hl : IsLine n l more)
    (hmore : OnLines (n + 1) more) : lineOf ts n = l := by
  have hbefore : before.filter (fun t => decide (t.line = n)) = [] :=
    List.filter_eq_nil_iff.2 fun t ht => by simpa using Nat.ne_of_lt (h.before t ht)
  have hline : l.filter (fun t => decide (t.line = n)) = l :=
    List.filter_eq_self.2 fun t ht => by simpa using hl.line_eq t ht
  have hmore' : more.filter (fun t => decide (t.line = n)) = [] :=
    List.filter_eq_nil_iff.2 fun t ht => by
      have hle := hmore.le_line t ht
      simp only [decide_eq_true_eq]
      omega
  rw [lineOf, h.eq, List.filter_append, List.filter_append, hbefore, hline, hmore',
    List.nil_append, List.append_nil]

theorem CutAt.isLast_eq (h : CutAt n ts before (l ++ more)) (hl : IsLine n l more)
    (hmore : OnLines (n + 1) more) : isLast ts n = more.isEmpty := by
  rw [isLast, h.eq, List.all_append, List.all_append]
  have hbefore : before.all (fun t => decide (t.line ≤ n)) = true := by
    simpa using fun t ht => Nat.le_of_lt (h.before t ht)
  have hline : l.all (fun t => decide (t.line ≤ n)) = true := by
    simpa using fun t ht => Nat.le_of_eq (hl.line_eq t ht)
  rw [hbefore, hline, Bool.true_and, Bool.true_and]
  rcases more with _ | ⟨t, more⟩
  · rfl
  · have hnext : ¬ t.line ≤ n := by
      rw [hmore.2.1]
      omega
    simp [hnext]

theorem CutAt.standalone_eq (h : CutAt n ts before (l ++ more)) (hl : IsLine n l more)
    (hmore : OnLines (n + 1) more) :
    decide (Standalone blocks ts n) = standsOut blocks more.isEmpty l := by
  rw [← h.isLast_eq hl hmore, Bool.eq_iff_iff, decide_eq_true_iff, ← standalone_iff,
    h.lineOf_eq hl hmore]

/-- The leaves of a line are those of its tokens. -/
theorem CutAt.leavesOn_eq (blocks : Bool) (h : CutAt n ts before (l ++ more))
    (hl : IsLine n l more) (hmore : OnLines (n + 1) more) :
    leavesOn blocks more.isEmpty l = l.flatMap (trimmedLeaf blocks ts) := by
  rw [leavesOn, ← h.standalone_eq hl hmore]
  rw [List.flatMap_def, List.flatMap_def]
  congr 1
  refine List.map_congr_left fun t ht => ?_
  rw [trimmedLeaf, hl.line_eq t ht, h.lineOf_eq hl hmore]

/-- The siblings at a line come from the lines before it. -/
theorem CutAt.siblingsAt_eq {rest : List Token} (h : CutAt n ts before rest) :
    siblingsAt blocks ts n = siblingsAfterAll blocks []
      (before.filter fun t => staysIn (Standalone blocks ts t.line) t) := by
  have hrest : rest.filter (fun t => decide (t.line < n) &&
      staysIn (Standalone blocks ts t.line) t) = [] :=
    List.filter_eq_nil_iff.2 fun t ht => by
      have hle := h.rest.le_line t ht
      have hnot : ¬ t.line < n := by omega
      simp [hnot]
  have hbefore : before.filter (fun t => decide (t.line < n) &&
      staysIn (Standalone blocks ts t.line) t) =
      before.filter fun t => staysIn (Standalone blocks ts t.line) t :=
    List.filter_congr fun t ht => by simp [h.before t ht]
  have hsplit (p : Token → Bool) : ts.filter p = before.filter p ++ rest.filter p := by
    rw [h.eq, List.filter_append]
  rw [siblingsAt, hsplit, hrest, List.append_nil, hbefore]

theorem CutAt.siblingsAt_succ (h : CutAt n ts before (l ++ more)) (hl : IsLine n l more)
    (hmore : OnLines (n + 1) more) :
    siblingsAt blocks ts (n + 1) =
      siblingsAfterAll blocks (siblingsAt blocks ts n) (keptOn blocks more.isEmpty l) := by
  have hkept : l.filter (fun t => staysIn (Standalone blocks ts t.line) t) =
      keptOn blocks more.isEmpty l :=
    List.filter_congr fun t ht => by rw [hl.line_eq t ht, h.standalone_eq hl hmore]
  rw [(h.next hl hmore).siblingsAt_eq, h.siblingsAt_eq, List.filter_append, hkept,
    siblingsAfterAll, List.foldl_append]
  rfl

theorem CutAt.misread_eq (h : CutAt n ts before (l ++ more)) (hl : IsLine n l more)
    (hmore : OnLines (n + 1) more) :
    misread blocks ts n = misreadIn blocks more.isEmpty (siblingsAt blocks ts n) l := by
  rw [misread, h.isLast_eq hl hmore, h.lineOf_eq hl hmore]

end Cut

/-- **How far the parser has come**, before a line: either it has read every
line so far as it should and has the leaves and the siblings to show for
it, or it has misread one and has lost a piece of text for good. -/
inductive Progress (blocks : Bool) (ts before : List Token) (n : Nat) (s : State) : Prop
  | exact : s.leaves = before.flatMap (trimmedLeaf blocks ts) →
      SameSiblings s.siblings (siblingsAt blocks ts n) →
      (∀ k < n, misread blocks ts k = false) → Progress blocks ts before n s
  | short : texts s.leaves < texts (before.flatMap (trimmedLeaf blocks ts)) →
      (∃ k, misread blocks ts k = true) → Progress blocks ts before n s

section Progress

variable {blocks : Bool} {n : Nat} {ts before l more : List Token} {s s' f : State}

/-- A line takes the parser on. -/
theorem Progress.next (h : Progress blocks ts before n s) (hcut : CutAt n ts before (l ++ more))
    (hl : IsLine n l more) (hmore : OnLines (n + 1) more)
    (hread : ReadLine blocks n more.isEmpty l s s') :
    Progress blocks ts (before ++ l) (n + 1) s' := by
  have hleaves := hcut.leavesOn_eq blocks hl hmore
  cases h with
  | exact hsame hsiblings hnone =>
    have hmis : misread blocks ts n = misreadIn blocks more.isEmpty s.siblings l := by
      rw [hcut.misread_eq hl hmore, hsiblings.misreadIn_eq]
    cases hline : misread blocks ts n with
    | false =>
      have hpassed := hread.exact (hmis.symm.trans hline)
      refine .exact ?_ ?_ ?_
      · rw [hpassed.leaves, hsame, hleaves, List.flatMap_append]
      · rw [hcut.siblingsAt_succ hl hmore]
        exact hpassed.siblings _ hsiblings
      · intro k hk
        rcases Nat.lt_succ_iff_lt_or_eq.1 hk with hk | rfl
        · exact hnone k hk
        · exact hline
    | true =>
      refine .short ?_ ⟨n, hline⟩
      have hshort := hread.short (hmis.symm.trans hline)
      rwa [hsame, hleaves, ← List.flatMap_append] at hshort
  | short hless hmis =>
    refine .short ?_ hmis
    have hle : texts s'.leaves ≤ texts (s.leaves ++ leavesOn blocks more.isEmpty l) := by
      cases hline : misreadIn blocks more.isEmpty s.siblings l with
      | false => exact Nat.le_of_eq (congrArg texts (hread.exact hline).leaves)
      | true => exact Nat.le_of_lt (hread.short hline)
    rw [List.flatMap_append, ← hleaves, texts_append]
    rw [texts_append] at hle
    omega

/-- Beyond the last line there is nothing to misread. -/
theorem misread_of_nil (h : CutAt n ts before []) {k : Nat} (hk : n ≤ k) :
    misread blocks ts k = false := by
  have hnone : lineOf ts k = [] :=
    List.filter_eq_nil_iff.2 fun t ht => by
      rw [h.eq, List.append_nil] at ht
      have hlt := h.before t ht
      simp only [decide_eq_true_eq]
      omega
  rw [misread, hnone]
  rfl

/-- From line to line, to the end of the template. -/
theorem Progress.of_build {rest : List Token} (h : Progress blocks ts before n s)
    (hcut : CutAt n ts before rest) (hpragma : ∀ t ∈ ts, t.kind ≠ .pragma)
    (hs : s.Sound blocks) (hline : ∀ k ≥ n, s.line? ≠ some k) (hbuild : build s rest = .ok f) :
    ∃ m, Progress blocks ts ts m f ∧ ∀ k ≥ m, misread blocks ts k = false := by
  induction hlen : rest.length using Nat.strongRecOn generalizing rest before n s with
  | ind len ih =>
    rcases rest with _ | ⟨t, rest⟩
    · rw [build] at hbuild
      cases hbuild
      have hall : before = ts := by rw [hcut.eq, List.append_nil]
      subst hall
      exact ⟨n, h, fun k hk => misread_of_nil hcut hk⟩
    · obtain ⟨l, more, heq, hl, hmore⟩ := hcut.rest.exists_line
      rw [heq] at hcut hbuild
      have hpragma' : ∀ t ∈ l, t.kind ≠ .pragma := fun t ht => hpragma t (by
        rw [hcut.eq]
        exact List.mem_append_right _ (List.mem_append_left _ ht))
      obtain ⟨s', hrest, hread⟩ :=
        exists_readLine hl hmore hpragma' hs (hline n (Nat.le_refl n)) hbuild
      have hshorter : more.length < len := by
        have hpos := List.length_pos_iff.2 hl.ne_nil
        rw [← hlen, heq, List.length_append]
        omega
      refine ih more.length hshorter (h.next hcut hl hmore hread) (hcut.next hl hmore) hread.sound
        ?_ hrest rfl
      intro k hk
      rw [hread.line, ne_eq, Option.some.injEq]
      omega

end Progress

/-- The leaves of a tree are those of the run of the parser that it comes
of. -/
theorem exists_build {pragmas : List Pragma} {ts : List Token} {tree : Tree}
    (h : Tree.ofTokens pragmas ts = .ok tree) :
    ∃ f, build ⟨none, 0, PragmaSet.ofPragmas pragmas, [], []⟩ ts = .ok f ∧
      leavesOf tree.nodes = f.leaves := by
  obtain ⟨f, hbuild, hopened, rfl⟩ := ofTokens_eq_ok_iff.1 h
  refine ⟨f, hbuild, ?_⟩
  simp [State.leaves, hopened]

/-- **The parser trims a template as it should exactly if it misreads no
line of it.** -/
theorem leaves_eq_trimmedLeaves_iff {delimiters : Delimiters} {source : String}
    {pragmas : List Pragma} {ts : List Token} {tree : Tree}
    (hscan : Token.scan delimiters source = .ok ts)
    (hpragma : ∀ t ∈ ts, t.kind ≠ .pragma) (htree : Tree.ofTokens pragmas ts = .ok tree) :
    leavesOf tree.nodes = trimmedLeaves ((PragmaSet.ofPragmas pragmas).has .blocks) ts ↔
      ∀ n, misread ((PragmaSet.ofPragmas pragmas).has .blocks) ts n = false := by
  obtain ⟨f, hbuild, hleaves⟩ := exists_build htree
  have hlines := onLines_scan hscan hpragma
  have hcut : CutAt 0 ts [] ts := ⟨rfl, by simp, hlines⟩
  have hstart : Progress ((PragmaSet.ofPragmas pragmas).has .blocks) ts [] 0
      ⟨none, 0, PragmaSet.ofPragmas pragmas, [], []⟩ := by
    refine .exact rfl ?_ (by simp)
    rw [hcut.siblingsAt_eq]
    exact .nil
  obtain ⟨m, hprogress, hnone⟩ :=
    hstart.of_build hcut hpragma ⟨rfl, by simp [State.OpenedTags]⟩ (by simp) hbuild
  rw [hleaves]
  cases hprogress with
  | exact hsame _ hread =>
    refine iff_of_true hsame fun k => ?_
    rcases Nat.lt_or_ge k m with hk | hk
    · exact hread k hk
    · exact hnone k hk
  | short hless hmis =>
    refine iff_of_false ?_ ?_
    · intro heq
      rw [heq] at hless
      exact Nat.lt_irrefl _ hless
    · intro hall
      obtain ⟨k, hk⟩ := hmis
      rw [hall k] at hk
      cases hk

/-- A partial on a line of its own, where both sides hold. -/
theorem leaves_eq_trimmedLeaves_iff_of_partial :
    ∃ ts tree, Token.scan Delimiters.standard " \x7b\x7b>p\x7d\x7d\n" = .ok ts ∧
      Tree.ofTokens [] ts = .ok tree ∧
      (leavesOf tree.nodes = trimmedLeaves false ts ↔ ∀ n, misread false ts n = false) := by
  let insert : Token :=
    { Token.ofTag .partialTag "p" 0 with
      delimiters? := some Delimiters.standard
      offset? := some 7 }
  have hscan : Token.scan Delimiters.standard " \x7b\x7b>p\x7d\x7d\n" =
      .ok [Token.ofText " " 0, insert, Token.ofText "\n" 0] := by cbv
  have htree : Tree.ofTokens [] [Token.ofText " " 0, insert, Token.ofText "\n" 0] =
      .ok ⟨[{ insert with indent? := some " " }], ⟨[]⟩⟩ := by cbv
  refine ⟨_, _, hscan, htree, leaves_eq_trimmedLeaves_iff hscan ?_ htree⟩
  simp [insert, Token.ofText, Token.ofTag, Token.bare]

/-- The newline after an empty section goes, though two tags stand on its
line. -/
theorem leaves_ne_trimmedLeaves :
    ¬ ∀ ts tree, Token.scan Delimiters.standard "\x7b\x7b#a\x7d\x7d\x7b\x7b/a\x7d\x7d\n" = .ok ts →
      (∀ t ∈ ts, t.kind ≠ .pragma) → Tree.ofTokens [] ts = .ok tree →
      leavesOf tree.nodes = trimmedLeaves false ts := by
  let tag (kind : TokenKind) : Token :=
    { Token.ofTag kind "a" 0 with
      delimiters? := some Delimiters.standard
      offset? := some 6 }
  let ts : List Token := [tag .sectionTag, tag .closingTag, Token.ofText "\n" 0]
  let tree : Tree := ⟨[{ tag .sectionTag with stop? := some 6, nodes? := some [] }], ⟨[]⟩⟩
  intro h
  have hplain : ∀ t ∈ ts, t.kind ≠ .pragma := by
    simp [ts, tag, Token.ofText, Token.ofTag, Token.bare]
  have hsame := h ts tree (by cbv) hplain (by cbv)
  have hnone : texts (leavesOf tree.nodes) = 0 := by cbv
  have hone : texts (trimmedLeaves false ts) = 1 := by cbv
  rw [hsame, hone] at hnone
  cases hnone

end Tree

end Mustache
