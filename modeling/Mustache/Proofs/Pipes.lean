import Mustache.Proofs.LineStarts
import Mustache.Proofs.Listing
/-!
# Mustache — names with filters

Under the pragma a tag may go on behind its name with filters, each behind a
bar: a pipe (`Text.piped`). The tag is scanned as any other, and its inside is
its name at first. Only the parser splits that name at the bars and trims the
parts, for opening and closing tags alike (`Tree.reading_pipeToken`).

So a tag with a pipe leaves a node that has its name and its filters
(`Tree.exists_pipeNode`).
-/

namespace Mustache

/-! ## Parts of a text -/

namespace Text

section Trimming

variable {c : Char} {cs : List Char}

theorem trim_cons_of_blank (hc : isBlank c = true) (cs : List Char) : trim (c :: cs) = trim cs := by
  rw [trim, trimStart, List.dropWhile_cons_of_pos hc]
  rfl

theorem trimEnd_concat_of_blank (hc : isBlank c = true) (cs : List Char) :
    trimEnd (cs ++ [c]) = trimEnd cs := by
  rw [trimEnd, List.reverse_append, List.reverse_singleton, List.singleton_append,
    List.dropWhile_cons_of_pos hc]
  rfl

theorem trimEnd_concat_of_not_blank (hc : ¬ isBlank c = true) (cs : List Char) :
    trimEnd (cs ++ [c]) = cs ++ [c] := by
  rw [trimEnd, List.reverse_append, List.reverse_singleton, List.singleton_append,
    List.dropWhile_cons_of_neg hc, List.reverse_cons, List.reverse_reverse]

theorem trim_concat_of_blank (hc : isBlank c = true) (cs : List Char) :
    trim (cs ++ [c]) = trim cs := by
  have hstart : trimStart (cs ++ [c]) = trimStart cs ++ [c] ∨
      trimStart (cs ++ [c]) = [] ∧ trimStart cs = [] := by
    rw [trimStart, List.dropWhile_append, trimStart]
    split
    · next hnone =>
      rw [List.dropWhile_cons_of_pos hc, List.isEmpty_iff.1 hnone]
      exact .inr ⟨rfl, rfl⟩
    · exact .inl rfl
  rcases hstart with hstart | ⟨hstart, hempty⟩
  · rw [trim, hstart, trimEnd_concat_of_blank hc, trim]
  · rw [trim, hstart, trim, hempty]

/-- What is trimmed begins as it does. -/
theorem head?_trim_cons (hc : ¬ isBlank c = true) (cs : List Char) :
    (trim (c :: cs)).head? = some c := by
  rw [trim, trimStart, List.dropWhile_cons_of_neg hc]
  obtain ⟨blanks, hblanks⟩ : trimEnd (c :: cs) <+: c :: cs := by
    rw [trimEnd, ← List.reverse_suffix, List.reverse_reverse]
    exact List.dropWhile_suffix _
  cases hend : trimEnd (c :: cs) with
  | cons d r =>
    rw [hend] at hblanks
    rw [(List.cons.inj hblanks).1]
    rfl
  | nil =>
    have hall := List.dropWhile_eq_nil_iff.1 (List.reverse_eq_nil_iff.1 hend)
    exact absurd (hall c (List.mem_reverse.2 List.mem_cons_self)) hc

end Trimming

section Splitting

variable {p : Char → Bool} {c : Char} {cs w : List Char}

theorem splitWhere_cons_of_pos (hc : p c = true) (cs : List Char) :
    splitWhere p (c :: cs) = [] :: splitWhere p cs := by
  rw [splitWhere]
  split
  · next hnil => exact absurd hnil (splitWhere_ne_nil p cs)
  · next w ws hcons => rw [if_pos hc, hcons]

theorem splitWhere_cons_of_neg (hc : ¬ p c = true) {w : List Char} {ws : List (List Char)}
    (hcs : splitWhere p cs = w :: ws) : splitWhere p (c :: cs) = (c :: w) :: ws := by
  rw [splitWhere, hcs]
  exact if_neg hc

/-- The first part of a text goes up to where it is split first. -/
theorem splitWhere_append (hw : ∀ d ∈ w, ¬ p d = true) (hc : p c = true) (cs : List Char) :
    splitWhere p (w ++ c :: cs) = w :: splitWhere p cs := by
  induction w with
  | nil => exact splitWhere_cons_of_pos hc cs
  | cons d w ih =>
    obtain ⟨hd, hw⟩ := List.forall_mem_cons.1 hw
    exact splitWhere_cons_of_neg hd (ih hw)

theorem splitWhere_eq_singleton (hw : ∀ d ∈ w, ¬ p d = true) : splitWhere p w = [w] := by
  induction w with
  | nil => rfl
  | cons d w ih =>
    obtain ⟨hd, hw⟩ := List.forall_mem_cons.1 hw
    exact splitWhere_cons_of_neg hd (ih hw)

/-- What comes at the end of a text comes at the end of its last part. -/
theorem exists_splitWhere_concat (hc : ¬ p c = true) (cs : List Char) :
    ∃ parts last, splitWhere p cs = parts ++ [last] ∧
      splitWhere p (cs ++ [c]) = parts ++ [last ++ [c]] := by
  induction cs with
  | nil => exact ⟨[], [], rfl, splitWhere_cons_of_neg hc rfl⟩
  | cons d cs ih =>
    obtain ⟨parts, last, hcs, hcs'⟩ := ih
    by_cases hd : p d = true
    · refine ⟨[] :: parts, last, ?_, ?_⟩
      · rw [splitWhere_cons_of_pos hd, hcs]
        rfl
      · rw [List.cons_append, splitWhere_cons_of_pos hd, hcs']
        rfl
    · cases parts with
      | nil =>
        exact ⟨[], d :: last, splitWhere_cons_of_neg hd hcs, splitWhere_cons_of_neg hd hcs'⟩
      | cons w parts =>
        exact ⟨(d :: w) :: parts, last, splitWhere_cons_of_neg hd hcs,
          splitWhere_cons_of_neg hd hcs'⟩

/-- The parts of a text at bars, each trimmed. -/
def trimmedParts (cs : List Char) : List (List Char) := (splitWhere (· = '|') cs).map trim

theorem bar_not_blank {c : Char} (hc : isBlank c = true) : ¬ decide (c = '|') = true := by
  intro hbar
  rw [of_decide_eq_true hbar] at hc
  exact absurd hc (by decide)

theorem trimmedParts_cons_of_blank (hc : isBlank c = true) (cs : List Char) :
    trimmedParts (c :: cs) = trimmedParts cs := by
  obtain ⟨w, ws, hcs⟩ := List.exists_cons_of_ne_nil (splitWhere_ne_nil (· = '|') cs)
  rw [trimmedParts, trimmedParts, splitWhere_cons_of_neg (bar_not_blank hc) hcs, hcs,
    List.map_cons, trim_cons_of_blank hc, List.map_cons]

theorem trimmedParts_concat_of_blank (hc : isBlank c = true) (cs : List Char) :
    trimmedParts (cs ++ [c]) = trimmedParts cs := by
  obtain ⟨parts, last, hcs, hcs'⟩ := exists_splitWhere_concat (p := (· = '|')) (bar_not_blank hc) cs
  rw [trimmedParts, trimmedParts, hcs, hcs', List.map_append, List.map_append, List.map_singleton,
    trim_concat_of_blank hc, List.map_singleton]

theorem trimmedParts_trimStart (cs : List Char) :
    trimmedParts (trimStart cs) = trimmedParts cs := by
  induction cs with
  | nil => rfl
  | cons c cs ih =>
    by_cases hc : isBlank c = true
    · rw [trimStart, List.dropWhile_cons_of_pos hc, trimmedParts_cons_of_blank hc]
      exact ih
    · rw [trimStart, List.dropWhile_cons_of_neg hc]

/-- White space around a text is white space around its parts. -/
theorem trimmedParts_trim (cs : List Char) : trimmedParts (trim cs) = trimmedParts cs := by
  rw [trim, ← trimmedParts_trimStart cs]
  induction trimStart cs using List.reverseRecOn with
  | nil => rfl
  | append_singleton cs c ih =>
    by_cases hc : isBlank c = true
    · rw [trimEnd_concat_of_blank hc, ih, trimmedParts_concat_of_blank hc]
    · rw [trimEnd_concat_of_not_blank hc]

end Splitting

/-- What a pattern without blanks comes after may have a blank in it: the
pattern is looked for on either side by itself. -/
theorem FirstAfter.append_blank {pattern w rest : List Char} (hblank : ' ' ∉ pattern)
    (hw : ¬ pattern <:+: w) (h : FirstAfter pattern rest) :
    FirstAfter pattern (w ++ ' ' :: rest) := by
  intro u v heq
  rw [List.append_assoc, List.cons_append] at heq
  rcases List.append_eq_append_iff.1 heq with ⟨more, rfl, hmore⟩ | ⟨more, hu, hmore⟩
  · -- the pattern begins behind the blank, or with it
    cases more with
    | nil =>
      cases pattern with
      | nil => exact absurd (List.nil_infix) hw
      | cons c pattern =>
        rw [List.nil_append, List.cons_append] at hmore
        exact absurd ((List.cons.inj hmore).1 ▸ List.mem_cons_self) hblank
    | cons c more =>
      rw [List.cons_append] at hmore
      exact h more v (List.cons.inj hmore).2
  · -- it begins in front of the blank, and would have it or end there
    rcases List.append_eq_append_iff.1 hmore with ⟨inner, hinner, -⟩ | ⟨inner, hinner, hrest⟩
    · refine absurd ⟨u, inner, ?_⟩ hw
      rw [hu, hinner, List.append_assoc]
    · cases inner with
      | nil =>
        refine absurd ⟨u, [], ?_⟩ hw
        rw [hu, hinner, List.append_nil, List.append_nil]
      | cons c inner =>
        obtain ⟨rfl, -⟩ := List.cons.inj hrest
        refine absurd ?_ hblank
        rw [hinner]
        exact List.mem_append_right more List.mem_cons_self

/-! ## Pipes -/

/-- **A pipe**: a name and filters as they stand in a tag, a blank on both sides of
each and bars between them. -/
def piped (x : String) : List String → List Char
  | [] => ' ' :: (x.toList ++ [' '])
  | f :: fs => ' ' :: (x.toList ++ [' ']) ++ '|' :: piped f fs

theorem exists_piped_eq_cons (x : String) (fs : List String) :
    ∃ r, piped x fs = ' ' :: r := by
  cases fs <;> exact ⟨_, rfl⟩

end Text

/-- **A name that can stand in a pipe**: there is no white space around it, no bar
in it, and no closing delimiter. -/
structure FitsPipe (d : Delimiters) (name : String) : Prop where
  trimmed : trimmed name = name
  barless : '|' ∉ name.toList
  closing : ¬ d.closing.toList <:+: name.toList

instance (d : Delimiters) (name : String) : Decidable (FitsPipe d name) :=
  decidable_of_iff (trimmed name = name ∧ '|' ∉ name.toList ∧
      ¬ d.closing.toList <:+: name.toList)
    ⟨fun ⟨h₁, h₂, h₃⟩ => ⟨h₁, h₂, h₃⟩, fun h => ⟨h.trimmed, h.barless, h.closing⟩⟩

/-- **A pipe that can be written** in these delimiters: the name and the filters can
stand in it, the name does not begin with a star, and a bar closes no tag. -/
structure PipeFits (d : Delimiters) (x : String) (fs : List String) : Prop where
  bar : d.closing ≠ "|"
  star : x.toList.head? ≠ some '*'
  name : FitsPipe d x
  filters : ∀ f ∈ fs, FitsPipe d f

instance (d : Delimiters) (x : String) (fs : List String) : Decidable (PipeFits d x fs) :=
  decidable_of_iff (d.closing ≠ "|" ∧ x.toList.head? ≠ some '*' ∧ FitsPipe d x ∧
      ∀ f ∈ fs, FitsPipe d f)
    ⟨fun ⟨h₁, h₂, h₃, h₄⟩ => ⟨h₁, h₂, h₃, h₄⟩, fun h => ⟨h.bar, h.star, h.name, h.filters⟩⟩

section

variable {d : Delimiters} {x : String} {fs : List String}

theorem FitsPipe.trim_padded (h : FitsPipe d x) :
    Text.trim (' ' :: (x.toList ++ [' '])) = x.toList := by
  refine Text.trim_padded ?_
  have htrimmed := congrArg String.toList h.trimmed
  rwa [Mustache.trimmed, String.toList_ofList] at htrimmed

theorem FitsPipe.padded_barless (h : FitsPipe d x) :
    ∀ c ∈ ' ' :: (x.toList ++ [' ']), ¬ decide (c = '|') = true := by
  have hbarless := h.barless
  intro c hc hbar
  rw [of_decide_eq_true hbar] at hc
  simp only [List.mem_cons, List.mem_append, List.not_mem_nil, or_false] at hc
  rcases hc with hc | hc | hc
  · cases hc
  · exact hbarless hc
  · cases hc

/-- **The parts of a pipe** are its name and its filters. -/
theorem trimmedParts_piped (hx : FitsPipe d x) (hfs : ∀ f ∈ fs, FitsPipe d f) :
    Text.trimmedParts (Text.piped x fs) = x.toList :: fs.map String.toList := by
  induction fs generalizing x with
  | nil =>
    rw [Text.trimmedParts, Text.piped, Text.splitWhere_eq_singleton hx.padded_barless,
      List.map_singleton, hx.trim_padded, List.map_nil]
  | cons f fs ih =>
    obtain ⟨hf, hfs⟩ := List.forall_mem_cons.1 hfs
    have hmore := ih hf hfs
    rw [Text.trimmedParts] at hmore
    rw [Text.trimmedParts, Text.piped, Text.splitWhere_append hx.padded_barless (by decide),
      List.map_cons, hx.trim_padded, hmore, List.map_cons]

/-- **A pipe holds no closing delimiter**, nor does it end in the beginning of one. -/
theorem PipeFits.firstAfter (h : PipeFits d x fs) (hd : d.Accepted) :
    Text.FirstAfter d.closing.toList (Text.piped x fs) := by
  have hblank : ' ' ∉ d.closing.toList := (hd.not_blank (by decide)).2
  have hnothing : ¬ d.closing.toList <:+: [] := by
    rw [List.infix_nil]
    exact hd.ne_nil.2
  have hbar : ¬ d.closing.toList <:+: ['|'] := by
    intro hinfix
    rcases List.infix_cons_iff.1 hinfix with hbegin | hrest
    · rcases List.prefix_cons_iff.1 hbegin with hnil | ⟨r, hclosing, hr⟩
      · exact hd.ne_nil.2 hnil
      · rw [List.prefix_nil.1 hr] at hclosing
        exact h.bar (String.toList_inj.1 hclosing)
    · exact hnothing hrest
  obtain ⟨-, -, hx, hfs⟩ := h
  induction fs generalizing x with
  | nil =>
    exact .append_blank (w := []) hblank hnothing (.append_blank hblank hx.closing .nil)
  | cons f fs ih =>
    obtain ⟨hf, hfs⟩ := List.forall_mem_cons.1 hfs
    obtain ⟨r, hr⟩ := Text.exists_piped_eq_cons f fs
    have hmore := ih hf hfs
    rw [hr] at hmore
    have hrest := hmore.tail.append_blank hblank hbar
    have hname := (hrest.append_blank hblank hx.closing).append_blank hblank hnothing
    rw [Text.piped, hr]
    simpa using hname

end

/-! ## Tags with pipes -/

namespace Scan

/-- The tags that are looked at here: variables, sections, inverted sections, and
what closes them. -/
def pipeKinds : List TokenKind := [.escaped, .sectionTag, .invertedTag, .closingTag]

/-- What stands behind the opening delimiter of such a tag. -/
def sigilOf : TokenKind → List Char
  | .sectionTag => ['#']
  | .invertedTag => ['^']
  | .closingTag => ['/']
  | _ => []

/-- **A tag with a pipe** as it is written. -/
def Cursor.pipeTag (c : Cursor) (kind : TokenKind) (x : String) (fs : List String) : List Char :=
  c.tag (sigilOf kind) (Text.piped x fs) c.closing

/-- The token of such a tag. The pipe is its name. -/
def Cursor.pipeToken (c : Cursor) (kind : TokenKind) (x : String) (fs : List String) : Token :=
  tagToken c kind (Text.trim (Text.piped x fs))
    (if kind = .closingTag then c.offset else (c.past (c.pipeTag kind x fs)).offset)

variable {c : Cursor} {kind : TokenKind} {x : String} {fs : List String}

@[simp] theorem Cursor.pipeToken_kind (c : Cursor) (kind : TokenKind) (x : String)
    (fs : List String) : (c.pipeToken kind x fs).kind = kind := rfl

theorem announces_pipe (hkind : kind ∈ pipeKinds) (x : String) (fs : List String)
    (rest : List Char) : Announces (sigilOf kind) (Text.piped x fs ++ rest) kind := by
  simp only [pipeKinds, List.mem_cons, List.not_mem_nil, or_false] at hkind
  rcases hkind with rfl | rfl | rfl | rfl
  · obtain ⟨r, hr⟩ := Text.exists_piped_eq_cons x fs
    rw [hr]
    exact .plain rfl
  all_goals exact .sigil rfl

/-- **Such a tag is read** wherever it stands. -/
theorem tile_pipeTag (hkind : kind ∈ pipeKinds) (hfits : PipeFits c.delimiters x fs)
    (hd : c.delimiters.Accepted) (rest : List Char) :
    Tile c (c.pipeTag kind x fs) rest (c.pipeToken kind x fs)
      (c.past (c.pipeTag kind x fs)) := by
  refine .named rfl (announces_pipe hkind x fs c.closing) ?_ (hfits.firstAfter hd)
  revert hkind
  cases kind <;> decide

/-- **What stands around a tag** that a scan comes to: segments before it and after
it, with their tokens. -/
theorem exists_around {delimiters : Delimiters} (hd : delimiters.Accepted) {source : String}
    {ts before : List Token} {next : Cursor} {segment back : List Char} {t : Token}
    (hscan : Token.scan delimiters source = .ok ts)
    (hreads : Reads ⟨0, 0, delimiters⟩ source.toList before c (segment ++ back))
    (htile : c.delimiters.Accepted → ∀ rest, Tile c segment rest t next) :
    c.delimiters.Accepted ∧ ∃ after earlier later stop,
      ts = hoistPragmas (before ++ t :: after) ∧
      source.toList = earlier.flatten ++ (segment ++ back) ∧
      Tiles ⟨0, 0, delimiters⟩ earlier (segment ++ back) before c ∧ back = later.flatten ∧
      Tiles next later [] after stop := by
  obtain ⟨earlier, hsource, hearlier⟩ := hreads.exists_tiles hd
  have haccepted := hearlier.accepted hd
  have hthis := htile haccepted back
  have hne := List.append_ne_nil_of_left_ne_nil (hthis.ne_nil haccepted.ne_nil.1) back
  -- what is scanned behind the tag is scanned by itself
  obtain ⟨raw, hraw, rfl⟩ := exists_of_scan hscan
  rw [hreads.tokensFrom_eq, tokensFrom_cons _ _ hne, hthis.readToken_eq haccepted.ne_nil.1] at hraw
  dsimp only at hraw
  cases hmore : tokensFrom next back with
  | error e =>
    rw [hmore] at hraw
    cases hraw
  | ok after =>
    rw [hmore] at hraw
    cases hraw
    obtain ⟨stop, hafter⟩ := tokensFrom_eq_ok_iff.1 hmore
    obtain ⟨later, hback, hlater⟩ := hafter.exists_tiles (hthis.accepted haccepted)
    rw [List.append_nil] at hback
    exact ⟨haccepted, after, earlier, later, stop, rfl, hsource, hearlier, hback, hlater⟩

/-- Where pragmas come first, none stands behind another token. -/
theorem plain_after {delimiters : Delimiters} {source : String} {before after : List Token}
    {t : Token} (hscan : Token.scan delimiters source = .ok (before ++ t :: after))
    (ht : t.kind ≠ .pragma) : ∀ u ∈ t :: after, u.kind ≠ .pragma := by
  obtain ⟨raw, -, hraw⟩ := exists_of_scan hscan
  have hfirst := pragmasFirst_hoistPragmas raw
  rw [← hraw] at hfirst
  have hafter := (List.pairwise_cons.1 (List.pairwise_append.1 hfirst).2.1).1
  exact List.forall_mem_cons.2 ⟨ht, fun u hu hkind => ht (hafter u hu hkind)⟩

end Scan

namespace Tree

open Scan (Cursor pipeKinds)

variable {set : PragmaSet} {c : Cursor} {kind : TokenKind} {x : String} {fs : List String}

/-- The name of a pipe does not begin with a star. -/
theorem not_starred_pipeToken {d : Delimiters} (hfits : PipeFits d x fs) :
    ¬ Starred (c.pipeToken kind x fs) := by
  intro hstar
  obtain ⟨r, hr⟩ := List.head?_eq_some_iff.1 hstar
  have hname : (c.pipeToken kind x fs).name.toList = Text.trim (Text.piped x fs) :=
    String.toList_ofList
  have hparts := trimmedParts_piped hfits.name hfits.filters
  rw [← Text.trimmedParts_trim, ← hname, ← Text.trimmedParts_trimStart, hr] at hparts
  obtain ⟨w, ws, hr⟩ := List.exists_cons_of_ne_nil (Text.splitWhere_ne_nil (· = '|') r)
  rw [Text.trimmedParts, Text.splitWhere_cons_of_neg (by decide) hr, List.map_cons] at hparts
  refine hfits.star ?_
  rw [← (List.cons.inj hparts).1]
  exact Text.head?_trim_cons (by decide) w

/-- **How the parser reads a pipe**: the first part is the name, and the others are
the filters. -/
theorem reading_pipeToken {d : Delimiters} (hset : set.has .filters = true)
    (hkind : kind ∈ pipeKinds) (hfits : PipeFits d x fs) :
    ¬ MisplacedStar set (c.pipeToken kind x fs) ∧
      reading set (c.pipeToken kind x fs) =
        { c.pipeToken kind x fs with name? := some x, filters := fs } := by
  have hstar : ¬ Starred (c.pipeToken kind x fs) := not_starred_pipeToken hfits
  refine ⟨fun h => hstar h.2.1, ?_⟩
  have hcomment : (c.pipeToken kind x fs).kind ≠ .comment := by
    rintro rfl
    exact absurd hkind (by decide)
  have hparts : (Text.splitWhere (· = '|') (c.pipeToken kind x fs).name.toList).map
      (fun p => String.ofList (Text.trim p)) = x :: fs := by
    have hname : (c.pipeToken kind x fs).name.toList = Text.trim (Text.piped x fs) :=
      String.toList_ofList
    have hparts := congrArg (List.map String.ofList) (trimmedParts_piped hfits.name hfits.filters)
    rw [← Text.trimmedParts_trim, ← hname, Text.trimmedParts, List.map_map, List.map_cons,
      List.map_map] at hparts
    simpa [Function.comp_def] using hparts
  unfold reading
  dsimp only
  rw [if_neg hcomment, withoutStar_of_not_starred hstar, ite_self, if_pos hset, readFilters, hparts]
  cases fs with
  | cons f fs => rfl
  | nil =>
    -- with one part there is nothing to read, and it is the name already
    have hname : Text.trim (Text.piped x []) = x.toList := hfits.name.trim_padded
    dsimp only
    rw [Cursor.pipeToken, hname, Scan.tagToken, String.ofList_toList]
    rfl

/-! ## The node of a tag -/

open Token (Within)

mutual

/-- What is listed of some nodes is one of them, or a closing tag. -/
theorem exists_of_mem_marksOf {u : Token} :
    ∀ ts : List Token, Mark.token u ∈ marksOf ts → ∃ v, Within v ts ∧ v.asRead = u
  | [], h => nomatch h
  | t :: ts, h => by
    rw [marksOf] at h
    rcases List.mem_append.1 h with h | h
    · obtain rfl | ⟨v, hv, hu⟩ := exists_of_mem_marks t h
      · exact ⟨t, .here List.mem_cons_self, rfl⟩
      · exact ⟨v, .inside List.mem_cons_self hv, hu⟩
    · obtain ⟨v, hv, hu⟩ := exists_of_mem_marksOf ts h
      exact ⟨v, hv.mono (List.subset_cons_self t ts), hu⟩

theorem exists_of_mem_marks {u : Token} :
    ∀ t : Token, Mark.token u ∈ marks t → t.asRead = u ∨ ∃ v, Within v t.nodes ∧ v.asRead = u
  | ⟨_, _, _, _, _, _, _, _, _, _, nodes?⟩, h => by
    rw [marks_eq] at h
    rcases List.mem_cons.1 h with h | h
    · exact .inl (Mark.token.inj h).symm
    · exact .inr (exists_of_mem_marksInside _ nodes? h)

theorem exists_of_mem_marksInside {u : Token} :
    ∀ (t : Token) (nodes? : Option (List Token)), Mark.token u ∈ marksInside t nodes? →
      ∃ v, Within v (nodes?.getD []) ∧ v.asRead = u
  | _, none, h => nomatch h
  | _, some ts, h => by
    rw [marksInside] at h
    rcases List.mem_append.1 h with h | h
    · exact exists_of_mem_marksOf ts h
    · cases List.mem_singleton.1 h

end

/-- What is listed of tokens is listed token by token. -/
theorem Nesting.marks_append {n m : Nesting} {ts : List Token} (h : n.takeAll ts = .ok m)
    (us : List Token) : n.marks (ts ++ us) = n.marks ts ++ m.marks us := by
  induction ts generalizing n with
  | nil =>
    cases h
    rfl
  | cons t ts ih =>
    rw [takeAll_cons] at h
    obtain ⟨n₁, hfirst, hmore⟩ := exists_of_bind_eq_ok h
    rw [List.cons_append, marks_cons hfirst, marks_cons hfirst, ih hmore, List.append_assoc]

/-- Where no pragma is to come, a tag is listed as it is read under the pragmas that
are in effect at the end. -/
theorem Nesting.mem_marks {n m : Nesting} {t : Token} {before after : List Token}
    (h : n.takeAll (before ++ t :: after) = .ok m) (hplain : ∀ u ∈ t :: after, u.kind ≠ .pragma)
    (hkind : t.kind ∉ [.closingTag, .delimiterTag, .blockVar]) :
    Mark.token (reading m.pragmas t).asRead ∈ n.marks (before ++ t :: after) := by
  simp only [List.mem_cons, List.not_mem_nil, or_false, not_or] at hkind
  obtain ⟨hclosing, hdelimiter, hblock⟩ := hkind
  rw [takeAll_append] at h
  obtain ⟨n', hbefore, hafter⟩ := exists_of_bind_eq_ok h
  have hset : m.pragmas = n'.pragmas := takeAll_of_plain hplain hafter
  rw [takeAll_cons] at hafter
  obtain ⟨_, hfirst, -⟩ := exists_of_bind_eq_ok hafter
  rw [hset, marks_append hbefore, marks_cons hfirst, newMarks, kind_reading, if_neg hdelimiter,
    reshape_of_ne (by rwa [kind_reading]), Mark.ofToken, kind_reading, if_neg hclosing]
  exact List.mem_append_right _ List.mem_cons_self

/-- **A tag stays in the tree** as it is read under the pragmas of the template,
unless it is a block or closes one. -/
theorem exists_node {delimiters : Delimiters} {source : String} {pragmas : List Pragma}
    {ts : List Token} {tree : Tree} {t : Token} (hscan : Token.scan delimiters source = .ok ts)
    (htree : ofTokens pragmas ts = .ok tree) (ht : t ∈ ts)
    (hkind : t.kind ∉ [.pragma, .closingTag, .delimiterTag, .blockVar, .text]) :
    ∃ u, Within u tree.nodes ∧ u.asRead = (reading tree.pragmas t).asRead := by
  simp only [List.mem_cons, List.not_mem_nil, or_false, not_or] at hkind
  obtain ⟨hpragma, hclosing, hdelimiter, hblock, htext⟩ := hkind
  have hfresh := Scan.fresh_scan hscan
  have htaken := (exists_ofTokens_iff hfresh).1 ⟨tree, htree, rfl⟩
  -- the pragmas come first, and so all of them are in effect where the tag is taken
  obtain ⟨before, after, rfl⟩ := List.mem_iff_append.1 ht
  have hmark : Mark.token (reading tree.pragmas t).asRead ∈
      (Nesting.start pragmas).marks (before ++ t :: after) :=
    Nesting.mem_marks htaken (Scan.plain_after hscan hpragma) (by simp [*])
  have hsolid : (Mark.token (reading tree.pragmas t).asRead).isBlank = false := by
    refine Bool.eq_false_iff.2 fun hblank => htext ?_
    rw [← kind_reading]
    exact isBlank_kind hblank
  -- the tree lists all of its tokens but white space
  obtain ⟨s, hbuild, hopened, rfl⟩ := ofTokens_eq_ok_iff.1 htree
  have hthinned := thinned_build hfresh (.start _) hbuild (.refl _)
  rw [s.marks_of_closed hopened] at hthinned
  have hkept : Mark.token (reading s.pragmas t).asRead ∈
      (marksOf s.siblings.reverse).filter (!·.isBlank) := by
    rw [hthinned.solid]
    exact List.mem_filter.2 ⟨hmark, by rw [hsolid]; rfl⟩
  exact exists_of_mem_marksOf _ (List.mem_filter.1 hkept).1

/-- **A tag with a pipe leaves a node** with its kind, its name and its filters. -/
theorem exists_pipeNode {delimiters : Delimiters} (hd : delimiters.Accepted) {source : String}
    {pragmas : List Pragma} {ts before : List Token} {tree : Tree} {c : Cursor} {back : List Char}
    (hscan : Token.scan delimiters source = .ok ts) (htree : ofTokens pragmas ts = .ok tree)
    (hset : tree.pragmas.has .filters = true) (hkind : kind ∈ [.escaped, .sectionTag, .invertedTag])
    (hfits : PipeFits c.delimiters x fs)
    (hreads : Scan.Reads ⟨0, 0, delimiters⟩ source.toList before c
      (c.pipeTag kind x fs ++ back)) :
    ∃ u, Within u tree.nodes ∧ u.kind = kind ∧ u.name = x ∧ u.filters = fs := by
  have hpipe : kind ∈ pipeKinds := by
    revert hkind
    cases kind <;> decide
  obtain ⟨-, hraw⟩ := Scan.exists_around hd hscan hreads (Scan.tile_pipeTag hpipe hfits)
  obtain ⟨after, -, -, -, rfl, -⟩ := hraw
  have hstays : kind ∉ [.pragma, .closingTag, .delimiterTag, .blockVar, .text] := by
    revert hkind
    cases kind <;> decide
  have hplain : kind ≠ .pragma := fun h => hstays (h ▸ List.mem_cons_self)
  have hmem : c.pipeToken kind x fs ∈
      Scan.hoistPragmas (before ++ c.pipeToken kind x fs :: after) := by
    simp [Scan.hoistPragmas, hplain]
  obtain ⟨u, hu, hread⟩ := exists_node hscan htree hmem hstays
  rw [(reading_pipeToken hset hpipe hfits).2] at hread
  refine ⟨u, hu, ?_, ?_, ?_⟩
  · exact congrArg Token.kind hread
  · exact congrArg Token.name hread
  · exact congrArg Token.filters hread

end Tree

end Mustache
