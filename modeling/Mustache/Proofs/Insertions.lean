import Mathlib.Data.List.DropRight
import Mustache.Proofs.Blocks
import Mustache.Proofs.DigestNumbers
import Mustache.Proofs.Serving
import Mustache.Proofs.Tiling
import Mustache.Proofs.Verbatim
/-!
# Mustache — the indents of nested partials

A template may be nothing but a partial tag behind white space. The white space
goes with the tag, and its one instruction has it for the indent
(`Engine.exists_compiled_insertion`). Where templates insert one another like
that, each adds its white space to the indent it is run with, or drops that
indent if it has none (`Render.partialIndent`). The text at the end has one
piece for each of its lines, and each piece is indented
(`Engine.exists_compiled_lines`). So what stands in front of the lines is the
white space of the tags behind the last one that has none
(`Engine.render_insertions`).
-/

namespace Mustache

open Scan (IsPiece)

/-- The delimiters of a tag have no part in how its name is read. -/
theorem Tree.readName_delimiters {set : PragmaSet} {t t' : Token}
    (h : readName set t = .ok t') (d : Option Delimiters) :
    readName set { t with delimiters? := d } = .ok { t' with delimiters? := d } := by
  let withIt (u : Token) : Token := { u with delimiters? := d }
  have hname (u : Token) : (withIt u).name = u.name := rfl
  have hstar (u : Token) : withoutStar (withIt u) = withIt (withoutStar u) := by
    unfold withoutStar
    rw [hname]
    split <;> rfl
  have hfilters (u : Token) : readFilters (withIt u) = withIt (readFilters u) := by
    unfold readFilters
    rw [hname]
    split <;> rfl
  have hreading : reading set (withIt t) = withIt (reading set t) := by
    unfold reading
    change (if t.kind = .comment then withIt t else _) = _
    split_ifs <;> simp only [hstar, hfilters]
  by_cases hstarred : MisplacedStar set t
  · rw [readName_eq_reading, if_pos hstarred] at h
    cases h
  · have hplaced : ¬ MisplacedStar set (withIt t) := hstarred
    rw [readName_eq_reading, if_neg hstarred] at h
    cases h
    rw [readName_eq_reading, if_neg hplaced, hreading]

/-! ## Partial tags behind white space -/

/-- A text with an indent in front of each of its lines. What follows the last
newline is a line if there is anything. -/
def Text.indented (indent cs : List Char) : List Char := (lines cs).flatMap (indent ++ ·)

/-- White space on one line. -/
def IsPadding (text : String) : Prop :=
  ∀ c ∈ text.toList, Text.isBlank c = true ∧ c ≠ '\n'

instance (text : String) : Decidable (IsPadding text) := List.decidableBAll _ text.toList

namespace Scan

/-- White space in front of a tag is a piece of text. -/
theorem tile_padding {w : List Char} (hw : ∀ c ∈ w, Text.isBlank c = true ∧ c ≠ '\n')
    {start : Cursor} (hd : start.delimiters.Accepted) (hne : w ≠ [])
    (after : List Char) :
    Tile start w (start.opening ++ after) (.ofText (String.ofList w) start.line)
      (start.past w) := by
  have hsegment : TextSegment start.opening w (start.opening ++ after) := by
    refine ⟨fun v hv hsuffix => ?_, fun hmem => ?_, .inr (.inr ?_)⟩
    · obtain ⟨c, v, rfl⟩ := List.exists_cons_of_ne_nil hv
      exact opened?_blank hd (hw c (hsuffix.subset List.mem_cons_self)).1 _
    · exact (hw '\n' (List.dropLast_subset _ hmem)).2 rfl
    · rw [opened?, if_neg (by rw [List.isEmpty_iff]; exact hd.ne_nil.1), Text.after?_append]
      rfl
  have hlast : w.getLast? ≠ some '\n' := fun hlast =>
    (hw '\n' (List.mem_of_getLast? hlast)).2 rfl
  have htile := Tile.text hne hsegment
  rw [if_neg hlast] at htile
  exact htile

end Scan

/-- A partial tag: the name it has, what stands inside of it behind the sigil,
and the white space in front of it. -/
structure Insertion where
  name : String
  inside : String
  indent : String

namespace Insertion

/-- The template that is this tag. -/
def written (d : Delimiters) (x : Insertion) : String :=
  x.indent ++ (d.opening ++ ">" ++ x.inside ++ d.closing)

/-- The tag ends behind its inside and not before, the pragmas in effect have its
name for it, and what stands in front is white space on one line. -/
structure Fits (d : Delimiters) (set : PragmaSet) (x : Insertion) : Prop where
  ends : Text.cutAt? d.closing.toList (x.inside.toList ++ d.closing.toList) =
    some (x.inside.toList, [])
  named : Tree.nameOf? set .partialTag x.inside.toList = some x.name
  padding : IsPadding x.indent

instance (d : Delimiters) (set : PragmaSet) (x : Insertion) : Decidable (x.Fits d set) :=
  decidable_of_iff
    (Text.cutAt? d.closing.toList (x.inside.toList ++ d.closing.toList) =
        some (x.inside.toList, []) ∧
      Tree.nameOf? set .partialTag x.inside.toList = some x.name ∧
      IsPadding x.indent)
    ⟨fun ⟨h₁, h₂, h₃⟩ => ⟨h₁, h₂, h₃⟩, fun h => ⟨h.ends, h.named, h.padding⟩⟩

/-- The first one of a chain of templates: each inserts the next one, and a text
is the last one. -/
def source (d : Delimiters) (text : String) : List Insertion → String
  | [] => text
  | x :: _ => x.written d

/-- The texts of all of them. -/
def sources (d : Delimiters) (text : String) (xs : List Insertion) : List String :=
  xs.map (written d) ++ [text]

/-- Every template but the first is found under the name that the one before it
inserts. -/
def Linked (finds : String → String → Prop) (d : Delimiters) (text : String) :
    List Insertion → Prop
  | [] => True
  | x :: xs => finds x.name (source d text xs) ∧ Linked finds d text xs

/-- **The indent that a chain adds up**: the white space of the tags behind the
last one that has none. -/
def carried (xs : List Insertion) : String :=
  String.join ((xs.map (·.indent)).rtakeWhile (· ≠ ""))

/-- What the instruction of the tag has for its indent. -/
def captured (x : Insertion) : Option String := if x.indent = "" then none else some x.indent

/-- The white space as a token, if there is any. -/
def lead (x : Insertion) : List Token := if x.indent = "" then [] else [.ofText x.indent 0]

/-- The token of the tag. -/
def token (d : Delimiters) (x : Insertion) (offset : Nat) : Token :=
  Scan.tagToken ⟨0, 0, d⟩ .partialTag (Text.trim x.inside.toList) offset

theorem source_mem_sources (d : Delimiters) (text : String) (xs : List Insertion) :
    source d text xs ∈ sources d text xs := by
  cases xs <;> exact List.mem_cons_self

variable {d : Delimiters} {x : Insertion}

/-- **Running the tags one inside the other adds up** what they carry. -/
theorem foldl_partialIndent (xs : List Insertion) :
    xs.foldl (fun indent x => Render.partialIndent indent x.captured) "" = carried xs := by
  induction xs using List.reverseRecOn with
  | nil => rfl
  | append_singleton xs x ih =>
    rw [List.foldl_concat, ih, carried, carried, List.map_append, List.map_singleton]
    by_cases hempty : x.indent = ""
    · rw [List.rtakeWhile_concat_neg _ _ _ (by simpa using hempty), captured, if_pos hempty]
      rfl
    · rw [List.rtakeWhile_concat_pos _ _ _ (by simpa using hempty), captured, if_neg hempty,
        String.join_append, String.join_cons, String.join_nil, String.append_empty]
      rfl

/-! ### Scanning and parsing -/

/-- **Such a template is scanned** to its white space and its tag. -/
theorem Fits.exists_scan {set : PragmaSet} (hx : x.Fits d set) (hd : d.Accepted) :
    ∃ place, Token.scan d (x.written d) = .ok (x.lead ++ [x.token d place]) := by
  let tag := (⟨0, 0, d⟩ : Scan.Cursor).tag ['>'] x.inside.toList d.closing.toList
  have hwritten : (x.written d).toList = x.indent.toList ++ tag := by
    simp [written, tag, Scan.Cursor.tag, Scan.Cursor.opening]
  have htile (offset : Nat) : ∃ place stop,
      Scan.Tiles ⟨offset, 0, d⟩ [tag] [] [x.token d place] stop :=
    ⟨_, _, .cons (.named rfl (.sigil rfl) ⟨by decide, by decide, by decide⟩
      (Text.cutAt?_eq_some_iff.1 hx.ends).2) (.nil _ _)⟩
  have hplain (place : Nat) : (x.token d place).kind ≠ .pragma := TokenKind.noConfusion
  unfold lead
  by_cases hempty : x.indent = ""
  · obtain ⟨place, stop, htiles⟩ := htile 0
    have hreads := htiles.reads hd
    rw [List.flatten_singleton, List.append_nil] at hreads
    rw [hempty, String.toList_empty, List.nil_append] at hwritten
    rw [if_pos hempty]
    exact ⟨place, (hwritten ▸ hreads).scan_eq (List.forall_mem_singleton.2 (hplain place))⟩
  · have hne : x.indent.toList ≠ [] := fun hnil => hempty (String.toList_eq_nil_iff.1 hnil)
    obtain ⟨place, stop, htiles⟩ := htile (Text.byteLength x.indent.toList)
    have hpiece : Scan.Tile ⟨0, 0, d⟩ x.indent.toList (List.flatten [tag] ++ [])
        (.ofText x.indent 0) ⟨Text.byteLength x.indent.toList, 0, d⟩ := by
      have htext := @Scan.tile_padding _ hx.padding ⟨0, 0, d⟩ hd hne
        ('>' :: (x.inside.toList ++ d.closing.toList))
      rw [String.ofList_toList] at htext
      simpa [Scan.Cursor.past, tag, Scan.Cursor.tag] using htext
    have hreads := (Scan.Tiles.cons hpiece htiles).reads hd
    rw [List.flatten_cons, List.flatten_singleton, List.append_nil] at hreads
    rw [if_neg hempty]
    refine ⟨place, (hwritten ▸ hreads).scan_eq ?_⟩
    exact List.forall_mem_cons.2
      ⟨TokenKind.noConfusion, List.forall_mem_singleton.2 (hplain place)⟩

/-- **Its tree is the tag**, with the white space for its indent. -/
theorem Fits.exists_ofTokens {pragmas : List Pragma} (hx : x.Fits d (.ofPragmas pragmas))
    (place : Nat) :
    ∃ tree node, Tree.ofTokens pragmas (x.lead ++ [x.token d place]) = .ok tree ∧
      tree.nodes = [node] ∧ node.kind = .partialTag ∧ node.name = x.name ∧ node.dynamic = false ∧
      node.indent?.filter (· ≠ "") = x.captured := by
  obtain ⟨t, hread, hkind, hname, hdynamic, hindent⟩ : ∃ t,
      Tree.readName (.ofPragmas pragmas) (x.token d place) = .ok t ∧ t.kind = .partialTag ∧
        t.name = x.name ∧ t.dynamic = false ∧ t.indent? = none := by
    obtain ⟨t, hread, hkind, hname, hdynamic, -⟩ := Tree.exists_readName hx.named place
    exact ⟨_, Tree.readName_delimiters hread (some d), hkind, hname, hdynamic,
      congrArg Token.indent? (Tree.sameButName_readName hread).eq⟩
  have hstep {s r : Tree.State} (hcount : s.countLine 0 = r)
      (hpragmas : r.pragmas = .ofPragmas pragmas) :
      Tree.step s (x.token d place) [] = Tree.place r t [] := by
    rw [Tree.step]
    rw [show (x.token d place).line = 0 from rfl, hcount, hpragmas, hread]
    rfl
  unfold lead captured
  -- only white space that is there is taken away and kept as the indent
  by_cases hempty : x.indent = ""
  · rw [if_pos hempty, if_pos hempty]
    have hbuild : Tree.build ⟨none, 0, .ofPragmas pragmas, [], []⟩ [x.token d place] =
        .ok ⟨some 0, 0, .ofPragmas pragmas, [t], []⟩ := by
      have hplace : Tree.place ⟨some 0, 0, .ofPragmas pragmas, [], []⟩ t [] =
          .ok (⟨some 0, 0, .ofPragmas pragmas, [t], []⟩, false) :=
        Tree.Placing.place_eq (.addPartial hkind rfl)
      rw [Tree.build, hstep (r := ⟨some 0, 0, .ofPragmas pragmas, [], []⟩) rfl rfl, hplace]
      exact Tree.build.eq_1 _
    refine ⟨⟨[t], .ofPragmas pragmas⟩, t, Tree.ofTokens_eq_ok_iff.2 ⟨_, hbuild, rfl, rfl⟩, rfl,
      hkind, hname, hdynamic, ?_⟩
    rw [hindent]
    rfl
  · rw [if_neg hempty, if_neg hempty]
    let lead := Token.ofText x.indent 0
    have hblank : lead.isBlank = true :=
      List.all_eq_true.2 fun c hc => (hx.padding c hc).1
    let node := { t with kind := .partialTag, indent? := some x.indent }
    have hbuild : Tree.build ⟨none, 0, .ofPragmas pragmas, [], []⟩ [lead, x.token d place] =
        .ok ⟨some 0, 1, .ofPragmas pragmas, [node], []⟩ := by
      have hclear : Tree.clear ⟨some 0, 1, .ofPragmas pragmas, [lead], []⟩ [] =
          ⟨⟨some 0, 1, .ofPragmas pragmas, [], []⟩, false, some lead⟩ := by
        rw [Tree.clear_eq_clearOn]
        exact if_pos hblank
      have hplace : Tree.place ⟨some 0, 1, .ofPragmas pragmas, [lead], []⟩ t [] =
          .ok (⟨some 0, 1, .ofPragmas pragmas, [node], []⟩, false) := by
        have hplacing : Tree.Placing ⟨some 0, 1, .ofPragmas pragmas, [lead], []⟩ t [] _ _ :=
          .addPartial hkind rfl
        rw [hclear, Tree.indented, hkind] at hplacing
        exact hplacing.place_eq
      rw [Tree.build_of_step (Tree.isAdded_piece ⟨x.indent, 0, rfl⟩ _ _ rfl), Tree.build,
        hstep (r := ⟨some 0, 1, .ofPragmas pragmas, [lead], []⟩) rfl rfl, hplace]
      exact Tree.build.eq_1 _
    refine ⟨⟨[node], .ofPragmas pragmas⟩, node, Tree.ofTokens_eq_ok_iff.2 ⟨_, hbuild, rfl, rfl⟩,
      rfl, rfl, hname, hdynamic, ?_⟩
    exact Option.filter_some_pos (decide_eq_true hempty)

end Insertion

/-! ## Text on lines -/

namespace Text

/-- The first piece of a text without tags is its first line. -/
theorem lines_chunk {opening cs : List Char} (h : Scan.Unopened opening cs []) (hne : cs ≠ []) :
    lines cs = (Scan.chunk opening cs).1 :: lines (Scan.chunk opening cs).2 := by
  induction cs with
  | nil => exact absurd rfl hne
  | cons c r ih =>
    have hclosed := h (c :: r) (List.cons_ne_nil c r) List.suffix_rfl
    rw [List.append_nil] at hclosed
    rw [lines, Scan.chunk, hclosed, Option.isSome_none, if_neg Bool.false_ne_true]
    by_cases hc : c = '\n'
    · rw [if_pos hc, if_pos hc]
    · rw [if_neg hc, if_neg hc]
      by_cases hr : r = []
      · rw [hr]
        rfl
      · rw [ih h.tail hr]

/-- Every line but the last one ends in a newline. -/
theorem ends_of_mem_dropLast_lines {cs l : List Char} (h : l ∈ (lines cs).dropLast) :
    l.getLast? = some '\n' := by
  induction cs generalizing l with
  | nil => cases h
  | cons c r ih =>
    rw [lines] at h
    split at h
    · next hc =>
      cases hr : lines r with
      | nil =>
        rw [hr] at h
        cases h
      | cons l' ls =>
        rw [hr, List.dropLast_cons_of_ne_nil (List.cons_ne_nil _ _)] at h
        rcases List.mem_cons.1 h with rfl | h
        · rw [hc]
          rfl
        · exact ih (hr ▸ h)
    · split at h
      · cases h
      · next l' ls hr =>
        cases ls with
        | nil => cases h
        | cons l'' ls =>
          rw [List.dropLast_cons_of_ne_nil (List.cons_ne_nil _ _)] at h
          rw [hr, List.dropLast_cons_of_ne_nil (List.cons_ne_nil _ _)] at ih
          rcases List.mem_cons.1 h with rfl | h
          · rw [List.getLast?_cons, ih List.mem_cons_self]
            rfl
          · exact ih (List.mem_cons_of_mem _ h)

end Text

/-- **A text without tags is scanned to its lines.** -/
theorem Scan.exists_scan_lines {d : Delimiters} {text : String}
    (h : Text.occursIn d.opening.toList text.toList = false) :
    ∃ ts, Token.scan d text = .ok ts ∧ (∀ t ∈ ts, IsPiece t) ∧
      ts.map (fun t => t.text.toList) = Text.lines text.toList := by
  suffices hall : ∀ (start : Cursor) (cs : List Char), Unopened start.opening cs [] →
      ∃ ts stop, Reads start cs ts stop [] ∧ (∀ t ∈ ts, IsPiece t) ∧
        ts.map (fun t => t.text.toList) = Text.lines cs by
    obtain ⟨ts, stop, hreads, hpieces, hlines⟩ :=
      hall ⟨0, 0, d⟩ text.toList (unopened_of_not_occursIn h)
    exact ⟨ts, hreads.scan_eq fun t ht => kind_ne_pragma (.inl (hpieces t ht)), hpieces, hlines⟩
  intro start cs
  -- a line is read at a time, so that the rest is shorter, but any part of the text
  induction hn : cs.length using Nat.strongRecOn generalizing start cs with
  | _ n ih =>
  intro hclosed
  by_cases hne : cs = []
  · subst hne
    exact ⟨[], start, .nil _ _, nofun, rfl⟩
  · have hhere := hclosed cs hne List.suffix_rfl
    rw [List.append_nil] at hhere
    have hread : readToken start cs = .ok (readText start cs) := by rw [readToken, hhere]
    have hrest : (readText start cs).rest <:+ cs :=
      ⟨_, (textSegment_chunk start.opening cs).1.symm⟩
    have hlt : (readText start cs).rest.length < n := by
      obtain ⟨c, r, rfl⟩ := List.exists_cons_of_ne_nil hne
      exact hn ▸ readText_length hhere
    obtain ⟨ts, stop, hreads, hpieces, hlines⟩ :=
      ih _ hlt (readText start cs).next _ rfl (hclosed.suffix hrest)
    refine ⟨_, stop, .cons hne hread hreads, List.forall_mem_cons.2 ⟨⟨_, _, rfl⟩, hpieces⟩, ?_⟩
    have htoken : (readText start cs).token.text.toList = (chunk start.opening cs).1 :=
      String.toList_ofList
    rw [List.map_cons, htoken, hlines, Text.lines_chunk hclosed hne]
    rfl

namespace Compile

variable {digest : String → String} {source : String} {s s' : State}

/-- **Each piece of a text without tags starts a line.** -/
theorem walked_lines {ts : List Token} {code : List Instr} (hpieces : ∀ t ∈ ts, IsPiece t)
    (hends : ∀ t ∈ ts.dropLast, t.endsLine = true) (hstart : s.startsLine = true)
    (h : Walked digest source s ts code s') : code = ts.map fun t => .text t.text true := by
  induction ts generalizing s code with
  | nil =>
    cases h
    rfl
  | cons t ts ih =>
    obtain ⟨text, line, rfl⟩ := hpieces t List.mem_cons_self
    cases h with
    | @leaf _ _ _ _ own code hcode hrest =>
      cases hcode
      rw [hstart]
      cases ts with
      | nil =>
        cases hrest
        rfl
      | cons u ts =>
        rw [List.dropLast_cons_of_ne_nil (List.cons_ne_nil u ts)] at hends
        obtain ⟨hend, hends⟩ := List.forall_mem_cons.1 hends
        rw [ih (List.forall_mem_cons.1 hpieces).2 hends hend hrest]
        rfl
    | _ => contradiction

end Compile

namespace Engine

variable {e : Engine}

/-- **A partial tag behind white space compiles** to one instruction. -/
theorem exists_compiled_insertion (haccepted : e.HasAccepted) {x : Insertion}
    (hx : x.Fits (e.startingDelimiters none) (.ofPragmas e.pragmas)) :
    ∃ p, e.compiled (x.written (e.startingDelimiters none)) none = .ok p ∧
      p.body = [.insertPartial (.fixed x.name) x.captured] := by
  obtain ⟨place, hscan⟩ := hx.exists_scan (haccepted.startingDelimiters .none)
  obtain ⟨tree, node, htree, hnode, hkind, hname, hdynamic, hindent⟩ := hx.exists_ofTokens place
  obtain ⟨p, hp⟩ := Program.exists_compile hscan htree e.digest e.compileSettings
  refine ⟨p, (compile_of_parsed hscan htree _).trans hp, ?_⟩
  obtain ⟨body, s, hwalked, rfl⟩ := Program.exists_walked hp
  rw [hnode] at hwalked
  have hcode (set : PragmaSet) : Compile.leafCode? set true node =
      some [.insertPartial (.fixed x.name) x.captured] := by
    rw [Compile.leafCode?, hkind]
    dsimp only
    rw [hindent, Compile.templateNameOf, hdynamic, hname]
    rfl
  obtain ⟨rest, hrest, rfl⟩ := hwalked.of_leaf (hcode _)
  cases hrest
  rfl

/-- **A text without tags compiles** to a piece of text for each of its lines. -/
theorem exists_compiled_lines {text : String}
    (h : Text.occursIn (e.startingDelimiters none).opening.toList text.toList = false) :
    ∃ p, e.compiled text none = .ok p ∧
      p.body = (Text.lines text.toList).map fun l => .text (String.ofList l) true := by
  obtain ⟨ts, hscan, hpieces, hlines⟩ := Scan.exists_scan_lines h
  obtain ⟨tree, htree, rfl⟩ : ∃ tree, Tree.ofTokens e.pragmas ts = .ok tree ∧ tree.nodes = ts :=
    Tree.exists_ofTokens_of_added fun t ht => Tree.isAdded_piece (hpieces t ht)
  obtain ⟨p, hp⟩ := Program.exists_compile hscan htree e.digest e.compileSettings
  refine ⟨p, (compile_of_parsed hscan htree _).trans hp, ?_⟩
  obtain ⟨body, s, hwalked, rfl⟩ := Program.exists_walked hp
  have hends (t : Token) (ht : t ∈ tree.nodes.dropLast) : t.endsLine = true := by
    refine decide_eq_true (@Text.ends_of_mem_dropLast_lines text.toList _ ?_)
    rw [← hlines, ← List.map_dropLast]
    exact List.mem_map_of_mem ht
  rw [← hlines, List.map_map]
  exact (Compile.walked_lines hpieces hends rfl hwalked).trans
    (List.map_congr_left fun t _ => by simp)

/-- Each template of a chain compiles. -/
theorem exists_compiled_nested (haccepted : e.HasAccepted) {xs : List Insertion} {text : String}
    (hfits : ∀ x ∈ xs, x.Fits (e.startingDelimiters none) (.ofPragmas e.pragmas))
    (htext : Text.occursIn (e.startingDelimiters none).opening.toList text.toList = false) :
    ∃ p, e.compiled (Insertion.source (e.startingDelimiters none) text xs) none = .ok p := by
  cases xs with
  | nil =>
    obtain ⟨p, hp, -⟩ := exists_compiled_lines htext
    exact ⟨p, hp⟩
  | cons x xs =>
    obtain ⟨p, hp, -⟩ := exists_compiled_insertion haccepted (hfits x List.mem_cons_self)
    exact ⟨p, hp⟩

end Engine

/-! ## Rendering a chain of templates -/

namespace Render

variable {e : Engine} {p : Program} {again : Runner} {s : State} {indent : String}

/-- Pieces of text that start lines are indented, one by one. -/
theorem outcome_lines (ls : List (List Char)) :
    outcome (instrs e again p indent (ls.map fun l => .text (String.ofList l) true)) s =
      (.ok (String.ofList (ls.flatMap (indent.toList ++ ·))), s) := by
  induction ls with
  | nil => rfl
  | cons l ls ih =>
    rw [List.map_cons, instrs, outcome_bind, instr, outcome_pure, andThen_ok, outcome_bind, ih,
      andThen_ok, outcome_pure, List.flatMap_cons, String.ofList_append, String.ofList_append,
      String.ofList_toList]
    rfl

/-- **A partial tag by itself** gives what its template does with the indent that it
hands on. -/
theorem result_insertion {name : String} {captured : Option String} {inner : Program} {s' : State}
    (hasked : outcome (onStore (e.partialProgram name)) s = (.ok (some inner), s')) :
    (outcome (instrs e again p indent [.insertPartial (.fixed name) captured]) s).1 =
      (outcome (whole again inner (partialIndent indent captured)) s').1 := by
  rw [instrs, outcome_bind, instr, outcome_bind, templateName, outcome_pure, andThen_ok,
    outcome_bind, hasked, andThen_ok]
  dsimp only
  rcases outcome (whole again inner (partialIndent indent captured)) s' with ⟨stop | text, s'⟩
  · rfl
  · rw [andThen_ok]
    exact congrArg Except.ok String.append_empty

variable {texts : List String} {I : Store → Prop}
variable (hfree : Set.InjOn e.digest (e.fingerprints texts)) (hcache : e.cache.Internal)
variable (haccepted : e.HasAccepted) (hsteady : e.Steady texts I)

include hfree hcache haccepted hsteady

/-- **The code of a chain of templates** writes the lines of the text at its end,
behind the indent it is run with as each tag hands it on. -/
theorem result_nested {xs : List Insertion} {text : String}
    (hsources : Insertion.sources (e.startingDelimiters none) text xs ⊆ texts)
    (hfits : ∀ x ∈ xs, x.Fits (e.startingDelimiters none) (.ofPragmas e.pragmas))
    (htext : Text.occursIn (e.startingDelimiters none).opening.toList text.toList = false)
    (hlinked : Insertion.Linked (fun name text =>
      ∃ loader ∈ e.partialLoader?, loader.Serves I name text) (e.startingDelimiters none) text xs)
    (hp : e.compiled (Insertion.source (e.startingDelimiters none) text xs) none = .ok p)
    (hs : I s.store) {depth : Nat} (hdepth : xs.length + 1 ≤ depth) (indent : String) :
    (outcome (code e depth p p.body indent) s).1 = .ok (String.ofList (Text.indented
      (xs.foldl (fun indent x => partialIndent indent x.captured) indent).toList
      text.toList)) := by
  induction xs generalizing p s depth indent with
  | nil =>
    obtain ⟨q, hq, hbody⟩ := Engine.exists_compiled_lines htext
    cases hp.symm.trans hq
    obtain ⟨depth, rfl⟩ := Nat.exists_eq_add_of_le' hdepth
    rw [hbody]
    exact congrArg Prod.fst (outcome_lines _)
  | cons x xs ih =>
    obtain ⟨hx, hfits⟩ := List.forall_mem_cons.1 hfits
    obtain ⟨hfound, hlinked⟩ := hlinked
    obtain ⟨q, hq, hbody⟩ := Engine.exists_compiled_insertion haccepted hx
    cases hp.symm.trans hq
    obtain ⟨r, hr⟩ := Engine.exists_compiled_nested haccepted hfits htext
    have hsources : Insertion.sources (e.startingDelimiters none) text xs ⊆ texts :=
      (List.cons_subset.1 hsources).2
    obtain ⟨store, hprogram, hstore⟩ := Engine.exists_partialProgram hfree hcache haccepted
      hsteady (hsources (Insertion.source_mem_sources _ text xs)) hr hfound hs
    have hasked : outcome (onStore (e.partialProgram x.name)) s =
        (.ok (some r), ⟨s.context, store⟩) := by
      rw [outcome_onStore, hprogram]
      rfl
    obtain ⟨depth, rfl⟩ : ∃ d, depth = d + 1 := ⟨depth - 1, by omega⟩
    rw [hbody]
    refine (result_insertion hasked).trans ?_
    exact ih hsources hfits hlinked hr hstore (Nat.le_of_succ_le_succ hdepth) _

end Render

namespace Engine

variable {e : Engine} {I : Store → Prop}

/-- **Nested indents add up.** Each template of a chain is white space on one line
and a partial tag that names the next one, and the last one is a text without
tags. The digests of the templates do not collide. Then rendering the first one
gives the text with white space in front of each of its lines: that of all the
tags behind the last one that has none, in the order of the chain. -/
theorem render_insertions (hcache : e.cache.Internal) (haccepted : e.HasAccepted)
    {xs : List Insertion} {text : String}
    (hfits : ∀ x ∈ xs, x.Fits (e.startingDelimiters none) (.ofPragmas e.pragmas))
    (htext : Text.occursIn (e.startingDelimiters none).opening.toList text.toList = false)
    (hfree : Set.InjOn e.digest
      (e.fingerprints (Insertion.sources (e.startingDelimiters none) text xs)))
    (hsteady : e.Steady (Insertion.sources (e.startingDelimiters none) text xs) I) {name : String}
    (hname : e.loader.Serves I name (Insertion.source (e.startingDelimiters none) text xs))
    (hlinked : Insertion.Linked (fun name text =>
      ∃ loader ∈ e.partialLoader?, loader.Serves I name text) (e.startingDelimiters none) text xs)
    {s : Store} (hs : I s) {depth : Nat} (hdepth : xs.length + 1 ≤ depth) (data : Value) :
    (outcome (e.render depth name data) s).1 =
      .ok (String.ofList (Text.indented (Insertion.carried xs).toList text.toList)) := by
  obtain ⟨p, hp⟩ := exists_compiled_nested haccepted hfits htext
  obtain ⟨store, htemplate, hstore⟩ := exists_template hfree hcache haccepted hsteady
    (Insertion.source_mem_sources _ text xs) hp hname hs
  rw [result_render htemplate, Render.result_nested hfree hcache haccepted hsteady
    (List.Subset.refl _) hfits htext hlinked hp hstore hdepth "", Insertion.foldl_partialIndent]

/-- Four tags one inside the other, the second one without white space. -/
def stairs : List Insertion :=
  [⟨"second", "second", "    "⟩, ⟨"third", " third ", ""⟩, ⟨"fourth", "fourth", "\t"⟩,
    ⟨"last", " last", "  "⟩]

/-- An engine with brackets for its delimiters that has the five templates. -/
def stairsEngine : Engine :=
  { standard .inert Sha256.ofText 0 with
    delimiters := some ⟨"[", "]"⟩
    loader := .fixed
      [("first", "    [>second]"), ("second", "[> third ]"), ("third", "\t[>fourth]"),
        ("fourth", "  [> last]"), ("last", "x\n\n\x7b\x7by\x7d\x7d\n")] }

/-- The white space of the first tag is dropped, and an empty line has some. -/
theorem render_insertions_of_stairs :
    let store := Store.ofFiles (.empty "" [])
    let text := "x\n\n\x7b\x7by\x7d\x7d\n"
    let sources := Insertion.sources (stairsEngine.startingDelimiters none) text stairs
    (∀ x ∈ stairs, x.Fits (stairsEngine.startingDelimiters none)
        (.ofPragmas stairsEngine.pragmas)) ∧
      Set.InjOn stairsEngine.digest (stairsEngine.fingerprints sources) ∧
      Insertion.carried stairs = "\t  " ∧
      String.ofList (Text.indented "\t  ".toList text.toList) =
        "\t  x\n\t  \n\t  \x7b\x7by\x7d\x7d\n" ∧
      (outcome (stairsEngine.render 5 "first" .null) store).1 =
        .ok (String.ofList (Text.indented (Insertion.carried stairs).toList text.toList)) := by
  intro store text sources
  have hfits : ∀ x ∈ stairs, x.Fits (stairsEngine.startingDelimiters none)
      (.ofPragmas stairsEngine.pragmas) := by decide +kernel
  have hfree : Set.InjOn stairsEngine.digest (stairsEngine.fingerprints sources) := by
    refine injOn_fingerprints ?_
    change (sources.map fun text => Sha256.ofText (stairsEngine.textFingerprint text none)).Nodup
    rw [Sha256.ofText_eq_numbers]
    decide +kernel
  have haccepted : stairsEngine.HasAccepted := by
    intro d hd
    obtain rfl := Option.some.inj hd
    exact ⟨"[ ]", by decide +kernel⟩
  have hloads {name text text' : String}
      (h : (outcome (stairsEngine.loader.load name) store).1 = .ok (.text text'))
      (heq : text = text') : stairsEngine.loader.Serves
        (fun s => stairsEngine.RetainsAll sources s ∧ s.tables = store.tables) name text :=
    Loader.InMemory.serves (.fixed _) _ (heq ▸ h)
  have hfirst : stairsEngine.loader.Serves _ "first"
      (Insertion.source (stairsEngine.startingDelimiters none) text stairs) :=
    hloads rfl (by decide +kernel)
  have hlinked : Insertion.Linked (fun name text => ∃ loader ∈ stairsEngine.partialLoader?,
      loader.Serves (fun s => stairsEngine.RetainsAll sources s ∧ s.tables = store.tables) name
        text) (stairsEngine.startingDelimiters none) text stairs :=
    ⟨⟨_, rfl, hloads rfl (by decide +kernel)⟩, ⟨_, rfl, hloads rfl (by decide +kernel)⟩,
      ⟨_, rfl, hloads rfl (by decide +kernel)⟩, ⟨_, rfl, hloads rfl rfl⟩, trivial⟩
  refine ⟨hfits, hfree, by decide +kernel, by decide +kernel, ?_⟩
  exact render_insertions .disabled haccepted hfits (by decide +kernel) hfree
    (stairsEngine.steady_tables sources store.tables) hfirst hlinked
    ⟨retainsAll_ofFiles .disabled _ _, rfl⟩ (Nat.le_refl 5) .null

end Engine

end Mustache
