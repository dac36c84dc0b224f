import Mustache.Proofs.SectionKeys
/-!
# Mustache — where nodes stand in the text

A node that encloses others says where the text between its tags begins and
where it ends. The scanner notes these offsets by different rules: an
opening tag says where it ends, a closing one where it begins. Pragma tags
are moved and delimiters change on the way, and the parser puts the two
offsets of a node together only when it comes to the closing tag.

What it puts together is right. The text falls into the segments of its
tokens; a node has one of them for its opening tag and one for its closing
tag, and its offsets are the ends of the part in between (`Spread`). Such
parts lie apart or inside each other as the nodes do (`Apart`,
`Grown.spans_apart`). So the compiler finds the text of every section where
it looks for it, and what a procedure gets is the text that stands between
the tags (`Tree.spans_exact`).
-/

namespace Mustache

namespace Token

open Mustache.Tree (composite)

/-! ## The nodes that enclose others -/

mutual

/-- The nodes that enclose others, each before those inside it. -/
def composites : List Token → List Token
  | [] => []
  | t :: ts => compositesOf t ++ composites ts

def compositesOf : Token → List Token
  | t@⟨kind, _, _, _, _, _, _, _, _, _, nodes?⟩ =>
    (if composite kind then [t] else []) ++ compositesInside nodes?

def compositesInside : Option (List Token) → List Token
  | none => []
  | some ts => composites ts

end

theorem compositesOf_eq (t : Token) :
    compositesOf t = (if composite t.kind then [t] else []) ++ composites t.nodes := by
  obtain ⟨_, _, _, _, _, _, _, _, _, _, nodes?⟩ := t
  rw [compositesOf]
  cases nodes? <;> rfl

/-- A node that encloses nothing is not listed. -/
theorem composites_cons_leaf {t : Token} {ts : List Token} (hkind : composite t.kind = false)
    (hnodes : t.nodes? = none) : composites (t :: ts) = composites ts := by
  rw [composites, compositesOf_eq, hkind, nodes, hnodes]
  rfl

theorem composites_cons {t : Token} {ts : List Token} (hkind : composite t.kind = true) :
    composites (t :: ts) = t :: (composites t.nodes ++ composites ts) := by
  rw [composites, compositesOf_eq, if_pos hkind]
  rfl

theorem mem_compositesOf_iff {t u : Token} :
    u ∈ compositesOf t ↔ (u = t ∧ composite u.kind = true) ∨ u ∈ composites t.nodes := by
  rw [compositesOf_eq, List.mem_append]
  refine or_congr_left ?_
  split
  · next hkind =>
    rw [List.mem_singleton]
    exact ⟨fun h => ⟨h, h ▸ hkind⟩, fun h => h.1⟩
  · next hkind =>
    refine ⟨nofun, ?_⟩
    rintro ⟨rfl, hcomposite⟩
    exact absurd hcomposite hkind

mutual

/-- **The list has each of them**, however deep it stands, and no others. -/
theorem mem_composites_iff {u : Token} : ∀ ts : List Token,
    u ∈ composites ts ↔ Within u ts ∧ composite u.kind = true
  | [] => by
    rw [composites]
    exact ⟨nofun, fun h => absurd h.1 Within.not_nil⟩
  | t :: ts => by
    rw [composites, List.mem_append, mem_compositesOf_iff, mem_composites_nodes t,
      mem_composites_iff ts, Within.cons_iff]
    tauto

theorem mem_composites_nodes {u : Token} : ∀ t : Token,
    u ∈ composites t.nodes ↔ Within u t.nodes ∧ composite u.kind = true
  | ⟨_, _, _, _, _, _, _, _, _, _, none⟩ => by
    rw [nodes, Option.getD_none, composites]
    exact ⟨nofun, fun h => absurd h.1 Within.not_nil⟩
  | ⟨_, _, _, _, _, _, _, _, _, _, some ts⟩ => mem_composites_iff ts

end

/-! ## Spans -/

/-- The bytes from one offset to another are what the node encloses. -/
structure Spans (t : Token) (start stop : Nat) : Prop where
  start : t.offset? = some start
  stop : t.stop? = some stop

theorem Spans.unique {t : Token} {a b c d : Nat} (h : t.Spans a b) (h' : t.Spans c d) :
    a = c ∧ b = d :=
  ⟨Option.some.inj (h.start.symm.trans h'.start), Option.some.inj (h.stop.symm.trans h'.stop)⟩

/-- **A node and one after it in the list**: the second one stands inside the
first one, and so does its span, or after it, and so does its span. -/
inductive Apart (t u : Token) : Prop
  | inside {a b c d : Nat} :
      Within u t.nodes → t.Spans a b → u.Spans c d → a < c → c ≤ d → d < b → Apart t u
  | after {a b c d : Nat} :
      ¬ Within u t.nodes → t.Spans a b → u.Spans c d → a ≤ b → b < c → c ≤ d → Apart t u

/-- The node has a span strictly between two offsets. -/
def LiesBetween (t : Token) (start stop : Nat) : Prop :=
  ∃ a b, t.Spans a b ∧ start < a ∧ a ≤ b ∧ b < stop

theorem LiesBetween.mono {t : Token} {a b c d : Nat} (h : t.LiesBetween a b) (hstart : c ≤ a)
    (hstop : b ≤ d) : t.LiesBetween c d := by
  obtain ⟨i, j, hspans, hi, hij, hj⟩ := h
  exact ⟨i, j, hspans, by omega, hij, by omega⟩

/-- What stands inside a node has its span there, what stands after it
behind. -/
theorem pairwise_apart_cons {t : Token} {ts : List Token} {a b c d : Nat}
    (hkind : composite t.kind = true) (ht : t.Spans a b) (hle : a ≤ b) (hlt : b < c)
    (hinside : (composites t.nodes).Pairwise Apart)
    (hlies : ∀ u ∈ composites t.nodes, u.LiesBetween a b)
    (hafter : (composites ts).Pairwise Apart)
    (hlies' : ∀ u ∈ composites ts, u.LiesBetween c d) : (composites (t :: ts)).Pairwise Apart := by
  -- a span cannot lie on both sides
  have hnot {u v : Token} (hv : v ∈ composites ts) (hu : Within v u.nodes)
      (hsub : ∀ w, Within w u.nodes → Within w t.nodes) : False := by
    obtain ⟨i, j, hspans, hi, hij, hj⟩ := hlies' v hv
    have hlisted := (mem_composites_iff t.nodes).2
      ⟨hsub v hu, ((mem_composites_iff ts).1 hv).2⟩
    obtain ⟨i', j', hspans', hi', hij', hj'⟩ := hlies v hlisted
    obtain ⟨rfl, rfl⟩ := hspans.unique hspans'
    omega
  rw [composites_cons hkind, List.pairwise_cons, List.pairwise_append]
  refine ⟨fun u hu => ?_, hinside, hafter, fun u hu v hv => ?_⟩
  · rcases List.mem_append.1 hu with hu | hu
    · obtain ⟨i, j, hspans, hi, hij, hj⟩ := hlies u hu
      exact .inside ((mem_composites_iff _).1 hu).1 ht hspans hi hij hj
    · obtain ⟨i, j, hspans, hi, hij, hj⟩ := hlies' u hu
      exact .after (fun hwithin => hnot hu hwithin fun _ h => h) ht hspans hle (by omega) hij
  · obtain ⟨i, j, hspans, hi, hij, hj⟩ := hlies u hu
    obtain ⟨i', j', hspans', hi', hij', hj'⟩ := hlies' v hv
    have hu := ((mem_composites_iff _).1 hu).1
    exact .after (fun hwithin => hnot hv hwithin fun _ h => h.trans hu) hspans hspans' hij
      (by omega) hij'

end Token

namespace Tree

open Scan (Cursor Tiles Tile)
open Text (byteLength byteLength_append byteLength_pos)
open Token (Apart LiesBetween Spans Within composites compositesOf)

/-! ## Nodes lie apart or inside each other -/

variable {blocks inParent : Bool} {start next stop mid : Cursor} {rest : List Char}
variable {segments : List (List Char)} {ts nodes : List Token} {t : Token}

theorem lt_offset_of_tile {segment : List Char} (h : Tile start segment rest t next)
    (hstart : start.delimiters.Accepted) : start.offset < next.offset := by
  have hpos := byteLength_pos (h.ne_nil hstart.ne_nil.1)
  rw [h.offset_eq]
  omega

theorem le_offset_of_tiles (h : Tiles start segments rest ts stop) :
    start.offset ≤ stop.offset := by
  rw [h.offset_eq]
  exact Nat.le_add_right _ _

/-- **The spans of the nodes that grow out of a row of tokens** lie within the
row, apart or inside each other as the nodes do. Overrides that are leaves
have none, so there must be none among the tokens. -/
theorem Grown.spans_apart (h : Grown blocks inParent ts nodes)
    (hargs : ∀ t ∈ ts, t.kind ≠ .blockArg) (htiles : Tiles start segments rest ts stop)
    (hstart : start.delimiters.Accepted) :
    (composites nodes).Pairwise Apart ∧
      ∀ u ∈ composites nodes, u.LiesBetween start.offset stop.offset := by
  induction h generalizing start segments rest stop with
  | nil => exact ⟨.nil, nofun⟩
  | pass _ _ ih =>
    cases htiles with
    | cons htile htiles =>
      have hbefore := lt_offset_of_tile htile hstart
      obtain ⟨hapart, hlies⟩ :=
        ih (List.forall_mem_cons.1 hargs).2 htiles (htile.accepted hstart)
      exact ⟨hapart, fun u hu => (hlies u hu).mono hbefore.le (Nat.le_refl _)⟩
  | @leaf _ t node _ _ hleaf hnodes _ _ ih =>
    cases htiles with
    | cons htile htiles =>
      obtain ⟨hown, hargs⟩ := List.forall_mem_cons.1 hargs
      have hbefore := lt_offset_of_tile htile hstart
      obtain ⟨hapart, hlies⟩ := ih hargs htiles (htile.accepted hstart)
      have hkind : composite node.kind = false :=
        Bool.eq_false_iff.2 fun hkind => hown (hleaf.eq_blockArg hkind).2
      rw [Token.composites_cons_leaf hkind hnodes]
      exact ⟨hapart, fun u hu => (hlies u hu).mono hbefore.le (Nat.le_refl _)⟩
  | @tag _ first tag last inside children ts nodes hopens _ hcloses _ ihinside ih =>
    obtain ⟨-, hargs⟩ := List.forall_mem_cons.1 hargs
    obtain ⟨hinside, hargs⟩ := List.forall_mem_append.1 hargs
    have htiles : Tiles start segments rest ([] ++ first :: (inside ++ last :: ts)) stop := htiles
    obtain ⟨earlier, opening, between, closing, later, next, mid, rfl, -, hne, hnext, haccepted, -,
      hplace, hplace', hbetween, htiles⟩ := htiles.exists_tags hstart hopens.opens_eq hcloses
    cases htiles with
    | @cons _ after _ _ _ _ _ _ hclose htiles =>
      have hmid := hbetween.accepted haccepted
      -- the offsets, in the order of the text
      have hfirst : start.offset < next.offset := by
        have hpos := byteLength_pos hne
        rw [hnext, byteLength_append]
        omega
      have hwithin := le_offset_of_tiles hbetween
      have hlast := lt_offset_of_tile hclose hmid
      have hrest := le_offset_of_tiles htiles
      obtain ⟨hapart, hlies⟩ := ihinside hinside hbetween haccepted
      obtain ⟨hapart', hlies'⟩ :=
        ih (List.forall_mem_cons.1 hargs).2 htiles (hclose.accepted hmid)
      let node : Token := { tag with stop? := last.offset?, nodes? := some children }
      have hkind : composite node.kind = true := hopens.composite_eq
      have hspans : node.Spans next.offset mid.offset :=
        ⟨hopens.isTag.shape.offset.trans hplace, hplace'⟩
      refine ⟨Token.pairwise_apart_cons hkind hspans hwithin hlast hapart hlies hapart' hlies', ?_⟩
      rw [Token.composites_cons hkind, List.forall_mem_cons, List.forall_mem_append]
      refine ⟨⟨_, _, hspans, hfirst, hwithin, by omega⟩, ?_, ?_⟩
      · exact fun u hu => (hlies u hu).mono hfirst.le (by omega)
      · exact fun u hu => (hlies' u hu).mono (by omega) (Nat.le_refl _)

/-! ## The text between the tags -/

/-- **What a node encloses**, in a text that falls into the segments of its
tokens. One of the segments is the opening tag of the node and one its
closing tag, and the nodes inside grow out of the tokens between the two, so
that these are balanced. The offsets of the node are those of the text in
between. -/
inductive Spread (blocks : Bool) (raw : List Token) (segments : List (List Char)) (u : Token) :
    (start stop : Nat) → (text : List Char) → Prop
  | between {before inside after : List Token} {first last : Token}
      {earlier between later : List (List Char)} {opening closing : List Char} {start stop : Nat} :
      raw = before ++ first :: (inside ++ last :: after) →
      segments = earlier ++ opening :: (between ++ closing :: later) →
      earlier.length = before.length → between.length = inside.length →
      Enclosed blocks first inside last u → Balanced blocks (inside.map (·.kind)) →
      start = byteLength (earlier.flatten ++ opening) →
      stop = start + byteLength between.flatten → u.Spans start stop →
      Spread blocks raw segments u start stop between.flatten

section Spreading

variable {raw : List Token} {u : Token} {delimiters : Delimiters} {source : String}
variable {pragmas : List Pragma} {tree : Tree}

theorem Spread.spans {a b : Nat} {text : List Char} (h : Spread blocks raw segments u a b text) :
    u.Spans a b := by
  cases h
  assumption

/-- The text in between is the part of the whole text from one offset to the
other. -/
theorem Spread.slice_eq {a b : Nat} {text : List Char} (h : Spread blocks raw segments u a b text) :
    a ≤ b ∧ Text.slice? a b segments.flatten = some text := by
  cases h with
  | @between _ _ _ _ _ earlier between later opening closing _ _ _ hsegments _ _ _ _ hstart
      hstop _ =>
    subst hsegments hstart hstop
    have hparts : (earlier ++ opening :: (between ++ closing :: later)).flatten =
        (earlier.flatten ++ opening) ++ (between.flatten ++ (closing :: later).flatten) := by
      simp
    rw [hparts]
    exact ⟨Nat.le_add_right _ _, Text.slice?_append _ _ _⟩

/-- **Every node that encloses others has its text between its tags.** -/
theorem Grown.exists_spread (h : Grown blocks inParent raw nodes)
    (hargs : ∀ t ∈ raw, t.kind ≠ .blockArg) (hd : delimiters.Accepted)
    (htiles : Tiles ⟨0, 0, delimiters⟩ segments rest raw stop) (hu : Within u nodes)
    (hkind : composite u.kind = true) :
    ∃ a b text, Spread blocks raw segments u a b text := by
  obtain ⟨before, first, inside, last, after, rfl, henclosed⟩ :=
    h.exists_enclosed hu hkind fun _ => hargs
  have henclosed' := henclosed
  cases henclosed' with
  | between hopens hcloses hinside =>
    obtain ⟨earlier, opening, between, closing, later, next, mid, rfl, hearlier, -, hnext,
      haccepted, -, hplace, hplace', hbetween, -⟩ :=
      htiles.exists_tags hd hopens.opens_eq hcloses
    refine ⟨next.offset, mid.offset, between.flatten, .between rfl rfl hearlier hbetween.length_eq
      henclosed hinside.balanced ?_ hbetween.offset_eq ⟨?_, hplace'⟩⟩
    · rw [hnext, Nat.zero_add]
    · exact hopens.isTag.shape.offset.trans hplace

/-- The nodes of a tree that enclose others are those that grow out of the
tokens as they stand in the text: the others are pragmas. -/
theorem composites_append_leaves {leaves others : List Token}
    (h : ∀ t ∈ leaves, t.kind = .pragma ∧ t.nodes? = none) :
    composites (leaves ++ others) = composites others := by
  induction leaves with
  | nil => rfl
  | cons t leaves ih =>
    obtain ⟨⟨hkind, hnodes⟩, hleaves⟩ := List.forall_mem_cons.1 h
    rw [List.cons_append, Token.composites_cons_leaf (by rw [hkind]; rfl) hnodes, ih hleaves]

/-- **Where the nodes of a parsed template stand**: its tokens lie on segments
of the text, every node that encloses others has its text between two of
them, and the spans lie apart or inside each other as the nodes do. -/
theorem exists_spread_of_parsed (hd : delimiters.Accepted)
    (hscan : Token.scan delimiters source = .ok ts) (htree : ofTokens pragmas ts = .ok tree) :
    ∃ raw segments stop, ts = Scan.hoistPragmas raw ∧ source.toList = segments.flatten ∧
      Tiles ⟨0, 0, delimiters⟩ segments [] raw stop ∧
      (∀ u, Within u tree.nodes → composite u.kind = true →
        ∃ a b text, Spread (tree.pragmas.has .blocks) raw segments u a b text) ∧
      (composites tree.nodes).Pairwise Apart := by
  obtain ⟨raw, hraw, rfl⟩ := Scan.exists_of_scan hscan
  have hfresh : ∀ t ∈ raw, t.Fresh := Scan.forall_tokensFrom (I := fun _ => True)
    (fun _ _ _ hread _ => ⟨Scan.readToken_fresh hread, trivial⟩) hraw trivial
  have hargs : ∀ t ∈ raw, t.kind ≠ .blockArg := Scan.forall_tokensFrom (I := fun _ => True)
    (fun _ _ _ hread _ => ⟨Scan.readToken_ne_override hread, trivial⟩) hraw trivial
  obtain ⟨leaves, others, hnodes, hleaves, hgrown⟩ := exists_grown_raw htree hfresh
  obtain ⟨stop, hreads⟩ := Scan.tokensFrom_eq_ok_iff.1 hraw
  obtain ⟨segments, hwhole, htiles⟩ := hreads.exists_tiles hd
  rw [List.append_nil] at hwhole
  have hlisted : composites tree.nodes = composites others := by
    rw [hnodes, composites_append_leaves hleaves]
  refine ⟨raw, segments, stop, rfl, hwhole, htiles, fun u hu hkind => ?_, ?_⟩
  · have hmem := (Token.mem_composites_iff tree.nodes).2 ⟨hu, hkind⟩
    rw [hlisted] at hmem
    have hothers := ((Token.mem_composites_iff others).1 hmem).1
    exact hgrown.exists_spread hargs hd htiles hothers hkind
  · rw [hlisted]
    exact (hgrown.spans_apart hargs htiles hd).1

end Spreading

end Tree

/-! ## The text that a procedure gets -/

open Compile (sectionKey sectionSource walkNode)
open Render (Runner filtered lambdaSection)

/-- The text of a section is what stands between its tags. -/
theorem Tree.Spread.source_eq {blocks : Bool} {raw : List Token} {segments : List (List Char)}
    {t : Token} {a b : Nat} {text : List Char} {source : String}
    (h : Spread blocks raw segments t a b text) (hwhole : source.toList = segments.flatten) :
    sectionSource source t = String.ofList text := by
  rw [sectionSource, h.spans.start, h.spans.stop, Option.getD_some, Option.getD_some, hwhole,
    h.slice_eq.2]
  rfl

/-- The code of a section tag runs what is filed under the key of the tag. -/
theorem Compile.exists_enter_of_walkNode {digest : String → String} {source : String} {t : Token}
    {s s' : State} {code : List Instr} (hkind : t.kind = .sectionTag)
    (h : (walkNode digest source t).run s = .ok (code, s')) :
    ∃ lookup filters, code = [.enter lookup filters (sectionKey digest source t)] := by
  have hwalked := walkedNode_of_walkNode t h [] [] s' .nil
  generalize hcode : code ++ [] = all at hwalked
  rw [List.append_nil] at hcode
  subst hcode
  rcases hwalked.of_section hkind with ⟨-, body, s₁, rest, -, hrest, rfl⟩ | ⟨-, rest, hrest, rfl⟩
  · cases hrest
    exact ⟨_, _, rfl⟩
  · cases hrest
    exact ⟨_, _, rfl⟩

/-- **A procedure gets the text**: wherever a program comes to a section with
this key and its value is a procedure, it has the procedure carry out the
section filed under the key, which has this text. -/
def Program.HandsOver (p : Program) (key text : String) : Prop :=
  ∃ s, Entries.get? p.sections key = some s ∧ s.source = text ∧
    ∀ (e : Engine) (again : Runner) (indent : String) (lookup : Lookup) (filters : List Filter)
      (value : Value) (ref : Nat) (r r' : Render.State),
      outcome (filtered e p.strictCallables lookup filters) r = (.ok value, r') →
      value.callable? e.host p.strictCallables = some ref →
      outcome (Render.instr e again p indent (.enter lookup filters key)) r =
        outcome (lambdaSection e again s ref) r'

theorem Program.handsOver_of_get? {p : Program} {key : String} {s : SectionBody}
    (h : Entries.get? p.sections key = some s) : p.HandsOver key s.source := by
  refine ⟨s, h, rfl, fun e again indent lookup filters value ref r r' hvalue hcallable => ?_⟩
  rw [Render.instr_enter, outcome_bind, hvalue, andThen_ok, h]
  dsimp only
  rw [Render.sectionText, hcallable]

namespace Tree

open Token (Apart Within composites)
open Scan (Tiles)

/-- **Spans are exact and do not cross, and sections have their text.** The
text of a template that parses falls into the segments of its tokens. Every
node that encloses others, however deep, has two offsets in order between
which stands exactly the text between its opening tag and its own closing
tag. Of any two such nodes either the spans lie strictly inside each other
and so do the nodes, or the spans lie apart and none of the nodes stands in
the other. So whatever section is filed when the template is compiled has
the text between the tags of a section with its key; and if the digests of
section texts do not collide, the code of every section tag hands over the
text between its own tags. -/
theorem spans_exact {delimiters : Delimiters} (hd : delimiters.Accepted) {source : String}
    {ts : List Token} {pragmas : List Pragma} {tree : Tree}
    (hscan : Token.scan delimiters source = .ok ts) (htree : ofTokens pragmas ts = .ok tree) :
    ∃ raw segments stop, ts = Scan.hoistPragmas raw ∧ source.toList = segments.flatten ∧
      Tiles ⟨0, 0, delimiters⟩ segments [] raw stop ∧
      (∀ u, Within u tree.nodes → composite u.kind = true → ∃ a b text,
        Spread (tree.pragmas.has .blocks) raw segments u a b text ∧ a ≤ b ∧
          Text.slice? a b source.toList = some text) ∧
      (composites tree.nodes).Pairwise Apart ∧
      ∀ {digest : String → String} {defaults : List Pragma} {settings : CompileSettings}
        {name : String} {p : Program},
        Program.compile digest defaults settings name source tree.nodes = .ok p →
        (∀ key s, Entries.get? p.sections key = some s → ∃ t a b text, tree.HasSection t ∧
          key = sectionKey digest source t ∧
          Spread (tree.pragmas.has .blocks) raw segments t a b text ∧
          p.HandsOver key (String.ofList text)) ∧
        (Set.InjOn digest (tree.sectionTexts source) → ∀ t a b text, tree.HasSection t →
          Spread (tree.pragmas.has .blocks) raw segments t a b text →
          ∀ s s' code, (walkNode digest source t).run s = .ok (code, s') →
            ∃ lookup filters key, code = [.enter lookup filters key] ∧
              p.HandsOver key (String.ofList text)) := by
  obtain ⟨raw, segments, stop, hts, hwhole, htiles, hspread, hapart⟩ :=
    exists_spread_of_parsed hd hscan htree
  refine ⟨raw, segments, stop, hts, hwhole, htiles, ?_, hapart, ?_⟩
  · intro u hu hkind
    obtain ⟨a, b, text, hu⟩ := hspread u hu hkind
    obtain ⟨hle, hslice⟩ := hu.slice_eq
    exact ⟨a, b, text, hu, hle, hwhole ▸ hslice⟩
  · intro digest defaults settings name p hcompile
    refine ⟨fun key s hget => ?_, fun hfree t a b text ht hspread s s' code hwalk => ?_⟩
    · obtain ⟨t, hstems⟩ := (Program.stems_of_compile hcompile).2 key s hget
      obtain ⟨a, b, text, ht⟩ := hspread t hstems.tag.within (by rw [hstems.tag.kind]; rfl)
      have hsource : s.source = String.ofList text := by
        rw [hstems.filed, Compile.sectionBody, ht.source_eq hwhole]
      exact ⟨t, a, b, text, hstems.tag, hstems.key, ht, hsource ▸ Program.handsOver_of_get? hget⟩
    · obtain ⟨lookup, filters, hcode⟩ := Compile.exists_enter_of_walkNode ht.kind hwalk
      have hkeyed := Program.keyed_of_parsed hd hscan htree hfree
      obtain ⟨body, hget⟩ := Program.exists_get?_of_section hkeyed hcompile ht
      have hhands := Program.handsOver_of_get? hget
      rw [Compile.sectionBody, hspread.source_eq hwhole] at hhands
      exact ⟨lookup, filters, _, hcode, hhands⟩

/-- A section with a parent and an inverted section inside and another section
in the override, written with delimiters that are set behind a letter of two
bytes. -/
def spreadText : String :=
  "é\x7b\x7b=<% %>=\x7d\x7d<%#a%><%<p%><%$b%><%#d%>x<%/d%><%/b%><%/p%><%^c%><%/c%>\n<%/a%>"

/-- The offsets of its tags. The inverted section encloses nothing. -/
def spreadOffsets : List (TokenKind × Option Nat × Option Nat) :=
  [(.sectionTag, some 19, some 69), (.parentTag, some 25, some 50), (.blockArg, some 31, some 44),
    (.sectionTag, some 37, some 38), (.invertedTag, some 62, some 62)]

/-- What is digested for its sections. -/
def spreadTexts : List String :=
  [Compile.sectionText (some ⟨"<%", "%>"⟩) "<%<p%><%$b%><%#d%>x<%/d%><%/b%><%/p%><%^c%><%/c%>\n",
    Compile.sectionText (some ⟨"<%", "%>"⟩) "x"]

/-- The spans of the template, and its two sections: no digests collide, both
texts are filed, and the code of either tag hands over what is in between. -/
theorem spans_exact_of_spreadText :
    let settings : CompileSettings := ⟨false, true, 0⟩
    ∃ ts tree p, Token.scan .standard spreadText = .ok ts ∧ ofTokens [.blocks] ts = .ok tree ∧
      Program.compile Sha256.ofText [.blocks] settings "" spreadText tree.nodes = .ok p ∧
      (composites tree.nodes).map (fun t => (t.kind, t.offset?, t.stop?)) = spreadOffsets ∧
      (composites tree.nodes).Pairwise Apart ∧
      (∀ u, Within u tree.nodes → composite u.kind = true → ∃ a b text, u.Spans a b ∧
        Text.slice? a b spreadText.toList = some text) ∧
      p.sections.length = 2 ∧
      (∀ key s, Entries.get? p.sections key = some s → ∃ t a b text, tree.HasSection t ∧
        t.Spans a b ∧ Text.slice? a b spreadText.toList = some text ∧
        p.HandsOver key (String.ofList text)) ∧
      Set.InjOn Sha256.ofText (tree.sectionTexts spreadText) ∧
      ∀ t, tree.HasSection t → ∃ a b text s s' lookup filters key, t.Spans a b ∧
        Text.slice? a b spreadText.toList = some text ∧
        (walkNode Sha256.ofText spreadText t).run s = .ok ([.enter lookup filters key], s') ∧
        p.HandsOver key (String.ofList text) := by
  intro settings
  let start : Compile.State := ⟨.ofPragmas [.blocks], [], [], true⟩
  have hparsed : ((Token.scan .standard spreadText).toOption.bind fun ts =>
      (ofTokens [.blocks] ts).toOption.bind fun tree =>
        (Program.compile Sha256.ofText [.blocks] settings "" spreadText tree.nodes).toOption.map
          fun p => decide (
            (composites tree.nodes).map (fun t => (t.kind, t.offset?, t.stop?)) = spreadOffsets ∧
            p.sections.length = 2 ∧ tree.visitedTexts spreadText = spreadTexts ∧
            ∀ t ∈ Compile.visited false tree.nodes, t.kind = .sectionTag →
              ((walkNode Sha256.ofText spreadText t).run start).toOption.isSome)) =
      some true := by
    rw [Sha256.ofText_eq_numbers]
    decide +kernel
  obtain ⟨ts, hscan, hparsed⟩ := exists_of_toOption_bind hparsed
  obtain ⟨tree, htree, hparsed⟩ := exists_of_toOption_bind hparsed
  obtain ⟨p, hcompile, hparsed⟩ := exists_of_toOption_map hparsed
  obtain ⟨hlist, hcount, htexts, hwalks⟩ := of_decide_eq_true hparsed
  have hfree : Set.InjOn Sha256.ofText (tree.sectionTexts spreadText) := by
    refine injOn_sectionTexts hscan htree ?_
    rw [htexts, Sha256.ofText_eq_numbers]
    decide +kernel
  obtain ⟨raw, segments, stop, -, hwhole, -, hspread, hapart, hhands⟩ :=
    spans_exact Delimiters.accepted_standard hscan htree
  obtain ⟨hfiled, htags⟩ := hhands hcompile
  refine ⟨ts, tree, p, hscan, htree, hcompile, hlist, hapart, fun u hu hkind => ?_, hcount,
    fun key s hget => ?_, hfree, fun t ht => ?_⟩
  · obtain ⟨a, b, text, hspread, -, hslice⟩ := hspread u hu hkind
    exact ⟨a, b, text, hspread.spans, hslice⟩
  · obtain ⟨t, a, b, text, ht, -, hspread, hhands⟩ := hfiled key s hget
    exact ⟨t, a, b, text, ht, hspread.spans, hwhole ▸ hspread.slice_eq.2, hhands⟩
  · obtain ⟨a, b, text, hspread, -, hslice⟩ := hspread t ht.within (by rw [ht.kind]; rfl)
    have hvisited := (grown_of_scan hscan htree).mem_visited ht.within ht.kind
    obtain ⟨⟨code, s'⟩, hwalk⟩ := Option.isSome_iff_exists.1 (hwalks t hvisited ht.kind)
    have hwalk := eq_ok_of_toOption hwalk
    obtain ⟨lookup, filters, key, rfl, hhands⟩ :=
      htags hfree t a b text ht hspread start s' code hwalk
    exact ⟨a, b, text, start, s', lookup, filters, key, hspread.spans, hslice, hwalk, hhands⟩

end Tree

end Mustache
