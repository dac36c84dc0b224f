import Mustache.Proofs.Beside
import Mustache.Proofs.Compiles
import Mustache.Proofs.Flat
import Mustache.Proofs.SectionSpans
/-!
# Mustache — a pragma tag on a line in front of a template

The scanner moves pragma tags to the front of all tokens, on line 0. Where
the tag stands there anyway, on a line of its own before a template, it
has that line to itself: the parser takes the newline away, and goes on as
it does without the line (`Tree.build_pragmaLine`), but for two things.
There is a node in front of everything now (`Tree.opensBlind`), and the
name in the tag is in effect. Of the names in effect only those of known
pragmas are looked at, by the parser and by the compiler
(`Tree.build_withPragmas`, `Compile.Walked.agrees`).

So the line leaves the code of the template as it is where the same known
pragmas are in effect without it (`Engine.exists_compile_pragmaLine`).
-/

namespace Mustache

/-- The sets have the same known pragmas, whatever else is in them. -/
def PragmaSet.Agrees (set set' : PragmaSet) : Prop := set'.has = set.has

theorem PragmaSet.Agrees.enable {set set' : PragmaSet} (h : set.Agrees set') (name : String) :
    (set.enable name).Agrees (set'.enable name) := by
  funext p
  rw [Bool.eq_iff_iff, has_enable, has_enable, h]

/-- A name that is no known pragma's changes nothing. -/
theorem PragmaSet.agrees_enable_of_unknown {name : String} (h : Pragma.ofName? name = none)
    (set : PragmaSet) : set.Agrees (set.enable name) := by
  funext p
  have hother : p.name ≠ name := by
    rintro rfl
    rw [Pragma.ofName?_name] at h
    cases h
  rw [Bool.eq_iff_iff, has_enable, or_iff_right hother]

/-! ## Parsing with one set or another -/

namespace Tree

theorem readName_agrees {set set' : PragmaSet} (h : set.Agrees set') (t : Token) :
    readName set' t = readName set t := by
  unfold readName
  rw [h]

/-- The state with other pragmas in effect. -/
def State.withPragmas (s : State) (set : PragmaSet) : State := { s with pragmas := set }

/-- What a step leads to, with other pragmas in effect. -/
def Placed.withPragmas (placed : Placed) (set : PragmaSet) : Placed :=
  placed.map fun next => (next.1.withPragmas set, next.2)

section Steps

variable {s : State} {set : PragmaSet} {t : Token}

theorem countLine_withPragmas (line : Nat) :
    (s.withPragmas set).countLine line = (s.countLine line).withPragmas set := by
  unfold State.countLine State.withPragmas
  split <;> rfl

theorem clear_withPragmas (rest : List Token) :
    clear (s.withPragmas set) rest =
      { clear s rest with state := (clear s rest).state.withPragmas set } := by
  have hon (follow : Option Bool) : clearOn (s.withPragmas set) follow =
      { clearOn s follow with state := (clearOn s follow).state.withPragmas set } := by
    obtain ⟨line?, position, pragmas, siblings, opened⟩ := s
    cases follow with
    | none => rfl
    | some drops =>
      rcases position with _ | _ | position
      · rfl
      · cases siblings with
        | nil => rfl
        | cons lead before =>
          cases hblank : lead.isBlank <;> simp [clearOn, State.withPragmas, hblank]
      · rfl
  rw [clear_eq_clearOn, clear_eq_clearOn]
  exact hon _

/-- **A token is placed alike** where the sets agree. -/
theorem place_withPragmas (h : s.pragmas.Agrees set) (hplain : t.kind ≠ .pragma)
    (rest : List Token) :
    place (s.withPragmas set) t rest = (place s t rest).withPragmas set := by
  have houtside : checkOutsideParent (s.withPragmas set) t = checkOutsideParent s t := rfl
  have hblocks : (s.withPragmas set).pragmas.has .blocks = s.pragmas.has .blocks :=
    congrFun h .blocks
  have hclose : close (s.withPragmas set) t rest = (close s t rest).withPragmas set := by
    have hopened : (s.withPragmas set).opened = s.opened := rfl
    unfold close
    rw [clear_withPragmas, hopened]
    split
    · rfl
    · split <;> rfl
  unfold place
  rw [clear_withPragmas, houtside, hblocks, hclose]
  cases hkind : t.kind
  case pragma => exact absurd hkind hplain
  case blockVar =>
    dsimp only
    split
    · rfl
    · rfl
  case delimiterTag | sectionTag | invertedTag | partialTag | parentTag =>
    cases checkOutsideParent s t <;> rfl
  all_goals rfl

theorem step_withPragmas (h : s.pragmas.Agrees set) (hplain : t.kind ≠ .pragma)
    (rest : List Token) : step (s.withPragmas set) t rest = (step s t rest).withPragmas set := by
  unfold step
  dsimp only
  rw [countLine_withPragmas]
  have hagrees : (s.countLine t.line).pragmas.Agrees set := by rwa [countLine_pragmas]
  have hread : readName ((s.countLine t.line).withPragmas set).pragmas t =
      readName (s.countLine t.line).pragmas t := readName_agrees hagrees t
  rw [hread]
  cases hname : readName (s.countLine t.line).pragmas t with
  | error e => rfl
  | ok u =>
    have hkind := (sameButName_readName hname).kind
    exact place_withPragmas hagrees (hkind ▸ hplain) rest

/-- **Templates without pragma tags are parsed alike** where the sets agree. -/
theorem build_withPragmas {ts : List Token} (hplain : ∀ t ∈ ts, t.kind ≠ .pragma)
    (h : s.pragmas.Agrees set) :
    build (s.withPragmas set) ts = (build s ts).map (State.withPragmas · set) := by
  induction s, ts using build.induct with
  | case1 s =>
    rw [build, build]
    rfl
  | case2 s t rest s' drops hstep ih =>
    obtain ⟨ht, hplain⟩ := List.forall_mem_cons.1 hplain
    have hkept : s'.pragmas = s.pragmas := Nesting.take_of_plain ht (take_of_step hstep)
    have hagrees : s'.pragmas.Agrees set := by rwa [hkept]
    rw [build, build, step_withPragmas h ht, hstep]
    exact ih (fun u hu => hplain u (mem_of_mem_after hu)) hagrees
  | case3 s t rest e hstep =>
    rw [build, build, step_withPragmas h (hplain t List.mem_cons_self), hstep]
    rfl

end Steps

end Tree

/-! ## Compiling with one set or another -/

namespace Compile

variable {digest : String → String} {source : String} {set set' : PragmaSet}

theorem lookupOf_agrees (h : set.Agrees set') (id : String) :
    lookupOf set' id = lookupOf set id := by
  unfold lookupOf
  rw [h]

theorem filtersOf_agrees (h : set.Agrees set') (names : List String) :
    filtersOf set' names = filtersOf set names :=
  List.map_congr_left fun name _ => congrArg _ (lookupOf_agrees h name)

theorem templateNameOf_agrees (h : set.Agrees set') (t : Token) :
    templateNameOf set' t = templateNameOf set t := by
  unfold templateNameOf
  rw [lookupOf_agrees h]

theorem leafCode?_agrees (h : set.Agrees set') (starts : Bool) (t : Token) :
    leafCode? set' starts t = leafCode? set starts t := by
  unfold leafCode?
  rw [lookupOf_agrees h, filtersOf_agrees h, templateNameOf_agrees h]

/-- The state with other pragmas in effect. -/
def State.withPragmas (s : State) (set : PragmaSet) : State := { s with pragmas := set }

mutual

/-- **Nodes are walked alike** where the sets agree: they give the same code, and
the same is filed. -/
theorem Walked.agrees : ∀ {s s' : State} {ts : List Token} {code : List Instr} {set : PragmaSet},
    Walked digest source s ts code s' → s.pragmas.Agrees set →
      ∃ set', Walked digest source (s.withPragmas set) ts code (s'.withPragmas set') ∧
        s'.pragmas.Agrees set'
  | _, _, _, _, set, .nil, h => ⟨set, .nil, h⟩
  | _, _, _, _, _, .pragma hkind hmore, h => by
    obtain ⟨set', hmore, h⟩ := hmore.agrees (h.enable _)
    exact ⟨set', .pragma hkind hmore, h⟩
  | _, _, _, _, _, .leaf hcode hmore, h => by
    obtain ⟨set', hmore, h'⟩ := hmore.agrees h
    exact ⟨set', .leaf ((leafCode?_agrees h _ _).trans hcode) hmore, h'⟩
  | s, _, _, _, set, .newSection hkind hnew hbody hmore, h => by
    obtain ⟨set₁, hbody, h₁⟩ := hbody.agrees h
    obtain ⟨set', hmore, h'⟩ := hmore.agrees h₁
    refine ⟨set', ?_, h'⟩
    rw [← lookupOf_agrees h₁, ← filtersOf_agrees h₁]
    exact .newSection (s := s.withPragmas set) hkind hnew hbody hmore
  | s, _, _, _, set, .knownSection hkind hknown hmore, h => by
    obtain ⟨set', hmore, h'⟩ := hmore.agrees h
    refine ⟨set', ?_, h'⟩
    rw [← lookupOf_agrees h, ← filtersOf_agrees h]
    exact .knownSection (s := s.withPragmas set) hkind hknown hmore
  | _, _, _, _, _, .inverted hkind hbody hmore, h => by
    obtain ⟨set₁, hbody, h₁⟩ := hbody.agrees h
    obtain ⟨set', hmore, h'⟩ := hmore.agrees h₁
    refine ⟨set', ?_, h'⟩
    rw [← lookupOf_agrees h, ← filtersOf_agrees h]
    exact .inverted hkind hbody hmore
  | _, _, _, _, _, .extend hkind hos hmore, h => by
    obtain ⟨set₁, hos, h₁⟩ := hos.agrees h
    obtain ⟨set', hmore, h'⟩ := hmore.agrees h₁
    refine ⟨set', ?_, h'⟩
    rw [← templateNameOf_agrees h₁]
    exact .extend hkind hos hmore
  | _, _, _, _, _, .block hkind hbody hmore, h => by
    obtain ⟨set₁, hbody, h₁⟩ := hbody.agrees h
    obtain ⟨set', hmore, h'⟩ := hmore.agrees h₁
    exact ⟨set', .block hkind hbody hmore, h'⟩

theorem WalkedOverrides.agrees :
    ∀ {s s' : State} {ts : List Token} {os : List (String × String)} {set : PragmaSet},
      WalkedOverrides digest source s ts os s' → s.pragmas.Agrees set →
        ∃ set', WalkedOverrides digest source (s.withPragmas set) ts os (s'.withPragmas set') ∧
          s'.pragmas.Agrees set'
  | _, _, _, _, set, .nil, h => ⟨set, .nil, h⟩
  | _, _, _, _, _, .skip hkind hmore, h => by
    obtain ⟨set', hmore, h'⟩ := hmore.agrees h
    exact ⟨set', .skip hkind hmore, h'⟩
  | _, _, _, _, _, .override hkind hbody hmore, h => by
    obtain ⟨set₁, hbody, h₁⟩ := hbody.agrees h
    obtain ⟨set', hmore, h'⟩ := hmore.agrees h₁
    exact ⟨set', .override hkind hbody hmore, h'⟩

end

end Compile

/-! ## Scanning the line -/

/-- A line that holds nothing but a pragma tag. -/
def Delimiters.pragmaLine (d : Delimiters) (inside : String) : String :=
  d.opening ++ "%" ++ inside ++ d.closing ++ "\n"

/-- The token of a pragma tag. -/
def Token.ofPragma (inside : String) : Token := .ofTag .pragma (trimmed inside) 0

namespace Scan

open Text (byteLength byteLength_append byteLength_cons)

/-- A pragma in front of other tokens stays there. -/
theorem hoistPragmas_cons {t : Token} {ts : List Token} (ht : t.kind = .pragma)
    (hts : ∀ u ∈ ts, u.kind ≠ .pragma) : hoistPragmas (t :: ts) = t :: ts := by
  have hnone : ts.filter (fun u => u.kind = .pragma) = [] := by
    simpa [List.filter_eq_nil_iff] using hts
  have hall : ts.filter (fun u => u.kind ≠ .pragma) = ts := by
    simpa [List.filter_eq_self] using hts
  rw [hoistPragmas, List.filter_cons_of_pos (by simpa using ht),
    List.filter_cons_of_neg (by simpa using ht), hnone, hall]
  rfl

theorem plain_behind {bytes : Nat} {ts us : List Token}
    (h : List.Forall₂ (Token.Behind bytes) ts us) (hts : ∀ t ∈ ts, t.kind ≠ .pragma) :
    ∀ u ∈ us, u.kind ≠ .pragma := by
  induction h with
  | nil => exact nofun
  | cons htoken _ ih =>
    obtain ⟨ht, hts⟩ := List.forall_mem_cons.1 hts
    exact List.forall_mem_cons.2 ⟨htoken.moved.kind ▸ ht, ih hts⟩

variable {d : Delimiters} (hd : d.Accepted) {inside : String}
variable (hends : Text.cutAt? d.closing.toList (inside.toList ++ d.closing.toList) =
  some (inside.toList, []))

include hd hends

/-- The line is read as its tag and the newline, and the delimiters stay. -/
theorem reads_pragmaLine (cs : List Char) :
    Reads ⟨0, 0, d⟩ ((d.pragmaLine inside).toList ++ cs) [.ofPragma inside, .ofText "\n" 0]
      ⟨byteLength (d.pragmaLine inside).toList, 1, d⟩ cs := by
  let tag := (⟨0, 0, d⟩ : Cursor).tag ['%'] inside.toList d.closing.toList
  have hline : (d.pragmaLine inside).toList = [tag, ['\n']].flatten := by
    simp [Delimiters.pragmaLine, tag, Cursor.tag, Cursor.opening]
  have htag : Tile ⟨0, 0, d⟩ tag (List.flatten [['\n']] ++ cs) (.ofPragma inside)
      (Cursor.past ⟨0, 0, d⟩ tag) :=
    .pragma rfl (.sigil rfl) (Text.cutAt?_eq_some_iff.1 hends).2
  have hnewline : TextSegment d.opening.toList ['\n'] cs := by
    refine ⟨fun v hv hsuffix => ?_, List.not_mem_nil, .inl rfl⟩
    obtain ⟨c, v, rfl⟩ := List.exists_cons_of_ne_nil hv
    have hc : c = '\n' := List.mem_singleton.1 (hsuffix.subset List.mem_cons_self)
    exact opened?_blank hd (by rw [hc]; decide) _
  obtain ⟨offset, htiles⟩ : ∃ offset, Tiles ⟨0, 0, d⟩ [tag, ['\n']] cs
      [.ofPragma inside, .ofText "\n" 0] ⟨offset, 1, d⟩ :=
    ⟨_, .cons htag (.cons (.text (List.cons_ne_nil _ _) hnewline) (.nil _ _))⟩
  have hoffset : offset = _ := htiles.offset_eq
  rw [← hline, Nat.zero_add] at hoffset
  subst hoffset
  have hreads := htiles.reads hd
  rwa [← hline] at hreads

/-- **A template without pragma tags, behind the line**: after the tag and
the newline its own tokens follow. -/
theorem scan_pragmaLine {source : String}
    (hplain : ∀ ts, Token.scan d source = .ok ts → ∀ t ∈ ts, t.kind ≠ .pragma) :
    (∃ err err', Token.scan d source = .error err ∧
      Token.scan d (d.pragmaLine inside ++ source) = .error err') ∨
    ∃ ts us, Token.scan d source = .ok ts ∧
      Token.scan d (d.pragmaLine inside ++ source) =
        .ok (.ofPragma inside :: .ofText "\n" 0 :: us) ∧
      List.Forall₂ (Token.Behind (byteLength (d.pragmaLine inside).toList)) ts us := by
  have hwhole : (d.pragmaLine inside ++ source).toList =
      (d.pragmaLine inside).toList ++ source.toList := String.toList_append
  have hway := (reads_pragmaLine hd hends source.toList).tokensFrom_eq
  rw [← hwhole] at hway
  generalize byteLength (d.pragmaLine inside).toList = bytes at hway ⊢
  cases hraw : tokensFrom ⟨0, 0, d⟩ source.toList with
  | error err =>
    -- what is read behind the line is read by itself, too
    have hfails : ∃ err', tokensFrom ⟨bytes, 1, d⟩ source.toList = .error err' := by
      cases hraw' : tokensFrom ⟨bytes, 1, d⟩ source.toList with
      | error err' => exact ⟨err', rfl⟩
      | ok us =>
        obtain ⟨stop, hreads⟩ := tokensFrom_eq_ok_iff.1 hraw'
        obtain ⟨segment, hsource, hspan⟩ := hreads.exists_span hd
        rw [List.append_nil] at hsource
        obtain ⟨ts, stop', hreads', -, -⟩ := hspan.again ⟨0, 0, d⟩ rfl
        rw [← hsource] at hreads'
        rw [tokensFrom_eq_ok_iff.2 ⟨stop', hreads'⟩] at hraw
        cases hraw
    obtain ⟨err', herr'⟩ := hfails
    refine .inl ⟨err, err', ?_, ?_⟩
    · rw [Token.scan, hraw]
      rfl
    · rw [Token.scan, hway, herr']
      rfl
  | ok ts =>
    have hscan : Token.scan d source = .ok (hoistPragmas ts) := by
      rw [Token.scan, hraw]
      rfl
    have hnone : ∀ t ∈ ts, t.kind ≠ .pragma := by
      intro t ht hkind
      exact hplain _ hscan t (by simp [hoistPragmas, ht, hkind]) hkind
    obtain ⟨stop, hreads⟩ := tokensFrom_eq_ok_iff.1 hraw
    have hstart : Cursor.Behind bytes ⟨0, 0, d⟩ ⟨bytes, 1, d⟩ := ⟨rfl, rfl, rfl⟩
    obtain ⟨us, stop', hreads', hbehind⟩ := hreads.behind hnone hd hstart
    refine .inr ⟨ts, us, ?_, ?_, hbehind⟩
    · rw [hscan, hoistPragmas_eq_self hnone]
    · have hothers : ∀ u ∈ Token.ofText "\n" 0 :: us, u.kind ≠ .pragma :=
        List.forall_mem_cons.2 ⟨TokenKind.noConfusion, plain_behind hbehind hnone⟩
      rw [Token.scan, hway, tokensFrom_eq_ok_iff.2 ⟨stop', hreads'⟩]
      exact congrArg Except.ok (hoistPragmas_cons rfl hothers)

end Scan

/-! ## Parsing behind the line -/

namespace Tree

open Compile (placeless placelessAll)

section Line

variable {pragmas pragmas' : List Pragma} {inside : String} {t : Token}
variable (hread : readName (.ofPragmas pragmas') (.ofPragma inside) = .ok t)

include hread

/-- The tag puts its pragma in effect and takes the newline away. -/
theorem build_pragmaLine (us : List Token) :
    build ⟨none, 0, .ofPragmas pragmas', [], []⟩ (.ofPragma inside :: .ofText "\n" 0 :: us) =
      build ⟨some 0, 0, (PragmaSet.ofPragmas pragmas').enable t.name, [t], []⟩ us := by
  let counted : State := ⟨some 0, 0, .ofPragmas pragmas', [], []⟩
  have hsame := sameButName_readName hread
  have hkind : t.kind = .pragma := hsame.kind
  have hnewline : (Token.ofText "\n" 0).isBlank = true ∧ (Token.ofText "\n" 0).endsLine = true := by
    decide
  have hfollow : follow? (some 0) (.ofText "\n" 0 :: us) = some true := by
    rw [follow?, hnewline.1, hnewline.2, Bool.or_true]
    rfl
  have hclear : clear counted (.ofText "\n" 0 :: us) = ⟨counted, true, none⟩ := by
    rw [clear_eq_clearOn]
    change clearOn counted (follow? (some 0) _) = _
    rw [hfollow]
    rfl
  have hstep : step ⟨none, 0, .ofPragmas pragmas', [], []⟩ (.ofPragma inside)
      (.ofText "\n" 0 :: us) =
      .ok (⟨some 0, 0, (PragmaSet.ofPragmas pragmas').enable t.name, [t], []⟩, true) := by
    unfold step
    change readName (PragmaSet.ofPragmas pragmas') (.ofPragma inside) >>= _ = _
    rw [hread]
    have hplacing : Placing counted t (.ofText "\n" 0 :: us) _ _ := .addPragma hkind
    rw [hclear] at hplacing
    exact hplacing.place_eq
  rw [build, hstep]
  rfl

/-- The check comes to the tag, and then goes on as after the pragma of an
engine. -/
theorem takeAll_pragmaLine (us : List Token) :
    Nesting.takeAll ⟨.ofPragmas pragmas', []⟩ (.ofPragma inside :: .ofText "\n" 0 :: us) =
      Nesting.takeAll ⟨(PragmaSet.ofPragmas pragmas').enable t.name, []⟩ us := by
  have hkind : t.kind = .pragma := (sameButName_readName hread).kind
  have htake : Nesting.take ⟨.ofPragmas pragmas', []⟩ (.ofPragma inside) =
      .ok ⟨(PragmaSet.ofPragmas pragmas').enable t.name, []⟩ := by
    rw [Nesting.take, hread]
    change Nesting.place _ t = _
    rw [Nesting.place, hkind]
  rw [Nesting.takeAll_cons, htake]
  change Nesting.takeAll _ (Token.ofText "\n" 0 :: us) = _
  rw [Nesting.takeAll_cons, Nesting.take_text _ rfl rfl]
  rfl

variable (hagrees : (PragmaSet.ofPragmas pragmas).Agrees
  ((PragmaSet.ofPragmas pragmas').enable t.name))

include hagrees

/-- **Behind the line a template parses if it does without.** -/
theorem exists_ofTokens_pragmaLine_iff {bytes : Nat} {ts us : List Token}
    (hbehind : List.Forall₂ (Token.Behind bytes) ts us) (hts : ∀ t ∈ ts, t.Fresh)
    (hus : ∀ u ∈ .ofPragma inside :: .ofText "\n" 0 :: us, u.Fresh) :
    (∃ tree, ofTokens pragmas' (.ofPragma inside :: .ofText "\n" 0 :: us) = .ok tree) ↔
      ∃ tree, ofTokens pragmas ts = .ok tree := by
  have hmoved : List.Forall₂ Token.Moved ts us := hbehind.imp fun _ _ h => h.moved
  have hmoved' : List.Forall₂ Token.Moved us ts := hmoved.flip.imp fun _ _ h =>
    Token.Moved.symm h
  constructor
  · rintro ⟨tree, htree⟩
    have htake := (exists_ofTokens_iff hus).1 ⟨tree, htree, rfl⟩
    rw [takeAll_pragmaLine hread] at htake
    have halike : (⟨(PragmaSet.ofPragmas pragmas').enable t.name, []⟩ : Nesting).Alike
        ⟨.ofPragmas pragmas, []⟩ := ⟨fun p _ => congrFun hagrees p, .nil⟩
    obtain ⟨⟨set, tags⟩, htake', -, htags⟩ := Nesting.takeAll_moved halike hmoved' htake
    cases htags
    obtain ⟨tree', htree', -⟩ := (exists_ofTokens_iff hts).2 htake'
    exact ⟨tree', htree'⟩
  · rintro ⟨tree, htree⟩
    have htake := (exists_ofTokens_iff hts).1 ⟨tree, htree, rfl⟩
    have halike : (⟨.ofPragmas pragmas, []⟩ : Nesting).Alike
        ⟨(PragmaSet.ofPragmas pragmas').enable t.name, []⟩ :=
      ⟨fun p _ => (congrFun hagrees p).symm, .nil⟩
    obtain ⟨⟨set, tags⟩, htake', -, htags⟩ := Nesting.takeAll_moved halike hmoved htake
    cases htags
    rw [← takeAll_pragmaLine hread] at htake'
    obtain ⟨tree', htree', -⟩ := (exists_ofTokens_iff hus).2 htake'
    exact ⟨tree', htree'⟩

/-- **Behind the line the nodes are the same**, after that of the tag, if the
template does not open blind. -/
theorem exists_nodes_pragmaLine {source source' : String} {bytes : Nat} {ts us : List Token}
    (hcut : ∀ start stop, Text.slice? (bytes + start) (bytes + stop) source'.toList =
      Text.slice? start stop source.toList)
    (hbehind : List.Forall₂ (Token.Behind bytes) ts us) (hlines : OnLines 0 ts)
    (hplain : ∀ t ∈ ts, t.kind ≠ .pragma)
    (hsighted : opensBlind ((PragmaSet.ofPragmas pragmas).has .blocks) true ts = false)
    {tree : Tree} (htree : ofTokens pragmas ts = .ok tree) :
    ∃ nodes set, ofTokens pragmas' (.ofPragma inside :: .ofText "\n" 0 :: us) =
        .ok ⟨t :: nodes, set⟩ ∧
      placelessAll source tree.nodes = placelessAll source' nodes := by
  obtain ⟨s, hbuild, hopened, rfl⟩ := ofTokens_eq_ok_iff.1 htree
  have hroot : t.isBlank = false := by
    rw [Token.isBlank, (sameButName_readName hread).kind]
    rfl
  have hstart : Sighted ((PragmaSet.ofPragmas pragmas).has .blocks) 0
      ⟨none, 0, .ofPragmas pragmas, [], []⟩ ts :=
    ⟨hlines, List.forall_mem_nil _, fun _ _ => hsighted, by simp⟩
  -- after the line there is a node in front of everything
  have hfirst : Beside source source' bytes t ⟨none, 0, .ofPragmas pragmas, [], []⟩
      ⟨some 0, 0, .ofPragmas pragmas, [t], []⟩ := by
    have hnodes : Upon source source' bytes t [] [] ([] ++ [t]) [] := .outside rfl
    exact ⟨fun _ => by simp, rfl, rfl, hnodes⟩
  obtain ⟨s', hbuild', hbeside⟩ :=
    exists_build_beside hcut hroot hbehind hplain hfirst hstart hbuild
  have hbuilt : build ⟨some 0, 0, (PragmaSet.ofPragmas pragmas').enable t.name, [t], []⟩ us =
      .ok (s'.withPragmas ((PragmaSet.ofPragmas pragmas').enable t.name)) := by
    have hset := build_withPragmas (s := ⟨some 0, 0, .ofPragmas pragmas, [t], []⟩)
      (Scan.plain_behind hbehind hplain) hagrees
    rw [hbuild'] at hset
    exact hset
  rw [← build_pragmaLine hread] at hbuilt
  obtain ⟨line?, position, set, siblings, opened⟩ := s
  obtain ⟨line?', position', set', siblings', opened'⟩ := s'
  obtain rfl : opened = [] := hopened
  have hnodes := hbeside.nodes
  cases hnodes with
  | @outside _ l' hsame =>
    refine ⟨l'.reverse, (PragmaSet.ofPragmas pragmas').enable t.name,
      ofTokens_eq_ok_iff.2 ⟨_, hbuilt, rfl, ?_⟩, ?_⟩
    · change _ = (⟨(l' ++ [t]).reverse, _⟩ : Tree)
      rw [List.reverse_append]
      rfl
    · rw [placelessAll_eq_map, placelessAll_eq_map, List.map_reverse, List.map_reverse, hsame]

end Line

end Tree

/-! ## Compiling behind the line -/

/-- **The code of a template behind the line** is its own code. -/
theorem Program.compile_pragmaLine {digest : String → String} {settings : CompileSettings}
    {pragmas pragmas' : List Pragma} {t : Token} (hkind : t.kind = .pragma)
    (hagrees : (PragmaSet.ofPragmas pragmas).Agrees
      ((PragmaSet.ofPragmas pragmas').enable t.name))
    {name name' source source' : String} {nodes nodes' : List Token} {q r : Program}
    (h : compile digest pragmas settings name source nodes = .ok q)
    (h' : compile digest pragmas' settings name' source' (t :: nodes') = .ok r)
    (hsame : Compile.placelessAll source nodes = Compile.placelessAll source' nodes') :
    r = { q with name := name' } := by
  obtain ⟨body, s, hwalked, rfl⟩ := exists_walked h
  obtain ⟨body', s', hwalked', rfl⟩ := exists_walked h'
  obtain ⟨set, hagreed, -⟩ := hwalked.agrees hagrees
  cases hwalked' with
  | pragma _ hrest =>
    obtain ⟨rfl, rfl⟩ := hagreed.unique hrest hsame
    rfl
  | leaf hcode _ =>
    rw [Compile.leafCode?, hkind] at hcode
    cases hcode
  | newSection h | knownSection h | inverted h | extend h | block h => cases hkind.symm.trans h

namespace Engine

variable (e : Engine) {pragmas pragmas' : List Pragma} {asked : Option Delimiters}
variable {inside : String} {t : Token}

/-- **A line of a pragma tag in front of a template.** With the pragma of the
tag in effect by other means, the template compiles without the line if it
does with it, and to the same code unless it opens blind. -/
theorem exists_compile_pragmaLine (hd : (e.startingDelimiters asked).Accepted)
    (hends : Text.cutAt? (e.startingDelimiters asked).closing.toList
      (inside.toList ++ (e.startingDelimiters asked).closing.toList) = some (inside.toList, []))
    (hread : Tree.readName (.ofPragmas pragmas') (.ofPragma inside) = .ok t)
    (hagrees : (PragmaSet.ofPragmas pragmas).Agrees
      ((PragmaSet.ofPragmas pragmas').enable t.name))
    (name name' : String) {source : String}
    (hplain : ∀ ts, Token.scan (e.startingDelimiters asked) source = .ok ts →
      ∀ t ∈ ts, t.kind ≠ .pragma) :
    let line := (e.startingDelimiters asked).pragmaLine inside
    (∃ err err', compile { e with pragmas := pragmas } name source asked = .error err ∧
      compile { e with pragmas := pragmas' } name' (line ++ source) asked = .error err') ∨
    ∃ ts q r, Token.scan (e.startingDelimiters asked) source = .ok ts ∧
      compile { e with pragmas := pragmas } name source asked = .ok q ∧
      compile { e with pragmas := pragmas' } name' (line ++ source) asked = .ok r ∧
      (Tree.opensBlind ((PragmaSet.ofPragmas pragmas).has .blocks) true ts = false →
        r = { q with name := name' }) := by
  intro line
  let own : Engine := { e with pragmas := pragmas }
  let bare : Engine := { e with pragmas := pragmas' }
  rcases Scan.scan_pragmaLine hd hends hplain with ⟨err, err', hscan, hscan'⟩ |
    ⟨ts, us, hscan, hscan', hbehind⟩
  · exact .inl ⟨err, err', compile_of_scan_error (e := own) hscan name,
      compile_of_scan_error (e := bare) hscan' name'⟩
  have hlines := onLines_scan hscan (hplain ts hscan)
  have hparses := Tree.exists_ofTokens_pragmaLine_iff hread hagrees hbehind
    (Scan.fresh_scan hscan) (Scan.fresh_scan hscan')
  -- the pragma is in effect in both, so that both trees are built or neither is
  cases hparse : Tree.ofTokens pragmas ts with
  | error err =>
    obtain ⟨err', hparse'⟩ : ∃ err',
        Tree.ofTokens pragmas' (.ofPragma inside :: .ofText "\n" 0 :: us) = .error err' := by
      cases hparse' : Tree.ofTokens pragmas' (.ofPragma inside :: .ofText "\n" 0 :: us) with
      | error err' => exact ⟨err', rfl⟩
      | ok tree =>
        obtain ⟨tree', htree'⟩ := hparses.1 ⟨tree, hparse'⟩
        rw [hparse] at htree'
        cases htree'
    exact .inl ⟨err, err', compile_of_parse_error (e := own) hscan hparse name,
      compile_of_parse_error (e := bare) hscan' hparse' name'⟩
  | ok tree =>
    obtain ⟨tree', hparse'⟩ := hparses.2 ⟨tree, hparse⟩
    obtain ⟨q, hq⟩ : ∃ q, Program.compile e.digest pragmas e.compileSettings name source
        tree.nodes = .ok q := Program.exists_compile hscan hparse _ _
    obtain ⟨r, hr⟩ : ∃ r, Program.compile e.digest pragmas' e.compileSettings name'
        (line ++ source) tree'.nodes = .ok r := Program.exists_compile hscan' hparse' _ _
    refine .inr ⟨ts, q, r, hscan, (compile_of_parsed (e := own) hscan hparse name).trans hq,
      (compile_of_parsed (e := bare) hscan' hparse' name').trans hr, fun hsighted => ?_⟩
    have hcut (start stop : Nat) :
        Text.slice? (Text.byteLength line.toList + start) (Text.byteLength line.toList + stop)
          (line ++ source).toList = Text.slice? start stop source.toList := by
      rw [String.toList_append, Text.slice?_behind]
    obtain ⟨nodes, set, hparse'', hsame⟩ := Tree.exists_nodes_pragmaLine hread hagrees hcut
      hbehind hlines (hplain ts hscan) hsighted hparse
    rw [hparse'] at hparse''
    cases hparse''
    exact Program.compile_pragmaLine (Tree.sameButName_readName hread).kind hagrees hq hr hsame

end Engine

end Mustache
