import Mustache.Proofs.SectionKeys
import Mustache.Proofs.Shifted
/-!
# Mustache — code behind white space

The compiler flags the first text or variable of a line, as this is where an
indent is written. Of two trees, one behind white space, the second has that white
space where the code of the first has a flag (`Compile.shifted_walked`), in the
code on file as well: sections share a key in the one template exactly if they do
in the other (`Compile.oneToOne_keysOf`), so both walks file the same sections.

A section that is on file is not walked again, so that the walk goes on as if it
left the line as it is. Repeated sections must do so (`KeepsLines`).
-/

namespace Mustache

/-- **Code, and the same behind white space where lines begin**: where the one has
a flag the other has the white space, in its texts or as texts of its own. The
flag of the relation says that the white space is there already. Keys of sections
are related besides. -/
inductive Instr.Shifted (w : String) (K : String → String → Prop) :
    (laid : Bool) → List Instr → List Instr → Prop
  | nil : Instr.Shifted w K false [] []
  | margin {starts' : Bool} {code code' : List Instr} :
      Instr.Shifted w K true code code' →
      Instr.Shifted w K false code (.text w starts' :: code')
  | text {laid starts starts' : Bool} {value value' : String} {code code' : List Instr} :
      (laid = true → starts = true) → value' = (if starts && !laid then w else "") ++ value →
      Instr.Shifted w K false code code' →
      Instr.Shifted w K laid (.text value starts :: code) (.text value' starts' :: code')
  | interpolate {laid starts' escape : Bool} {lookup : Lookup} {filters : List Filter}
      {code code' : List Instr} :
      Instr.Shifted w K false code code' →
      Instr.Shifted w K laid (.interpolate lookup filters escape laid :: code)
        (.interpolate lookup filters escape starts' :: code')
  | enter {key key' : String} {lookup : Lookup} {filters : List Filter}
      {code code' : List Instr} :
      K key key' → Instr.Shifted w K false code code' →
      Instr.Shifted w K false (.enter lookup filters key :: code)
        (.enter lookup filters key' :: code')
  | inverted {lookup : Lookup} {filters : List Filter} {body body' code code' : List Instr} :
      Instr.Shifted w K false body body' → Instr.Shifted w K false code code' →
      Instr.Shifted w K false (.inverted lookup filters body :: code)
        (.inverted lookup filters body' :: code')

/-- Under related keys there is related code, or none. -/
def FiledShifted (w : String) (K : String → String → Prop)
    (sections sections' : Entries SectionBody) : Prop :=
  ∀ key key', K key key' →
    Option.Rel (fun s s' => Instr.Shifted w K false s.body s'.body) (Entries.get? sections key)
      (Entries.get? sections' key')

/-- Keys are related one to one. -/
def OneToOne (K : String → String → Prop) : Prop :=
  ∀ key key' other other', K key key' → K other other' → (key = other ↔ key' = other')

section Filing

variable {w key key' : String} {K : String → String → Prop}
variable {sections sections' : Entries SectionBody} {s s' : SectionBody}

theorem FiledShifted.has_eq (h : FiledShifted w K sections sections') (hkeys : K key key') :
    Entries.has sections' key' = Entries.has sections key := by
  have hfiled := h key key' hkeys
  unfold Entries.has
  generalize Entries.get? sections key = found at hfiled
  generalize Entries.get? sections' key' = found' at hfiled
  cases hfiled <;> rfl

/-- Related code is filed under related keys. -/
theorem FiledShifted.insert (h : FiledShifted w K sections sections') (hK : OneToOne K)
    (hkeys : K key key') (hbody : Instr.Shifted w K false s.body s'.body) :
    FiledShifted w K (Entries.insert sections key s) (Entries.insert sections' key' s') := by
  intro other other' hothers
  by_cases heq : other = key
  · have heq' := (hK _ _ _ _ hothers hkeys).1 heq
    rw [heq, heq', Entries.get?_insert_self, Entries.get?_insert_self]
    exact .some hbody
  · have heq' := mt (hK _ _ _ _ hothers hkeys).2 heq
    rw [Entries.get?_insert_of_ne s heq, Entries.get?_insert_of_ne s' heq']
    exact h other other' hothers

end Filing

open Mustache.Tree (Margin)

/-- **Sections of two trees**, the second one with white space where the lines of
the first one begin. -/
structure Tree.IndentedIn (w : List Char) (source source' : String) (tree tree' : Tree)
    (t t' : Token) : Prop where
  indented : IndentedSection w source source' t t'
  first : tree.HasSection t
  second : tree'.HasSection t'

/-- Such sections have the same delimiters. -/
theorem Tree.IndentedSection.delimiters_eq {w : List Char} {source source' : String}
    {t t' : Token} (h : IndentedSection w source source' t t') :
    t'.delimiters? = t.delimiters? := by
  obtain ⟨_, _, _, _, _, h⟩ := h
  exact h.delimiters'

namespace Compile

/-- Keys of sections that are related. -/
def KeysOf (digest : String → String) (source source' : String) (S : Token → Token → Prop)
    (key key' : String) : Prop :=
  ∃ t t', S t t' ∧ key = sectionKey digest source t ∧ key' = sectionKey digest source' t'

/-- **Sections have one key where those with the white space have one**, if keys
tell the sections of both trees apart. -/
theorem oneToOne_keysOf {digest : String → String} {w : List Char} {source source' : String}
    {tree tree' : Tree} (hkeyed : tree.Keyed digest source)
    (hkeyed' : tree'.Keyed digest source') :
    OneToOne (KeysOf digest source source' (Tree.IndentedIn w source source' tree tree')) := by
  rintro _ _ _ _ ⟨t, t', h, rfl, rfl⟩ ⟨u, u', hother, rfl, rfl⟩
  rw [hkeyed.sectionKey_eq_iff h.first hother.first,
    hkeyed'.sectionKey_eq_iff h.second hother.second, h.indented.delimiters_eq,
    hother.indented.delimiters_eq]
  exact and_congr_right fun heq => h.indented.source_eq_iff hother.indented heq

/-! ## Where lines start -/

/-- Where a line has only white space behind it, it still starts. -/
def startsAt (m : Margin) : Bool := m ≠ .past

/-- **Repeated sections keep the lines**: whether a line starts is the same
behind a repeated section as before it. -/
def KeepsLines (source : String) (nodes : List Token) : Prop :=
  ∀ before t between u after, visited false nodes = before ++ t :: between ++ u :: after →
    SameSection source t u →
    startsAfter (startsAfter true (before ++ t :: between)) (visited false u.nodes) =
      startsAfter true (before ++ t :: between)

/-- Pairs of places in a list, by their numbers. -/
theorem forall_places_iff {α : Type} {v : List α} {P : List α → α → α → Prop} :
    (∀ before t between u after, v = before ++ t :: between ++ u :: after →
        P (before ++ t :: between) t u) ↔
      ∀ i j : Fin v.length, j < i → P (v.take i) (v.get j) (v.get i) := by
  constructor
  · intro h i j hij
    have hbefore : v.take j ++ v.get j :: (v.take i).drop (j + 1) = v.take i := by
      have hlt : j.val < (v.take i).length := by
        rw [List.length_take]
        omega
      have htake : v.take j = (v.take i).take j := by
        rw [List.take_take, Nat.min_eq_left (Nat.le_of_lt hij)]
      have hget : v.get j = (v.take i)[j.val] := by simp
      rw [htake, hget, List.getElem_cons_drop, List.take_append_drop]
    have hplace : v = v.take i ++ v.get i :: v.drop (i + 1) := by simp
    rw [← hbefore] at hplace
    have hpair := h _ _ _ _ _ hplace
    rwa [hbefore] at hpair
  · rintro h before t between u after rfl
    let v := before ++ t :: between ++ u :: after
    let i : Fin v.length := ⟨(before ++ t :: between).length, by simp [v]⟩
    let j : Fin v.length := ⟨before.length, by simp [v]⟩
    have hpair := h i j (by simp [i, j, Fin.lt_def])
    rwa [show v.take i = before ++ t :: between from List.take_left,
      show v.get j = t by simp [v, j], show v.get i = u by simp [v, i]] at hpair

instance (source : String) (t u : Token) : Decidable (SameSection source t u) :=
  decidable_of_iff
    (t.kind = .sectionTag ∧ u.kind = .sectionTag ∧
      Delimiters.unlessStandard t.delimiters? = Delimiters.unlessStandard u.delimiters? ∧
      sectionSource source t = sectionSource source u)
    ⟨fun ⟨h₁, h₂, h₃, h₄⟩ => ⟨h₁, h₂, h₃, h₄⟩, fun h => ⟨h.kind, h.kind', h.delimiters, h.text⟩⟩

instance (source : String) (nodes : List Token) : Decidable (KeepsLines source nodes) :=
  decidable_of_iff _ (forall_places_iff (P := fun before t u => SameSection source t u →
    startsAfter (startsAfter true before) (visited false u.nodes) = startsAfter true before)).symm

section Flags

variable {w : String} {S : Token → Token → Prop} {m m' : Margin} {t : Token} {ts ts' : List Token}
variable {pragmas : PragmaSet} {starts : Bool}

/-- The code of a variable, and the line behind it. -/
theorem leafCode?_of_variable (h : t.kind ∈ [.escaped, .tripleBrace, .ampersand]) :
    leafCode? pragmas starts t = some [.interpolate (lookupOf pragmas t.name)
        (filtersOf pragmas t.filters) (t.kind = .escaped) starts] ∧
      startsAfterLeaf starts t = false := by
  simp only [List.mem_cons, List.not_mem_nil, or_false] at h
  unfold leafCode? startsAfterLeaf
  rcases h with h | h | h <;> rw [h] <;> exact ⟨rfl, rfl⟩

theorem leafCode?_of_text (h : t.kind = .text) :
    leafCode? pragmas starts t = some [.text t.text starts] ∧
      startsAfterLeaf starts t = t.endsLine := by
  unfold leafCode? startsAfterLeaf
  rw [h]
  exact ⟨rfl, rfl⟩

theorem leafCode?_of_comment (h : t.kind = .comment) :
    leafCode? pragmas starts t = some [] ∧ startsAfterLeaf starts t = starts := by
  unfold leafCode? startsAfterLeaf
  rw [h]
  exact ⟨rfl, rfl⟩

/-- A line that a text ends starts behind it. -/
theorem startsAt_text (t : Token) :
    startsAt (if t.endsLine then .ahead else .past) = t.endsLine := by
  cases t.endsLine <;> rfl

theorem startsAfter_append (starts : Bool) (nodes more : List Token) :
    startsAfter starts (nodes ++ more) = startsAfter (startsAfter starts nodes) more :=
  List.foldl_append

/-- **The place on the line tells whether a line starts.** -/
theorem startsAfter_shifted (h : Tree.Shifted w S m ts ts' m') :
    startsAfter (startsAt m) (visited false ts) = startsAt m' := by
  have hleaf {m mid : Margin} {t : Token} {ts : List Token} {own : List Instr}
      (hcode : leafCode? ⟨[]⟩ (startsAt m) t = some own ∧
        startsAfterLeaf (startsAt m) t = startsAt mid) :
      startsAfter (startsAt m) (visited false (t :: ts)) =
        startsAfter (startsAt mid) (visited false ts) := by
    rw [visited_cons, visitedNode_of_leaf hcode.1, ← hcode.2]
    rfl
  induction h with
  | nil => rw [visited_nil, startsAfter, List.foldl_nil]
  | margin _ ih => exact ih
  | @text m _ t _ _ _ hkind _ _ _ ih =>
    have hcode := @leafCode?_of_text t ⟨[]⟩ (startsAt m) hkind
    rw [← startsAt_text] at hcode
    exact (hleaf hcode).trans ih
  | written hkind _ _ _ ih =>
    refine Eq.trans ?_ ih
    exact hleaf (leafCode?_of_variable hkind)
  | comment hkind _ _ ih => exact (hleaf (leafCode?_of_comment hkind)).trans ih
  | @tag _ _ _ t _ ts _ hkind _ _ _ _ _ _ _ _ ihinside ih =>
    have hencloses : Encloses t := hkind.imp_right .inl
    rw [visited_cons, startsAfter_append, visitedNode_of_encloses hencloses, startsAfter,
      startsAfter, List.foldl_cons, startsAfterLeaf_of_encloses hencloses]
    exact (congrArg (startsAfter · (visited false ts)) ihinside).trans ih

end Flags

/-! ## Both walks -/

/-- **Both walks have come to the same place**: where the line stands there, and
what is on file by then. -/
structure ShiftedAt (digest : String → String) (w : String) (S : Token → Token → Prop)
    (source source' : String) (pragmas : PragmaSet) (m : Margin) (before : List Token)
    (s s' : State) : Prop where
  pragmas_eq : s.pragmas = pragmas
  pragmas_eq' : s'.pragmas = pragmas
  starts : s.startsLine = startsAt m
  flag : startsAfter true before = startsAt m
  files : FiledShifted w (KeysOf digest source source' S) s.sections s'.sections
  keys : ∀ key, Entries.has s.sections key = true → KeyOf digest source before key

section Codes

variable {digest : String → String} {w source source' : String} {S : Token → Token → Prop}
variable {pragmas : PragmaSet} {m mid : Margin} {before more : List Token} {s s' s₁ s₁' : State}
variable {t t' : Token}

/-- The second walk passes the white space. -/
theorem ShiftedAt.margin (h : ShiftedAt digest w S source source' pragmas .ahead before s s')
    (starts' : Bool) :
    ShiftedAt digest w S source source' pragmas .laid before s { s' with startsLine := starts' } :=
  ⟨h.pragmas_eq, h.pragmas_eq', h.starts, h.flag, h.files, h.keys⟩

/-- Both walks pass a node that encloses nothing. -/
theorem ShiftedAt.leaf (h : ShiftedAt digest w S source source' pragmas m before s s')
    (hmid : startsAfterLeaf (startsAt m) t = startsAt mid) (starts' : Bool) :
    ShiftedAt digest w S source source' pragmas mid (before ++ [t])
      { s with startsLine := startsAfterLeaf s.startsLine t }
      { s' with startsLine := starts' } := by
  refine ⟨h.pragmas_eq, h.pragmas_eq', ?_, ?_, h.files, fun key hkey =>
    (h.keys key hkey).mono (List.subset_append_left _ _)⟩
  · rw [← hmid, ← h.starts]
  · rw [startsAfter_append, h.flag]
    exact hmid

/-- Both walks enter a tag. -/
theorem ShiftedAt.enter (h : ShiftedAt digest w S source source' pragmas m before s s')
    (hencloses : Encloses t) :
    ShiftedAt digest w S source source' pragmas m (before ++ [t]) s s' := by
  have hstill := startsAfterLeaf_of_encloses hencloses (startsAt m)
  refine ⟨h.pragmas_eq, h.pragmas_eq', h.starts, ?_, h.files, fun key hkey =>
    (h.keys key hkey).mono (List.subset_append_left _ _)⟩
  rw [startsAfter_append, h.flag]
  exact hstill

/-- Both walks file a section. -/
theorem ShiftedAt.file (h : ShiftedAt digest w S source source' pragmas m before s s')
    (hkeys : OneToOne (KeysOf digest source source' S)) (hsection : S t t')
    (ht : t ∈ before) (hkind : t.kind = .sectionTag) {body body' : List Instr}
    (hbody : Instr.Shifted w (KeysOf digest source source' S) false body
      body') :
    ShiftedAt digest w S source source' pragmas m before
      { s with
        sections :=
          Entries.insert s.sections (sectionKey digest source t) (sectionBody source t body) }
      { s' with
        sections :=
          Entries.insert s'.sections (sectionKey digest source' t')
            (sectionBody source' t' body') } := by
  refine ⟨h.pragmas_eq, h.pragmas_eq', h.starts, h.flag,
    h.files.insert hkeys ⟨t, t', hsection, rfl, rfl⟩ hbody, ?_⟩
  intro key hkey
  rcases Entries.has_insert hkey with rfl | hkey
  · exact ⟨t, ht, hkind, rfl⟩
  · exact h.keys key hkey

/-- Both walks pass what is inside a section on file. -/
theorem ShiftedAt.skip (h : ShiftedAt digest w S source source' pragmas m before s s')
    (hflag : startsAfter (startsAt m) more = startsAt m) :
    ShiftedAt digest w S source source' pragmas m (before ++ more) s s' := by
  refine ⟨h.pragmas_eq, h.pragmas_eq', h.starts, ?_, h.files, fun key hkey =>
    (h.keys key hkey).mono (List.subset_append_left _ _)⟩
  rw [startsAfter_append, h.flag, hflag]

variable {nodes ts ts' : List Token} {code code' : List Instr}

/-- A section on file leaves the line as it finds it. -/
theorem ShiftedAt.kept (h : ShiftedAt digest w S source source' pragmas m before s s')
    (hkeys : KeysTell digest source nodes) (hkeeps : KeepsLines source nodes)
    (hwhole : before ++ [t] ++ more <+: visited false nodes) (hkind : t.kind = .sectionTag)
    (hknown : Entries.has s.sections (sectionKey digest source t) = true) :
    startsAfter (startsAt m) (visited false t.nodes) = startsAt m := by
  obtain ⟨u, hu, hkind', hkey⟩ := h.keys _ hknown
  obtain ⟨earlier, between, rfl⟩ := List.append_of_mem hu
  obtain ⟨after, hwhole⟩ := hwhole
  have hplaces : visited false nodes = earlier ++ u :: between ++ t :: (more ++ after) := by
    rw [← hwhole]
    simp
  have hsame : SameSection source u t := by
    refine hkeys u ?_ t ?_ hkind' hkind hkey.symm <;> rw [hplaces] <;> simp
  have hkept := hkeeps _ _ _ _ _ hplaces hsame
  rwa [h.flag] at hkept

/-- **Code of nodes, and code of the same nodes behind white space**: where the
one has a flag, the other has the white space, and what both walks have filed by
then is related again. -/
theorem shifted_walked (hK : OneToOne (KeysOf digest source source' S))
    (hkeys : KeysTell digest source nodes) (hkeeps : KeepsLines source nodes)
    (hnodes : Tree.Shifted w S m ts ts' mid)
    (hmid : mid ≠ .laid) (h : Walked digest source s ts code s₁)
    (h' : Walked digest source' s' ts' code' s₁')
    (hwhole : before ++ visited false ts <+: visited false nodes)
    (hs : ShiftedAt digest w S source source' pragmas m before s s') :
    Instr.Shifted w (KeysOf digest source source' S) (m = .laid) code code' ∧
      ShiftedAt digest w S source source' pragmas mid (before ++ visited false ts) s₁ s₁' := by
  induction hnodes generalizing before s s' s₁ s₁' code code' with
  | @nil m =>
    cases h
    cases h'
    rw [visited_nil, List.append_nil, decide_eq_false hmid]
    exact ⟨.nil, hs⟩
  | margin _ ih =>
    obtain ⟨rest', hrest', rfl⟩ := h'.of_leaf (leafCode?_of_text rfl).1
    obtain ⟨hcode, hs₁⟩ := ih hmid h hrest' hwhole (hs.margin _)
    exact ⟨.margin hcode, hs₁⟩
  | @text m _ t t' ts _ hkind hkind' htext _ ih =>
    obtain ⟨hown, -⟩ := @leafCode?_of_text t s.pragmas s.startsLine hkind
    obtain ⟨-, hline⟩ := @leafCode?_of_text t pragmas (startsAt m) hkind
    obtain ⟨rest, hrest, rfl⟩ := h.of_leaf hown
    obtain ⟨rest', hrest', rfl⟩ := h'.of_leaf (leafCode?_of_text hkind').1
    rw [append_visited_of_leaf hown] at hwhole ⊢
    obtain ⟨hcode, hs₁⟩ := ih hmid hrest hrest' hwhole
      (hs.leaf (hline.trans (startsAt_text t).symm) _)
    have hrest : (if t.endsLine then Margin.ahead else .past) ≠ .laid := by split <;> nofun
    rw [decide_eq_false hrest] at hcode
    refine ⟨.text ?_ ?_ hcode, hs₁⟩
    · rw [hs.starts]
      intro hm
      rw [of_decide_eq_true hm]
      rfl
    · rw [htext, hs.starts]
      cases m <;> rfl
  | @written m _ t t' ts _ hkind hmoved hm _ ih =>
    obtain ⟨hown, -⟩ := @leafCode?_of_variable t s.pragmas s.startsLine hkind
    obtain ⟨-, hline⟩ := @leafCode?_of_variable t pragmas (startsAt m) hkind
    obtain ⟨hown', -⟩ := @leafCode?_of_variable t' s'.pragmas s'.startsLine (hmoved.kind ▸ hkind)
    have hfilters : t'.filters = t.filters := by
      obtain ⟨_, _, rfl⟩ := hmoved.exists_eq
      rfl
    obtain ⟨rest, hrest, rfl⟩ := h.of_leaf hown
    obtain ⟨rest', hrest', rfl⟩ := h'.of_leaf hown'
    rw [append_visited_of_leaf hown] at hwhole ⊢
    obtain ⟨hcode, hs₁⟩ := ih hmid hrest hrest' hwhole (hs.leaf hline _)
    have hstarts : startsAt m = decide (m = .laid) := by
      cases m with
      | ahead => exact absurd rfl hm
      | laid | past => rfl
    rw [hmoved.kind, hmoved.name, hfilters, hs.pragmas_eq, hs.pragmas_eq', hs.starts, hstarts]
    exact ⟨.interpolate hcode, hs₁⟩
  | @comment m _ t t' ts _ hkind hkind' _ ih =>
    obtain ⟨hown, -⟩ := @leafCode?_of_comment t s.pragmas s.startsLine hkind
    obtain ⟨-, hline⟩ := @leafCode?_of_comment t pragmas (startsAt m) hkind
    obtain ⟨rest, hrest, rfl⟩ := h.of_leaf hown
    obtain ⟨rest', hrest', rfl⟩ := h'.of_leaf (leafCode?_of_comment hkind').1
    rw [append_visited_of_leaf hown] at hwhole ⊢
    exact ih hmid hrest hrest' hwhole (hs.leaf hline _)
  | @tag m mid _ t t' ts _ hkind hkind' hname hfilters hS hm hinside hnodes _ ihinside ih =>
    have hencloses : Encloses t := hkind.imp_right .inl
    have hentered := hs.enter hencloses
    rw [append_visited_of_encloses hencloses] at hwhole ⊢
    have hwithin := (List.prefix_append _ _).trans hwhole
    rw [decide_eq_false hm]
    rcases hkind with hkind | hkind
    · have hkeyed : KeysOf digest source source' S _ _ := ⟨t, t', hS hkind, rfl, rfl⟩
      have hsame := hs.files.has_eq hkeyed
      rcases h.of_section hkind with
        ⟨hnew, body, s₂, rest, hbody, hrest, rfl⟩ | ⟨hknown, rest, hrest, rfl⟩
      · rcases h'.of_section (hkind'.trans hkind) with
          ⟨-, body', s₂', rest', hbody', hrest', rfl⟩ | ⟨hknown, -⟩
        · obtain ⟨hcode, hs₂⟩ := ihinside hinside hbody hbody' hwithin hentered
          rw [decide_eq_false hm] at hcode
          obtain ⟨hmore, hs₁⟩ := ih hmid hrest hrest' hwhole
            (hs₂.file hK (hS hkind) (by simp) hkind hcode)
          rw [decide_eq_false hinside] at hmore
          rw [hs₂.pragmas_eq, hs₂.pragmas_eq', hname, hfilters]
          exact ⟨.enter hkeyed hmore, hs₁⟩
        · rw [hsame, hnew] at hknown
          cases hknown
      · rcases h'.of_section (hkind'.trans hkind) with ⟨hnew, -⟩ | ⟨-, rest', hrest', rfl⟩
        · rw [hsame, hknown] at hnew
          cases hnew
        · -- the nodes inside are skipped, which the line does not notice
          rw [List.append_assoc] at hwhole
          have hflag := hs.kept hkeys hkeeps hwhole hkind hknown
          have hplace : startsAt m = startsAt mid := hflag.symm.trans (startsAfter_shifted hnodes)
          obtain rfl : m = mid := by cases m <;> cases mid <;> first | rfl | contradiction
          rw [← List.append_assoc] at hwhole
          obtain ⟨hmore, hs₁⟩ := ih hmid hrest hrest' hwhole (hentered.skip hflag)
          rw [decide_eq_false hinside] at hmore
          rw [hs.pragmas_eq, hs.pragmas_eq', hname, hfilters]
          exact ⟨.enter hkeyed hmore, hs₁⟩
    · obtain ⟨body, s₂, rest, hbody, hrest, rfl⟩ := h.of_inverted hkind
      obtain ⟨body', s₂', rest', hbody', hrest', rfl⟩ := h'.of_inverted (hkind'.trans hkind)
      obtain ⟨hcode, hs₂⟩ := ihinside hinside hbody hbody' hwithin hentered
      rw [decide_eq_false hm] at hcode
      obtain ⟨hmore, hs₁⟩ := ih hmid hrest hrest' hwhole hs₂
      rw [decide_eq_false hinside] at hmore
      rw [hs.pragmas_eq, hs.pragmas_eq', hname, hfilters]
      exact ⟨.inverted hcode hmore, hs₁⟩

end Codes

end Compile

end Mustache
