import Mustache.Proofs.Nodes
/-!
# Mustache — pragmas stand first

The scanner puts the pragmas of a template before everything else, so the
parser comes to them while no tag is open. In the tree they stand first
among the outermost nodes, and none stands inside another node
(`pragmas_first`). A compiler that walks the tree has therefore seen all
of them before it comes to the first other node.
-/

namespace Mustache

namespace Token

/-- The node is no pragma. -/
def IsPlain (t : Token) : Prop := t.kind ≠ .pragma

/-- Where a pragma stands, all tokens before it are pragmas. -/
def PragmasFirst (ts : List Token) : Prop :=
  ts.Pairwise fun before after => after.kind = .pragma → before.kind = .pragma

/-- A list with its pragmas first falls apart into pragmas and others. -/
theorem PragmasFirst.exists_append {ts : List Token} (h : PragmasFirst ts) :
    ∃ ps others, ts = ps ++ others ∧ (∀ t ∈ ps, t.kind = .pragma) ∧ ∀ t ∈ others, t.IsPlain := by
  induction ts with
  | nil => exact ⟨[], [], rfl, nofun, nofun⟩
  | cons t ts ih =>
    obtain ⟨hbefore, hrest⟩ := List.pairwise_cons.1 h
    by_cases hkind : t.kind = .pragma
    · obtain ⟨ps, others, heq, hps, hothers⟩ := ih hrest
      refine ⟨t :: ps, others, by rw [heq, List.cons_append], ?_, hothers⟩
      intro u hu
      rcases List.mem_cons.1 hu with rfl | hu
      · exact hkind
      · exact hps u hu
    · refine ⟨[], t :: ts, rfl, nofun, ?_⟩
      intro u hu hpragma
      rcases List.mem_cons.1 hu with rfl | hu
      · exact hkind hpragma
      · exact hkind (hbefore u hu hpragma)

end Token

theorem Scan.pragmasFirst_hoistPragmas (ts : List Token) :
    Token.PragmasFirst (hoistPragmas ts) := by
  refine List.pairwise_append.2 ⟨?_, ?_, ?_⟩
  · refine List.pairwise_of_forall_mem_list fun t ht _ _ _ => ?_
    simpa using (List.mem_filter.1 (List.mem_reverse.1 ht)).2
  · refine List.pairwise_of_forall_mem_list fun _ _ u hu hkind => ?_
    exact absurd hkind (by simpa using (List.mem_filter.1 hu).2)
  · intro t ht _ _ _
    simpa using (List.mem_filter.1 (List.mem_reverse.1 ht)).2

namespace Tree

open Token (Everywhere EverywhereIn IsPlain PragmasFirst Reshaped)

/-- The nodes of a tree under construction, layer by layer: pragmas stand
first in the outermost layer, and nowhere else. -/
def Layered : List Token → List OpenTag → Prop
  | l, [] => PragmasFirst l.reverse ∧ ∀ t ∈ l, EverywhereIn IsPlain t.nodes
  | l, o :: os => (∀ t ∈ l, Everywhere IsPlain t) ∧ o.tag.IsPlain ∧ Layered o.before os

/-- Everything so far is a pragma. -/
def OnlyPragmas (l : List Token) (os : List OpenTag) : Prop :=
  os = [] ∧ ∀ t ∈ l, t.kind = .pragma

theorem Layered.left {l siblings : List Token} {os : List OpenTag} (hl : LeftOf l siblings)
    (h : Layered siblings os) : Layered l os := by
  rcases hl with rfl | ⟨lead, -, rfl⟩
  · exact h
  · cases os with
    | nil =>
      refine ⟨?_, (List.forall_mem_cons.1 h.2).2⟩
      exact h.1.sublist (List.reverse_sublist.2 (List.sublist_cons_self lead l))
    | cons o os => exact ⟨(List.forall_mem_cons.1 h.1).2, h.2⟩

/-- A node is added: a pragma only where everything is one. -/
theorem Layered.cons {l : List Token} {os : List OpenTag} (h : Layered l os) {node : Token}
    (hinside : EverywhereIn IsPlain node.nodes) (hpragma : node.kind = .pragma → OnlyPragmas l os) :
    Layered (node :: l) os := by
  cases os with
  | nil =>
    refine ⟨?_, ?_⟩
    · rw [PragmasFirst, List.reverse_cons]
      refine List.pairwise_append.2 ⟨h.1, List.pairwise_singleton _ node, ?_⟩
      intro t ht u hu hkind
      rw [List.mem_singleton.1 hu] at hkind
      exact (hpragma hkind).2 t (List.mem_reverse.1 ht)
    · intro t ht
      rcases List.mem_cons.1 ht with rfl | ht
      · exact hinside
      · exact h.2 t ht
  | cons o os =>
    refine ⟨?_, h.2⟩
    intro t ht
    rcases List.mem_cons.1 ht with rfl | ht
    · refine Token.everywhere_iff.2 ⟨?_, hinside⟩
      intro hkind
      cases (hpragma hkind).1
    · exact h.1 t ht

/-- **A move keeps the layers**, if it is that of a pragma only where
everything is one. -/
theorem Layered.moves {t : Token} {l l' : List Token} {os os' : List OpenTag}
    (h : Layered l os) (hmoves : Moves t l os l' os') (hnodes : t.nodes? = none)
    (hpragma : t.kind = .pragma → OnlyPragmas l os) : Layered l' os' := by
  cases hmoves with
  | stay => exact h
  | add hshape hsame =>
    refine h.cons ?_ fun hkind => hpragma (hshape.pragma_iff.1 hkind)
    rw [Token.nodes, hsame, hnodes]
    exact trivial
  | enter hshape hkind =>
    refine ⟨fun t ht => ?_, fun htag => hkind (hshape.pragma_iff.1 htag), h⟩
    cases ht
  | close hshape hinside hkind =>
    obtain ⟨hl, htag, hbefore⟩ := h
    refine hbefore.cons ?_ fun hnode => absurd (hshape.pragma_iff.1 hnode) htag
    rw [Token.nodes, hinside]
    exact Token.everywhereIn_iff.2 fun u hu => hl u (List.mem_reverse.1 hu)

theorem OnlyPragmas.moves {t : Token} {l l' : List Token} {os os' : List OpenTag}
    (h : OnlyPragmas l os) (hmoves : Moves t l os l' os') (hkind : t.kind = .pragma) :
    OnlyPragmas l' os' := by
  cases hmoves with
  | stay => exact h
  | add hshape _ =>
    refine ⟨h.1, ?_⟩
    intro u hu
    rcases List.mem_cons.1 hu with rfl | hu
    · exact hshape.pragma_iff.2 hkind
    · exact h.2 u hu
  | enter _ hne => exact absurd hkind hne
  | close _ _ hne => exact absurd hkind hne

/-- As long as a pragma is to come, there is nothing else so far. -/
theorem layered_build {s s' : State} {ts : List Token} (h : build s ts = .ok s')
    (hfirst : PragmasFirst ts) (hnodes : ∀ t ∈ ts, t.nodes? = none)
    (hs : Layered s.siblings s.opened)
    (hcoming : ∀ t ∈ ts, t.kind = .pragma → OnlyPragmas s.siblings s.opened) :
    Layered s'.siblings s'.opened := by
  induction s, ts using build.induct with
  | case1 s =>
    rw [build] at h
    cases h
    exact hs
  | case2 s t rest s₁ drops hstep ih =>
    rw [build, hstep] at h
    obtain ⟨hbefore, hrest⟩ := List.pairwise_cons.1 hfirst
    obtain ⟨l, hl, hmoves⟩ := moves_of_step hstep
    have hleft : Layered l s.opened := hs.left hl
    -- a pragma adds itself to pragmas, and any other token has no pragma after it
    have honly (hkind : t.kind = .pragma) : OnlyPragmas l s.opened := by
      obtain ⟨hopened, hall⟩ := hcoming t List.mem_cons_self hkind
      exact ⟨hopened, hl.forall_mem hall⟩
    have hsub : (if drops = true then rest.tail else rest).Sublist rest := by
      split
      · exact List.tail_sublist rest
      · exact List.Sublist.refl rest
    refine ih h (hrest.sublist hsub) (fun u hu => ?_) ?_ fun u hu hkind => ?_
    · exact hnodes u (List.mem_cons_of_mem t (hsub.subset hu))
    · exact hleft.moves hmoves (hnodes t List.mem_cons_self) honly
    · have ht := hbefore u (hsub.subset hu) hkind
      exact (honly ht).moves hmoves ht
  | case3 s t rest e hstep =>
    rw [build, hstep] at h
    cases h

section Template

variable {delimiters : Delimiters} {pragmas : List Pragma} {source : String} {ts : List Token}
variable {tree : Tree} (hscan : Token.scan delimiters source = .ok ts)
variable (htree : ofTokens pragmas ts = .ok tree)

include hscan htree

/-- The nodes of a template stand in layers. -/
theorem layered_ofTokens :
    PragmasFirst tree.nodes ∧ ∀ t ∈ tree.nodes, EverywhereIn IsPlain t.nodes := by
  obtain ⟨s, hbuild, hopened, rfl⟩ := ofTokens_eq_ok_iff.1 htree
  obtain ⟨raw, -, hraw⟩ := Scan.exists_of_scan hscan
  have hfirst : PragmasFirst ts := by
    rw [hraw]
    exact Scan.pragmasFirst_hoistPragmas raw
  have hlayered := layered_build hbuild hfirst (Scan.nodes_scan hscan)
    ⟨List.Pairwise.nil, nofun⟩ fun _ _ _ => ⟨rfl, nofun⟩
  rw [hopened] at hlayered
  exact ⟨hlayered.1, fun t ht => hlayered.2 t (List.mem_reverse.1 ht)⟩

/-- **Pragmas stand first** in the tree of a template, and nowhere else. -/
theorem pragmas_first :
    ∃ ps others, tree.nodes = ps ++ others ∧ (∀ t ∈ ps, t.kind = .pragma) ∧
      EverywhereIn IsPlain others := by
  obtain ⟨hfirst, hinside⟩ := layered_ofTokens hscan htree
  obtain ⟨ps, others, heq, hps, hothers⟩ := hfirst.exists_append
  refine ⟨ps, others, heq, hps, Token.everywhereIn_iff.2 fun t ht => ?_⟩
  refine Token.everywhere_iff.2 ⟨hothers t ht, hinside t ?_⟩
  rw [heq]
  exact List.mem_append_right ps ht

/-- No pragma stands inside another node. -/
theorem plain_inside {t : Token} (ht : Token.Within t tree.nodes) :
    EverywhereIn IsPlain t.nodes := by
  have hinside := (layered_ofTokens hscan htree).2
  cases ht with
  | here ht => exact hinside t ht
  | inside hu ht => exact (ht.everywhere_of (hinside _ hu)).nodes

end Template

end Tree

end Mustache
