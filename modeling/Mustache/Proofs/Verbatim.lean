import Mustache.Proofs.Flat
/-!
# Mustache — text without tags

A text in which the opening delimiter does not stand is read as pieces of
text only. Whatever pragmas an engine has, it compiles, and to a program
that writes the text as it stands and touches nothing
(`exists_compile_verbatim`).
-/

namespace Mustache

namespace Scan

open Text (after? cutAt? occursIn)

/-- Where a pattern does not occur it does not begin. -/
theorem after?_eq_none_of_suffix {pattern cs v : List Char} (h : occursIn pattern cs = false)
    (hv : v ≠ []) (hsuffix : v <:+ cs) : after? pattern v = none := by
  unfold occursIn at h
  induction cs with
  | nil => exact absurd (List.suffix_nil.1 hsuffix) hv
  | cons c r ih =>
    rw [cutAt?] at h
    cases hafter : after? pattern (c :: r) with
    | some rest =>
      rw [hafter] at h
      cases h
    | none =>
      rw [hafter] at h
      rcases List.suffix_cons_iff.1 hsuffix with rfl | hsuffix
      · exact hafter
      · refine ih ?_ hsuffix
        simpa using h

theorem unopened_of_not_occursIn {opening w : List Char} (h : occursIn opening w = false) :
    Unopened opening w [] := by
  intro v hne hsuffix
  rw [List.append_nil, opened?, after?_eq_none_of_suffix h hne hsuffix]
  split <;> rfl

/-- **A text without tags is scanned to pieces of text.** -/
theorem exists_scan_verbatim {d : Delimiters} {text : String}
    (h : occursIn d.opening.toList text.toList = false) :
    ∃ ts, Token.scan d text = .ok ts ∧ (∀ t ∈ ts, IsPiece t) ∧ textOf ts = text.toList := by
  have hclosed : Unopened (⟨0, 0, d⟩ : Cursor).opening text.toList [] :=
    unopened_of_not_occursIn h
  obtain ⟨ts, stop, hreads, -, hpieces, htext⟩ := exists_reads_text hclosed (.inl rfl)
  rw [List.append_nil] at hreads
  exact ⟨ts, hreads.scan_eq fun t ht => kind_ne_pragma (.inl (hpieces t ht)), hpieces, htext⟩

end Scan

open Scan (IsPiece textOf)

/-- The code of a piece of text writes it. -/
theorem Compile.leafCode?_piece {pragmas : PragmaSet} {t : Token} (ht : IsPiece t)
    (starts : Bool) :
    ∃ i, leafCode? pragmas starts t = some [i] ∧ ∃ indented, i = .text t.text indented := by
  obtain ⟨text, line, rfl⟩ := ht
  exact ⟨_, rfl, starts, rfl⟩

/-- **Code that only writes texts writes them**, one after the other. -/
theorem Render.outcome_texts {e : Engine} {again : Runner} {p : Program} {ts : List Token}
    {code : List Instr}
    (h : List.Forall₂ (fun (t : Token) i => ∃ indented, i = .text t.text indented) ts code)
    (s : State) :
    outcome (instrs e again p "" code) s = (.ok (String.ofList (textOf ts)), s) := by
  induction h with
  | nil => rfl
  | @cons t i ts code hi _ ih =>
    obtain ⟨indented, rfl⟩ := hi
    have hinstr : outcome (instr e again p "" (.text t.text indented)) s = (.ok t.text, s) := by
      cases indented <;> exact congrArg (·, s) (congrArg Except.ok String.empty_append)
    have htext : t.text ++ String.ofList (textOf ts) = String.ofList (textOf (t :: ts)) := by
      rw [textOf, textOf, List.flatMap_cons, String.ofList_append, String.ofList_toList]
    rw [instrs, outcome_bind, hinstr, andThen_ok, outcome_bind, ih, andThen_ok, outcome_pure, htext]

/-- **A text without tags renders to itself.** -/
theorem Engine.exists_compile_verbatim {e : Engine} {text : String} {asked : Option Delimiters}
    (h : Text.occursIn (e.startingDelimiters asked).opening.toList text.toList = false)
    (name : String) :
    ∃ p, e.compile name text asked = .ok p ∧
      ∀ depth s, outcome (Render.code e (depth + 1) p p.body "") s = (.ok text, s) := by
  obtain ⟨ts, hscan, hpieces, htext⟩ := Scan.exists_scan_verbatim h
  obtain ⟨tree, htree, rfl⟩ : ∃ tree, Tree.ofTokens e.pragmas ts = .ok tree ∧ tree.nodes = ts :=
    Tree.exists_ofTokens_of_added fun t ht => Tree.isAdded_piece (hpieces t ht)
  obtain ⟨p, hp⟩ := Program.exists_compile hscan htree e.digest e.compileSettings
  refine ⟨p, (compile_of_parsed hscan htree name).trans hp, fun depth s => ?_⟩
  obtain ⟨body, s', hwalked, rfl⟩ := Program.exists_walked hp
  have hcode :=
    Compile.forall₂_of_walked (fun t ht => Compile.leafCode?_piece (hpieces t ht)) rfl hwalked
  rw [Render.code, Render.outcome_texts hcode s, htext, String.ofList_toList]

end Mustache
