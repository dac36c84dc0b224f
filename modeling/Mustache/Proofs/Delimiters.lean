import Mustache.Error
import Mustache.Proofs.Basic
/-!
# Mustache — accepted delimiters

Delimiters come from a text of two words, wherever they come from: from a
set-delimiter tag, from the options of an engine or from a procedure.
`Accepted` says so. What follows from it is that neither of the two has a
blank in it, so that the pair can be told from its text.
-/

namespace Mustache

namespace Text

/-- What a text is split at stands in no piece. -/
theorem not_of_mem_splitWhere {p : Char → Bool} {cs w : List Char} (hw : w ∈ splitWhere p cs) :
    ∀ c ∈ w, p c = false := by
  induction cs generalizing w with
  | nil => simp_all [splitWhere]
  | cons c r ih =>
    rw [splitWhere] at hw
    split at hw
    · next hnil => exact absurd hnil (splitWhere_ne_nil p r)
    · next v vs hsplit =>
      have hv : ∀ u ∈ v :: vs, ∀ c ∈ u, p c = false := fun u hu => ih (by rw [hsplit]; exact hu)
      split at hw
      · rcases List.mem_cons.1 hw with rfl | hw
        · intro d hd
          cases hd
        · exact hv w hw
      · next hc =>
        rcases List.mem_cons.1 hw with rfl | hw
        · intro d hd
          rcases List.mem_cons.1 hd with rfl | hd
          · exact Bool.eq_false_iff.2 hc
          · exact hv v List.mem_cons_self d hd
        · exact hv w (List.mem_cons_of_mem v hw)

/-- A word has no blank. -/
theorem not_isBlank_of_mem_words {cs w : List Char} (hw : w ∈ words cs) :
    ∀ c ∈ w, isBlank c = false :=
  not_of_mem_splitWhere (List.mem_filter.1 hw).1

end Text

namespace Delimiters

/-- Delimiters that a text names. -/
def Accepted (d : Delimiters) : Prop := ∃ spec, ofText? spec = some d

theorem accepted_standard : standard.Accepted := ⟨"\x7b\x7b \x7d\x7d", by decide⟩

theorem ofText_eq_ok_iff {spec : String} {d : Delimiters} :
    ofText spec = .ok d ↔ ofText? spec = some d := by
  unfold ofText
  split
  · next hspec => simp [hspec]
  · next hspec => simp [hspec]

theorem accepted_ofText {spec : String} {d : Delimiters} (h : ofText spec = .ok d) :
    d.Accepted :=
  ⟨spec, ofText_eq_ok_iff.1 h⟩

/-- There is no blank in accepted delimiters. -/
theorem Accepted.not_blank {d : Delimiters} (h : d.Accepted) {c : Char}
    (hc : Text.isBlank c = true) : c ∉ d.opening.toList ∧ c ∉ d.closing.toList := by
  obtain ⟨spec, hspec⟩ := h
  unfold ofText? at hspec
  split at hspec
  · next opening closing hwords =>
    cases hspec
    have hword {w : List Char} (hw : w ∈ [opening, closing]) : c ∉ w := by
      intro hmem
      rw [← hwords] at hw
      rw [Text.not_isBlank_of_mem_words hw c hmem] at hc
      cases hc
    rw [String.toList_ofList, String.toList_ofList]
    exact ⟨hword (by simp), hword (by simp)⟩
  · cases hspec

/-- A character of accepted delimiters is no blank. -/
theorem Accepted.isBlank_eq_false {d : Delimiters} (h : d.Accepted) {c : Char}
    (hmem : c ∈ d.opening.toList ∨ c ∈ d.closing.toList) : Text.isBlank c = false :=
  Bool.eq_false_iff.2 fun hc => not_or.2 (h.not_blank hc) hmem

/-- Accepted delimiters are not empty. -/
theorem Accepted.ne_nil {d : Delimiters} (h : d.Accepted) :
    d.opening.toList ≠ [] ∧ d.closing.toList ≠ [] := by
  obtain ⟨spec, hspec⟩ := h
  unfold ofText? at hspec
  split at hspec
  · next opening closing hwords =>
    cases hspec
    have hword {w : List Char} (hw : w ∈ [opening, closing]) : w ≠ [] := by
      rw [← hwords] at hw
      simpa using (List.mem_filter.1 hw).2
    rw [String.toList_ofList, String.toList_ofList]
    exact ⟨hword (by simp), hword (by simp)⟩
  · cases hspec

/-- Two words are told from the text in which a blank stands between them. -/
theorem eq_of_append {d d' : Delimiters} (hd : d.Accepted) (hd' : d'.Accepted)
    (rest : List Char) (h : d.opening.toList ++ ' ' :: (d.closing.toList ++ rest) =
      d'.opening.toList ++ ' ' :: (d'.closing.toList ++ rest)) : d = d' := by
  obtain ⟨hopening, hclosing⟩ := cut_unique (hd.not_blank (by decide)).1
    (hd'.not_blank (by decide)).1 h
  have hclosing := List.append_cancel_right hclosing
  cases d
  cases d'
  exact congr (congrArg mk (String.toList_inj.1 hopening)) (String.toList_inj.1 hclosing)

/-- **Accepted delimiters can be told from their text.** -/
theorem text_injective {d d' : Delimiters} (hd : d.Accepted) (hd' : d'.Accepted)
    (h : d.text = d'.text) : d = d' := by
  have hlist := congrArg String.toList h
  simp only [text, String.toList_append] at hlist
  exact eq_of_append hd hd' [] (by simpa using hlist)

/-- They can be told from the tag that sets them, too. -/
theorem tag_injective {d d' : Delimiters} (hd : d.Accepted) (hd' : d'.Accepted)
    (h : d.tag = d'.tag) : d = d' := by
  have hlist := congrArg String.toList h
  simp only [tag, String.toList_append, List.append_assoc] at hlist
  exact eq_of_append hd hd' (" =".toList ++ standard.closing.toList) (by simpa using hlist)

theorem Accepted.newline_not_mem_tag {d : Delimiters} (hd : d.Accepted) :
    '\n' ∉ d.tag.toList := by
  obtain ⟨hopening, hclosing⟩ := hd.not_blank (c := '\n') (by decide)
  simp only [tag, String.toList_append, List.mem_append, not_or]
  exact ⟨⟨⟨⟨⟨⟨by decide, by decide⟩, hopening⟩, by decide⟩, hclosing⟩, by decide⟩, by decide⟩

/-! ## Standard ones as none -/

theorem unlessStandard_of_ne {d : Delimiters} (h : d ≠ standard) :
    unlessStandard (some d) = some d := by
  simp [unlessStandard, Option.filter, isStandard, h]

/-- What is kept as none stands for the standard ones. -/
theorem getD_unlessStandard (d : Delimiters) : (unlessStandard (some d)).getD standard = d := by
  by_cases h : d = standard
  · rw [h]
    rfl
  · rw [unlessStandard_of_ne h]
    rfl

theorem eq_of_unlessStandard {d d' : Delimiters} (h : unlessStandard (some d) = some d') :
    d = d' :=
  Option.some.inj (Option.mem_filter_iff.1 h).1

/-- What is kept tells delimiters apart. -/
theorem unlessStandard_some_injective {d d' : Delimiters}
    (h : unlessStandard (some d) = unlessStandard (some d')) : d = d' := by
  rw [← getD_unlessStandard d, h, getD_unlessStandard]

end Delimiters

/-- Delimiters that may be asked for, standard ones as none. -/
def AcceptedIfAny (d : Option Delimiters) : Prop := ∀ d' ∈ d, d'.Accepted

namespace AcceptedIfAny

theorem none : AcceptedIfAny none := nofun

theorem unlessStandard {d : Option Delimiters} (h : AcceptedIfAny d) :
    AcceptedIfAny (Delimiters.unlessStandard d) := by
  intro d' hd'
  exact h d' (Option.mem_filter_iff.1 hd').1

end AcceptedIfAny

end Mustache
