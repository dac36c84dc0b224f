import Mustache.Proofs.Delimiters
import Mustache.Proofs.Digests
import Mustache.Proofs.Run
/-!
# Mustache — class names stand for what is compiled

A class name is a prefix and the digest of a fingerprint: the settings of
the engine as one line of JSON and, below it, the text of the template.
Where digests do not collide, the class name of a text gives back
everything that its program depends on, so two engines that have the same
class name for two texts compile them to the same program
(`compile_eq_of_className`).
-/

namespace Mustache

/-! ## Documents are written on one line -/

namespace Json

theorem hexDigit_ne_newline (n : Nat) : '\n' ≠ hexDigit n := by
  have hdigits : ∀ k < 16, '\n' ≠ Nat.digitChar k := by decide
  exact hdigits _ (Nat.mod_lt n (by decide))

theorem not_newline_escapeChar (c : Char) : '\n' ∉ escapeChar c := by
  by_cases hnewline : c = '\n'
  · subst hnewline
    decide
  · unfold escapeChar
    repeat' split
    all_goals simp [Ne.symm hnewline, hexDigit_ne_newline]

/-- A text of one line. -/
def OneLine (s : String) : Prop := '\n' ∉ s.toList

instance (s : String) : Decidable (OneLine s) := inferInstanceAs (Decidable ('\n' ∉ s.toList))

theorem OneLine.append {s t : String} (hs : OneLine s) (ht : OneLine t) : OneLine (s ++ t) := by
  unfold OneLine
  rw [String.toList_append, List.mem_append]
  exact not_or.2 ⟨hs, ht⟩

theorem oneLine_quoted (s : String) : OneLine (quoted s) := by
  unfold OneLine quoted
  simp only [String.toList_ofList, List.cons_append, List.mem_cons, List.mem_append,
    List.mem_flatMap, List.not_mem_nil, or_false, not_or, not_exists, not_and]
  exact ⟨by decide, fun c _ => not_newline_escapeChar c, by decide⟩

theorem oneLine_int {n : Int} (hpos : 0 ≤ n) : OneLine (toString n) := by
  obtain ⟨k, rfl⟩ := Int.eq_ofNat_of_zero_le hpos
  have htext : (toString (k : Int)).toList = Nat.toDigits 10 k := by
    simp [Int.repr_eq_if, Nat.toList_repr]
  unfold OneLine
  rw [htext]
  intro hmem
  exact absurd (Nat.isDigit_of_mem_toDigits (by decide) (by decide) hmem) (by decide)

theorem oneLine_commaSeparated : ∀ texts : List String, (∀ s ∈ texts, OneLine s) →
    OneLine (commaSeparated texts)
  | [], _ => nofun
  | [s], h => h s List.mem_cons_self
  | s :: t :: texts, h => by
    have hmore := oneLine_commaSeparated (t :: texts) fun u hu => h u (List.mem_cons_of_mem s hu)
    exact ((h s List.mem_cons_self).append (by decide)).append hmore

mutual

/-- **A document is written on one line.** -/
theorem oneLine_text : ∀ j : Json, Whole j → OneLine j.text
  | .null, _ => by decide
  | .bool b, _ => by cases b <;> decide
  | .int _, h => oneLine_int h.1
  | .str s, _ => oneLine_quoted s
  | .arr items, h =>
    (OneLine.append (by decide) (oneLine_commaSeparated _ (oneLine_itemTexts items h))).append
      (by decide)
  | .obj fields, h =>
    (OneLine.append (by decide) (oneLine_commaSeparated _ (oneLine_fieldTexts fields h))).append
      (by decide)

theorem oneLine_itemTexts : ∀ items : List Json, WholeItems items →
    ∀ s ∈ itemTexts items, OneLine s
  | [], _ => nofun
  | item :: items, h => by
    intro s hs
    rcases List.mem_cons.1 hs with rfl | hs
    · exact oneLine_text item h.1
    · exact oneLine_itemTexts items h.2 s hs

theorem oneLine_fieldTexts : ∀ fields : List (String × Json), WholeFields fields →
    ∀ s ∈ fieldTexts fields, OneLine s
  | [], _ => nofun
  | (name, value) :: fields, h => by
    intro s hs
    rcases List.mem_cons.1 hs with rfl | hs
    · exact ((oneLine_quoted name).append (by decide)).append (oneLine_text value h.1)
    · exact oneLine_fieldTexts fields h.2 s hs

end

end Json

/-! ## Fingerprints -/

theorem Pragma.name_injective : Function.Injective Pragma.name := by
  intro p q h
  have hread := congrArg Pragma.ofName? h
  rw [Pragma.ofName?_name, Pragma.ofName?_name] at hread
  exact Option.some.inj hread

namespace Engine

variable {e e' : Engine} {text text' : String} {asked asked' : Option Delimiters}

theorem whole_settingsJson (e : Engine) (key : String) (asked : Option Delimiters) :
    Json.Whole (e.settingsJson key asked) := by
  have hname (p : Pragma) : Json.Whole (.str p.name) := trivial
  have hpragmas := Json.wholeItems_map hname e.pragmas
  have hflags : e.entityFlags.toNat < 2 ^ 32 := e.entityFlags.toNat_lt
  have hfits : e.entityFlags.toNat ≤ Json.wordLimit := by
    rw [Json.wordLimit]
    omega
  simp [settingsJson, Json.Whole, Json.WholeFields, hpragmas, hfits]

/-- The engine starts templates with delimiters that a text names. -/
def HasAccepted (e : Engine) : Prop := AcceptedIfAny e.delimiters

theorem HasAccepted.startingDelimiters (he : e.HasAccepted) (hasked : AcceptedIfAny asked) :
    (e.startingDelimiters asked).Accepted := by
  unfold Engine.startingDelimiters
  cases asked with
  | some d => exact hasked d rfl
  | none =>
    cases hd : e.delimiters with
    | none => exact Delimiters.accepted_standard
    | some d => exact he d hd

/-- What options that are found good ask for: delimiters that a text names,
and pragmas by their names. -/
theorem exists_of_check {options : EngineOptions} {delimiters : Option Delimiters}
    {pragmas : List Pragma} (h : check options = .ok (delimiters, pragmas)) :
    ∃ named, options.pragmas.mapM Pragma.ofName = .ok named ∧
      delimiters = Delimiters.unlessStandard (options.delimiters.bind Delimiters.ofText?) ∧
      pragmas = Pragma.normal named := by
  unfold check at h
  dsimp only at h
  split at h
  · obtain ⟨_, hthrow, -⟩ := exists_of_bind_eq_ok h
    cases hthrow
  · split at h
    · obtain ⟨_, hthrow, -⟩ := exists_of_bind_eq_ok h
      cases hthrow
    · obtain ⟨asked, hspec, h⟩ := exists_of_bind_eq_ok h
      obtain ⟨named, hnamed, h⟩ := exists_of_bind_eq_ok h
      cases h
      have hasked : asked = options.delimiters.bind Delimiters.ofText? := by
        cases hdelimiters : options.delimiters with
        | none =>
          rw [hdelimiters] at hspec
          cases hspec
          rfl
        | some spec =>
          rw [hdelimiters] at hspec
          obtain ⟨d, hd, hspec⟩ := exists_of_bind_eq_ok hspec
          cases hspec
          exact (Delimiters.ofText_eq_ok_iff.1 hd).symm
      exact ⟨named, hnamed, by rw [hasked], rfl⟩

theorem accepted_check {options : EngineOptions} {delimiters : Option Delimiters}
    {pragmas : List Pragma} (h : check options = .ok (delimiters, pragmas)) :
    AcceptedIfAny delimiters := by
  obtain ⟨-, -, rfl, -⟩ := exists_of_check h
  refine AcceptedIfAny.unlessStandard fun d hd => ?_
  obtain ⟨spec, -, hspec⟩ := Option.bind_eq_some_iff.1 hd
  exact ⟨spec, hspec⟩

/-- Setting partials changes nothing else of an engine. -/
theorem exists_of_setPartials {e e' : Engine} {templates : Entries String} {s : Store}
    (h : (outcome (e.setPartials templates) s).1 = .ok e') :
    ∃ loader, e' = { e with partials := loader } := by
  unfold setPartials at h
  split at h
  · cases h
    exact ⟨_, rfl⟩
  · next loader hloader =>
    rw [outcome_bind] at h
    rcases hset : outcome (loader.setTemplates templates) s with ⟨err | _, s'⟩ <;>
      rw [hset] at h <;> cases h
    exact ⟨e.partials, rfl⟩

/-- **What an engine has from its options**: all settings but the loader of
partials as they are, and the delimiters and pragmas that are asked for. -/
theorem exists_of_ofOptions {options : EngineOptions} {e : Engine} {s : Store}
    (h : (outcome (ofOptions options) s).1 = .ok e) :
    ∃ delimiters pragmas loader memo, check options = .ok (delimiters, pragmas) ∧
      e = { options.toEngineSettings with partials := loader, delimiters, pragmas, memo } := by
  unfold ofOptions at h
  rw [outcome_bind, outcome_liftM] at h
  cases hcheck : check options with
  | error err =>
    rw [hcheck] at h
    cases h
  | ok r =>
    obtain ⟨delimiters, pragmas⟩ := r
    rw [hcheck, andThen_ok] at h
    dsimp only at h
    rw [outcome_bind] at h
    change (andThen (.ok _, _) _).1 = _ at h
    rw [andThen_ok] at h
    split at h
    · cases h
      exact ⟨delimiters, pragmas, options.partials, _, rfl, rfl⟩
    · obtain ⟨loader, rfl⟩ := exists_of_setPartials h
      exact ⟨delimiters, pragmas, loader, _, rfl, rfl⟩

/-- The options of an engine are such. -/
theorem hasAccepted_ofOptions {options : EngineOptions} {e : Engine} {s : Store}
    (h : (outcome (ofOptions options) s).1 = .ok e) : e.HasAccepted := by
  obtain ⟨_, _, _, _, hcheck, rfl⟩ := exists_of_ofOptions h
  exact accepted_check hcheck

/-- A fingerprint falls apart into the settings and the text. -/
theorem textFingerprint_eq (h : e.textFingerprint text asked = e'.textFingerprint text' asked') :
    e.settingsJson "source" asked = e'.settingsJson "source" asked' ∧ text = text' := by
  have hlist := congrArg String.toList h
  simp only [textFingerprint, String.toList_append] at hlist
  have hline (e : Engine) (asked : Option Delimiters) :=
    Json.oneLine_text _ (e.whole_settingsJson "source" asked)
  obtain ⟨hsettings, htext⟩ := cut_unique (hline e asked) (hline e' asked') (by simpa using hlist)
  exact ⟨Json.text_injective (e.whole_settingsJson _ _) (e'.whole_settingsJson _ _)
    (String.toList_inj.1 hsettings), String.toList_inj.1 htext⟩

/-- **What the settings in a fingerprint tell**, and all that they tell. -/
theorem settingsJson_eq_iff {key key' : String} :
    e.settingsJson key asked = e'.settingsJson key' asked' ↔
      e.charset = e'.charset ∧
        (e.startingDelimiters asked).text = (e'.startingDelimiters asked').text ∧
        e.entityFlags = e'.entityFlags ∧ e.escape.isSome = e'.escape.isSome ∧ key = key' ∧
        e.pragmas = e'.pragmas ∧ e.strictCallables = e'.strictCallables := by
  have hflags : (Int.ofNat e.entityFlags.toNat = Int.ofNat e'.entityFlags.toNat) ↔
      e.entityFlags = e'.entityFlags := Int.ofNat_inj.trans UInt32.toNat_inj
  have hescape : (if e.escape.isSome then "custom" else "default") =
      (if e'.escape.isSome then "custom" else "default") ↔
        e.escape.isSome = e'.escape.isSome := by
    cases e.escape.isSome <;> cases e'.escape.isSome <;> decide
  have hpragmas : (e.pragmas.map fun p => Json.str p.name) = (e'.pragmas.map fun p =>
      Json.str p.name) ↔ e.pragmas = e'.pragmas :=
    List.map_inj_right fun p q hname => Pragma.name_injective (Json.str.inj hname)
  simp only [settingsJson, Json.obj.injEq, List.cons.injEq, Prod.mk.injEq, Json.str.injEq,
    Json.int.injEq, Json.arr.injEq, Json.bool.injEq, true_and, and_true, hescape, hpragmas]
  rw [← hflags]
  rfl

/-- What compiling takes from the settings stands in the fingerprint. -/
theorem settings_eq {key key' : String}
    (h : e.settingsJson key asked = e'.settingsJson key' asked') :
    (e.startingDelimiters asked).text = (e'.startingDelimiters asked').text ∧
      e.pragmas = e'.pragmas ∧ e.compileSettings = e'.compileSettings := by
  obtain ⟨-, hdelimiters, hflags, hescape, -, hpragmas, hstrict⟩ := settingsJson_eq_iff.1 h
  exact ⟨hdelimiters, hpragmas, by rw [compileSettings, hescape, hstrict, hflags, compileSettings]⟩

/-- **The same class name, the same program.** -/
theorem compile_eq_of_className (hfree : CollisionFree e.digest) (hdigest : e'.digest = e.digest)
    (he : e.HasAccepted) (he' : e'.HasAccepted) (hasked : AcceptedIfAny asked)
    (hasked' : AcceptedIfAny asked')
    (h : e.classNameOf (e.textFingerprint text asked) =
      e'.classNameOf (e'.textFingerprint text' asked')) (name : String) :
    e.compile name text asked = e'.compile name text' asked' := by
  unfold classNameOf at h
  rw [hdigest] at h
  obtain ⟨hsettings, rfl⟩ := textFingerprint_eq (hfree h).2
  obtain ⟨hstart, hpragmas, hshape⟩ := settings_eq hsettings
  have hdelimiters := Delimiters.text_injective (he.startingDelimiters hasked)
    (he'.startingDelimiters hasked') hstart
  unfold compile
  rw [hdelimiters, hpragmas, hshape, hdigest]

end Engine

end Mustache
