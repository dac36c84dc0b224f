import Mustache.Proofs.ClassNames
/-!
# Mustache — templates with the same class name

A class name is made of the prefix of an engine and of one digest. Digests
have one length, so the prefix can be cut off; and what is digested is one
line of JSON, for the settings, and the text of the template below it
(`textFingerprint_eq`), so no setting can pass for another and none for a
part of the text. Delimiters stand in it as their text, which tells
accepted ones apart.

So two engines give two texts the same class name exactly if the texts are
the same and the engines agree in everything that counts, however they
were asked for it (`EngineOptions.Alike`, `className_eq_iff`). Pragmas
count as a set: an engine lists them in its own order and each once.
-/

namespace Mustache

/-! ## Pragmas as a set -/

namespace Pragma

theorem mem_normal {p : Pragma} {ps : List Pragma} : p ∈ normal ps ↔ p ∈ ps := by
  have hall : p ∈ all := by cases p <;> decide
  rw [normal, List.mem_filter, List.contains_iff_mem]
  exact and_iff_right hall

/-- **Order and repeats are forgotten.** -/
theorem normal_eq_iff {ps qs : List Pragma} :
    normal ps = normal qs ↔ ∀ p, p ∈ ps ↔ p ∈ qs := by
  constructor
  · intro h p
    rw [← mem_normal, h, mem_normal]
  · intro h
    refine List.filter_congr fun p _ => Bool.eq_iff_iff.2 ?_
    rw [List.contains_iff_mem, List.contains_iff_mem]
    exact h p

theorem eq_name_of_ofName {name : String} {p : Pragma} (h : ofName name = .ok p) :
    name = p.name := by
  unfold ofName at h
  split at h
  · next found hfound =>
    cases h
    have hname := List.find?_some hfound
    exact (of_decide_eq_true hname).symm
  · cases h

/-- Names that are all known are the names of the pragmas found. -/
theorem eq_map_name_of_mapM : ∀ {names : List String} {ps : List Pragma},
    names.mapM ofName = .ok ps → names = ps.map Pragma.name
  | [], ps, h => by
    cases h
    rfl
  | n :: names, ps, h => by
    rw [List.mapM_cons] at h
    obtain ⟨p, hp, h⟩ := exists_of_bind_eq_ok h
    obtain ⟨more, hmore, h⟩ := exists_of_bind_eq_ok h
    cases h
    rw [List.map_cons, ← eq_name_of_ofName hp, ← eq_map_name_of_mapM hmore]

/-- Lists of known names come to the same pragmas exactly if the same names
stand in them. -/
theorem normal_eq_iff_names {names names' : List String} {ps qs : List Pragma}
    (h : names.mapM ofName = .ok ps) (h' : names'.mapM ofName = .ok qs) :
    normal ps = normal qs ↔ ∀ name, name ∈ names ↔ name ∈ names' := by
  obtain rfl := eq_map_name_of_mapM h
  obtain rfl := eq_map_name_of_mapM h'
  rw [normal_eq_iff]
  constructor
  · intro hps name
    simp only [List.mem_map, hps]
  · intro hnames p
    rw [← List.mem_map_of_injective name_injective, hnames,
      List.mem_map_of_injective name_injective]

end Pragma

/-! ## Digests of one length -/

/-- What stands before a digest can be told from it. -/
theorem eq_of_append_digest {digest : String → String}
    (hlength : ∀ a b, (digest a).length = (digest b).length) {before before' a b : String}
    (h : before ++ digest a = before' ++ digest b) : before = before' ∧ digest a = digest b := by
  have hlists := congrArg String.toList h
  rw [String.toList_append, String.toList_append] at hlists
  have hlengths : (digest a).toList.length = (digest b).toList.length := by
    rw [String.length_toList, String.length_toList, hlength]
  obtain ⟨hbefore, hdigest⟩ := List.append_inj' hlists hlengths
  exact ⟨String.toList_inj.1 hbefore, String.toList_inj.1 hdigest⟩

/-! ## Options that count -/

namespace EngineOptions

/-- The delimiters that a template starts with: those that are asked for,
or those of the options, or the standard ones. -/
def delimitersFor (options : EngineOptions) (asked : Option Delimiters) : Delimiters :=
  (asked.or (options.delimiters.bind Delimiters.ofText?)).getD .standard

/-- **The options agree in everything that class names tell**, for templates
for which these delimiters are asked. -/
structure Alike (options options' : EngineOptions) (asked asked' : Option Delimiters) : Prop where
  classPrefix : options.classPrefix = options'.classPrefix
  delimiters : options.delimitersFor asked = options'.delimitersFor asked'
  pragmas : ∀ name, name ∈ options.pragmas ↔ name ∈ options'.pragmas
  entityFlags : options.entityFlags = options'.entityFlags
  customEscape : options.escape.isSome = options'.escape.isSome
  strictCallables : options.strictCallables = options'.strictCallables
  charset : options.charset = options'.charset

end EngineOptions

namespace Engine

/-- **What an engine has from its options**, as far as class names tell. -/
structure MadeFrom (e : Engine) (options : EngineOptions) : Prop where
  classPrefix : e.classPrefix = options.classPrefix
  digest : e.digest = options.digest
  starting : ∀ asked, e.startingDelimiters asked = options.delimitersFor asked
  pragmas : ∃ named, options.pragmas.mapM Pragma.ofName = .ok named ∧
    e.pragmas = Pragma.normal named
  entityFlags : e.entityFlags = options.entityFlags
  escape : e.escape = options.escape
  strictCallables : e.strictCallables = options.strictCallables
  charset : e.charset = options.charset

theorem madeFrom_ofOptions {options : EngineOptions} {e : Engine} {s : Store}
    (h : (outcome (ofOptions options) s).1 = .ok e) : e.MadeFrom options := by
  obtain ⟨_, _, loader, memo, hcheck, rfl⟩ := exists_of_ofOptions h
  obtain ⟨named, hnamed, rfl, rfl⟩ := exists_of_check hcheck
  refine ⟨rfl, rfl, fun asked => ?_, ⟨named, hnamed, rfl⟩, rfl, rfl, rfl, rfl⟩
  unfold startingDelimiters EngineOptions.delimitersFor
  cases asked with
  | some d => rfl
  | none =>
    dsimp only
    cases options.delimiters.bind Delimiters.ofText? with
    | none => rfl
    | some d => exact Delimiters.getD_unlessStandard d

section

variable {options options' : EngineOptions} {e e' : Engine} {asked asked' : Option Delimiters}
  {text text' : String}

/-- The pragmas of engines are the same exactly if the same names are listed
for them. -/
theorem MadeFrom.pragmas_eq_iff (h : e.MadeFrom options) (h' : e'.MadeFrom options') :
    e.pragmas = e'.pragmas ↔ ∀ name, name ∈ options.pragmas ↔ name ∈ options'.pragmas := by
  obtain ⟨named, hnamed, hpragmas⟩ := h.pragmas
  obtain ⟨named', hnamed', hpragmas'⟩ := h'.pragmas
  rw [hpragmas, hpragmas', Pragma.normal_eq_iff_names hnamed hnamed']

/-- **A fingerprint under a prefix tells what counts, and the text.** -/
theorem MadeFrom.fingerprint_eq_iff (h : e.MadeFrom options) (h' : e'.MadeFrom options')
    (haccepted : (e.startingDelimiters asked).Accepted)
    (haccepted' : (e'.startingDelimiters asked').Accepted) :
    e.classPrefix = e'.classPrefix ∧
        e.textFingerprint text asked = e'.textFingerprint text' asked' ↔
      options.Alike options' asked asked' ∧ text = text' := by
  constructor
  · rintro ⟨hbegin, hfingerprint⟩
    obtain ⟨hsettings, htext⟩ := textFingerprint_eq hfingerprint
    obtain ⟨hcharset, hdelimiters, hflags, hescape, -, hpragmas, hstrict⟩ :=
      settingsJson_eq_iff.1 hsettings
    have hdelimiters := Delimiters.text_injective haccepted haccepted' hdelimiters
    rw [h.starting, h'.starting] at hdelimiters
    rw [h.classPrefix, h'.classPrefix] at hbegin
    rw [h.pragmas_eq_iff h'] at hpragmas
    rw [h.entityFlags, h'.entityFlags] at hflags
    rw [h.escape, h'.escape] at hescape
    rw [h.strictCallables, h'.strictCallables] at hstrict
    rw [h.charset, h'.charset] at hcharset
    exact ⟨⟨hbegin, hdelimiters, hpragmas, hflags, hescape, hstrict, hcharset⟩, htext⟩
  · rintro ⟨halike, rfl⟩
    have hsettings : e.settingsJson "source" asked = e'.settingsJson "source" asked' := by
      refine settingsJson_eq_iff.2 ⟨?_, ?_, ?_, ?_, rfl, ?_, ?_⟩
      · rw [h.charset, h'.charset, halike.charset]
      · rw [h.starting, h'.starting, halike.delimiters]
      · rw [h.entityFlags, h'.entityFlags, halike.entityFlags]
      · rw [h.escape, h'.escape, halike.customEscape]
      · exact (h.pragmas_eq_iff h').2 halike.pragmas
      · rw [h.strictCallables, h'.strictCallables, halike.strictCallables]
    refine ⟨?_, ?_⟩
    · rw [h.classPrefix, h'.classPrefix, halike.classPrefix]
    · rw [textFingerprint, hsettings, textFingerprint]

/-- **Class names tell what counts and nothing else.** Let digests have one
length, and let the two fingerprints not collide. Two engines, made from
any options that are found good, give two texts the same class name exactly
if their prefixes, starting delimiters, sets of pragmas, entity flags, ways
of escaping, strictness and charsets are the same and the texts are. In
particular it makes no difference in which order and how often pragmas are
listed. -/
theorem className_eq_iff {s s' : Store}
    (hmade : (outcome (ofOptions options) s).1 = .ok e)
    (hmade' : (outcome (ofOptions options') s').1 = .ok e') {digest : String → String}
    (hdigest : options.digest = digest) (hdigest' : options'.digest = digest)
    (hlength : ∀ a b, (digest a).length = (digest b).length)
    (hasked : AcceptedIfAny asked) (hasked' : AcceptedIfAny asked')
    (hfree : digest (e.textFingerprint text asked) = digest (e'.textFingerprint text' asked') →
      e.textFingerprint text asked = e'.textFingerprint text' asked') (r r' : Store) :
    ∃ name name', outcome (e.className (.text text) asked) r = (.ok name, r) ∧
      outcome (e'.className (.text text') asked') r' = (.ok name', r') ∧
      (name = name' ↔ options.Alike options' asked asked' ∧ text = text') := by
  refine ⟨_, _, rfl, rfl, ?_⟩
  have hfrom := madeFrom_ofOptions hmade
  have hfrom' := madeFrom_ofOptions hmade'
  have haccepted := (hasAccepted_ofOptions hmade).startingDelimiters hasked
  have haccepted' := (hasAccepted_ofOptions hmade').startingDelimiters hasked'
  have hname : e.classNameOf (e.textFingerprint text asked) =
      e'.classNameOf (e'.textFingerprint text' asked') ↔
        e.classPrefix = e'.classPrefix ∧
          e.textFingerprint text asked = e'.textFingerprint text' asked' := by
    unfold classNameOf
    rw [hfrom.digest, hfrom'.digest, hdigest, hdigest']
    constructor
    · intro h
      obtain ⟨hbegin, hdigests⟩ := eq_of_append_digest hlength h
      exact ⟨hbegin, hfree hdigests⟩
    · rintro ⟨hbegin, hfingerprint⟩
      rw [hbegin, hfingerprint]
  exact hname.trans (hfrom.fingerprint_eq_iff hfrom' haccepted haccepted')

end

/-- Options with these delimiters and pragmas, and SHA-256 for digests. -/
def listing (delimiters : Option String) (pragmas : List String) : EngineOptions :=
  { EngineOptions.standard .inert Sha256.ofText with delimiters, pragmas }

/-- Pragmas in another order and with repeats, and standard delimiters that
are asked for in place of those of the options, make no difference: the
SHA-256 class names of a text with a quote, a brace and a newline are the
same. -/
theorem className_eq_iff_of_listing :
    let options := listing (some "\x7b\x7b \x7d\x7d") ["BLOCKS", "FILTERS", "BLOCKS"]
    let options' := listing (some "<% %>") ["FILTERS", "BLOCKS"]
    let text := "\"\x7d\n\x7b\x7bb\x7d\x7d"
    let s := Store.ofFiles (.empty "" [])
    ∃ e e', (outcome (ofOptions options) s).1 = .ok e ∧
      (outcome (ofOptions options') s).1 = .ok e' ∧
      (outcome (e.className (.text text) none) s).1 =
        (outcome (e'.className (.text text) (some .standard)) s).1 := by
  intro options options' text s
  have hgood : (outcome (ofOptions options) s).1.toOption.isSome = true := by decide +kernel
  have hgood' : (outcome (ofOptions options') s).1.toOption.isSome = true := by decide +kernel
  obtain ⟨e, hmade⟩ := Option.isSome_iff_exists.1 hgood
  obtain ⟨e', hmade'⟩ := Option.isSome_iff_exists.1 hgood'
  have he := eq_ok_of_toOption hmade
  have he' := eq_ok_of_toOption hmade'
  have halike : options.Alike options' none (some .standard) := by
    refine ⟨rfl, by decide, fun name => ?_, rfl, rfl, rfl, rfl⟩
    simp [options, options', listing, or_comm]
  have hasked : AcceptedIfAny (some .standard) := by
    rintro _ ⟨⟩
    exact Delimiters.accepted_standard
  have hsame : e.textFingerprint text none = e'.textFingerprint text (some .standard) :=
    (((madeFrom_ofOptions he).fingerprint_eq_iff (madeFrom_ofOptions he')
      ((hasAccepted_ofOptions he).startingDelimiters .none)
      ((hasAccepted_ofOptions he').startingDelimiters hasked)).2 ⟨halike, rfl⟩).2
  have hlength (a b : String) : (Sha256.ofText a).length = (Sha256.ofText b).length := by
    rw [length_sha256, length_sha256]
  obtain ⟨name, name', hname, hname', hiff⟩ :=
    className_eq_iff he he' rfl rfl hlength .none hasked (fun _ => hsame) s s
  refine ⟨e, e', he, he', ?_⟩
  rw [hname, hname', hiff.2 ⟨halike, rfl⟩]

end Engine

end Mustache
