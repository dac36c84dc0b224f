import Mathlib.Data.List.Nodup
import Mathlib.Data.Set.Function
import Mustache.Proofs.Asking
/-!
# Mustache — templates that a loader serves

A claim about what a template renders to is about a loader that has it, whatever
else is in the store. `Loader.Serves` says so for stores of a kind, and a kind
that does not depend on which programs of some texts have been kept is
`Engine.Steady`. In such stores asking for one of these texts gives what it is
compiled to, found in the cache or not (`Engine.exists_template`,
`Engine.exists_partialProgram`), if the class names of the texts do not collide.
-/

namespace Mustache

/-- The loader gives this text for the name, in each store of a kind, and leaves
one of that kind. -/
def Loader.Serves (I : Store → Prop) (loader : Loader) (name text : String) : Prop :=
  ∀ s, I s → ∃ s', outcome (loader.load name) s = (.ok (.text text), s') ∧ I s'

/-- In stores with the same tables a loader in memory gives for a name what it
gave before. -/
theorem Loader.InMemory.serves {loader : Loader} (h : loader.InMemory) (P : Store → Prop)
    {start : Store} {name text : String}
    (htext : (outcome (loader.load name) start).1 = .ok (.text text)) :
    loader.Serves (fun s => P s ∧ s.tables = start.tables) name text := by
  rintro s ⟨hs, htables⟩
  obtain ⟨result, -, houtcome⟩ := h.readsTables name start.tables
  rw [houtcome start rfl] at htext
  obtain rfl : result = .ok (.text text) := htext
  exact ⟨s, houtcome s htables, hs, htables⟩

namespace Engine

/-- What is kept for these texts is their programs. -/
def RetainsAll (e : Engine) (texts : List String) (s : Store) : Prop :=
  ∀ text ∈ texts, e.Retains e.cache text none s

/-- What the class names of these texts are the digests of. -/
def fingerprints (e : Engine) (texts : List String) : Set String :=
  {fingerprint | ∃ text ∈ texts, fingerprint = e.textFingerprint text none}

/-- A kind of stores in which nothing else is kept for these texts than their
programs, and that does not depend on which of them are. -/
structure Steady (e : Engine) (texts : List String) (I : Store → Prop) : Prop where
  retains : ∀ s, I s → e.RetainsAll texts s
  again : ∀ s s', I s → e.RetainsAll texts s' → s'.bare = s.bare → I s'

/-- Such stores with the same tables are such a kind. -/
theorem steady_tables (e : Engine) (texts : List String) (tables : Pool (Entries String)) :
    e.Steady texts fun s => e.RetainsAll texts s ∧ s.tables = tables :=
  ⟨fun _ hs => hs.1,
    fun _ _ hs hretains hbare => ⟨hretains, (congrArg Store.tables hbare).trans hs.2⟩⟩

/-- A new store is of that kind. -/
theorem retainsAll_ofFiles {e : Engine} (hcache : e.cache.Internal) (texts : List String)
    (files : FileTree) : e.RetainsAll texts (.ofFiles files) :=
  fun _ _ => retains_ofFiles hcache files

/-- **What a template renders to** is what its program does. -/
theorem result_render {e : Engine} {name : String} {data : Value} {depth : Nat} {s store : Store}
    {p : Program} (htemplate : outcome (e.template name) s = (.ok p, store)) :
    (outcome (e.render depth name data) s).1 =
      (outcome (Render.code e depth p p.body "") ⟨e.contextFor data, store⟩).1 := by
  unfold render
  rw [outcome_bind, outcome_working, htemplate]
  rfl

section

variable {e : Engine} {texts : List String} {text : String} {s s' : Store}

/-- Whether the fingerprints of some texts collide can be found out. -/
theorem injOn_fingerprints
    (h : (texts.map fun text => e.digest (e.textFingerprint text none)).Nodup) :
    Set.InjOn e.digest (e.fingerprints texts) := by
  rintro _ ⟨text, htext, rfl⟩ _ ⟨other, hother, rfl⟩ heq
  rw [List.inj_on_of_nodup_map h htext hother heq]

/-- **Texts whose fingerprints do not collide** have class names of their own. -/
theorem eq_of_classNameOf_eq (hfree : Set.InjOn e.digest (e.fingerprints texts)) {text' : String}
    (htext : text ∈ texts) (htext' : text' ∈ texts)
    (h : e.classNameOf (e.textFingerprint text none) =
      e.classNameOf (e.textFingerprint text' none)) : text = text' := by
  have hdigest : e.digest (e.textFingerprint text none) =
      e.digest (e.textFingerprint text' none) := (String.append_right_inj _).1 h
  exact (textFingerprint_eq (hfree ⟨text, htext, rfl⟩ ⟨text', htext', rfl⟩ hdigest)).2

/-- The programs of all these texts go on being kept when that of one is added. -/
theorem RetainsAll.of_gains (h : e.RetainsAll texts s) (hcache : e.cache.Internal)
    (haccepted : e.HasAccepted) (hfree : Set.InjOn e.digest (e.fingerprints texts))
    (htext : text ∈ texts)
    (hgains : Store.Gains (e.classNameOf (e.textFingerprint text none)) (e.compiled text none)
      s s') : e.RetainsAll texts s' := by
  intro text' htext'
  refine Retains.of_gains hcache haccepted .none (h text' htext') hgains fun hname => ?_
  rw [eq_of_classNameOf_eq hfree htext' htext hname]

end

variable {e : Engine} {texts : List String} {I : Store → Prop}
variable (hfree : Set.InjOn e.digest (e.fingerprints texts))
variable (hcache : e.cache.Internal) (haccepted : e.HasAccepted)
variable (hsteady : e.Steady texts I) {name text : String} (htext : text ∈ texts) {p : Program}
variable (hp : e.compiled text none = .ok p)

include hfree hcache haccepted hsteady htext hp

/-- The program of a text is what the text is compiled to. -/
theorem exists_program {s : Store} (hs : I s) :
    ∃ s', outcome (e.program (.text text) none e.cache) s = (.ok p, s') ∧ I s' := by
  have hretains := hsteady.retains s hs
  obtain ⟨hresult, hgains⟩ := gives_program hcache (hretains text htext)
  refine ⟨_, Prod.ext (hresult.trans hp) rfl, hsteady.again s _ hs ?_ hgains.bare⟩
  exact hretains.of_gains hcache haccepted hfree htext hgains

theorem exists_template (hname : e.loader.Serves I name text) {s : Store} (hs : I s) :
    ∃ s', outcome (e.template name) s = (.ok p, s') ∧ I s' := by
  obtain ⟨s₁, hload, hs₁⟩ := hname s hs
  obtain ⟨s', hprogram, hs'⟩ := exists_program hfree hcache haccepted hsteady htext hp hs₁
  refine ⟨s', ?_, hs'⟩
  rw [template, outcome_bind, hload, andThen_ok, hprogram]

theorem exists_partialProgram (hname : ∃ loader ∈ e.partialLoader?, loader.Serves I name text)
    {s : Store} (hs : I s) :
    ∃ s', outcome (e.partialProgram name) s = (.ok (some p), s') ∧ I s' := by
  obtain ⟨loader, hloader, hserves⟩ := hname
  obtain ⟨s₁, hload, hs₁⟩ := hserves s hs
  obtain ⟨s', hprogram, hs'⟩ := exists_program hfree hcache haccepted hsteady htext hp hs₁
  have hknown : outcome (loadKnown loader name) s = (.ok (some (.text text)), s₁) := by
    unfold loadKnown
    rw [outcome_tryCatch, outcome_bind, hload]
    rfl
  refine ⟨s', ?_, hs'⟩
  rw [partialProgram, hloader]
  dsimp only
  rw [outcome_bind, hknown, andThen_ok, outcome_bind, hprogram]
  rfl

end Engine

end Mustache
