import Mustache.Proofs.Balance
import Mustache.Proofs.Stocked
import Mustache.Proofs.Yields
/-!
# Mustache — what asking for a template fails with

A template is loaded, and its program is found or compiled and stored. Compiling
fails only where the template is malformed (`Engine.compile_malformed`). A loader
that holds its texts in memory gives a text or does not know the name, and
changes nothing (`Loader.InMemory.readsTables`). Loading a partial catches that
error, and no other. So what is left are malformed partials and the errors of the
cache (`Engine.yields_partialProgram`).
-/

namespace Mustache

/-! ## Compiling -/

/-- The error says that a template is malformed. -/
def Error.IsMalformed (e : Error) : Prop := ∃ fault token, e = .malformed fault token

namespace Scan

/-- A scan fails only where the template is malformed. -/
theorem tokensFrom_malformed {start : Cursor} {cs : List Char} {e : Error}
    (h : tokensFrom start cs = .error e) : e.IsMalformed := by
  obtain ⟨_, _, _, -, herror⟩ := exists_reads_of_error h
  obtain ⟨-, fault, t, rfl, -⟩ := errorAt_readToken herror
  exact ⟨fault, t, rfl⟩

end Scan

/-- A token that is refused makes the template malformed. -/
theorem Tree.Nesting.Refuses.malformed {n : Nesting} {t : Token} {e : Error} (h : n.Refuses t e) :
    e.IsMalformed := by
  rcases h with ⟨-, rfl⟩ | ⟨-, hclashes⟩
  · exact ⟨_, _, rfl⟩
  · cases hclashes <;> exact ⟨_, _, rfl⟩

/-- **Compiling fails only where the template is malformed.** -/
theorem Engine.compile_malformed {e : Engine} {name text : String} {asked : Option Delimiters}
    {err : Error} (h : e.compile name text asked = .error err) : err.IsMalformed := by
  cases hscan : Token.scan (e.startingDelimiters asked) text with
  | error e' =>
    rw [compile_of_scan_error hscan] at h
    cases h
    unfold Token.scan at hscan
    cases htokens : Scan.tokensFrom ⟨0, 0, e.startingDelimiters asked⟩ text.toList with
    | ok ts =>
      rw [htokens] at hscan
      cases hscan
    | error e'' =>
      rw [htokens] at hscan
      cases hscan
      exact Scan.tokensFrom_malformed htokens
  | ok ts =>
    cases htree : Tree.ofTokens e.pragmas ts with
    | error e' =>
      rw [compile_of_parse_error hscan htree] at h
      cases h
      rcases (Tree.ofTokens_eq_error_iff (Scan.fresh_scan hscan)).1 htree with
        ⟨_, _, _, _, -, -, hrefuses⟩ | ⟨_, _, _, -, -, rfl⟩
      · exact hrefuses.malformed
      · exact ⟨_, _, rfl⟩
    | ok tree =>
      obtain ⟨p, hp⟩ : ∃ p, Program.compile e.digest e.pragmas e.compileSettings name text
          tree.nodes = .ok p := Program.exists_compile hscan htree e.digest e.compileSettings
      rw [compile_of_parsed hscan htree, hp] at h
      cases h

/-! ## Loaders in memory -/

/-- **A loader holds its texts in memory**: it has no files to read, and where
it gives no text it does not know the name. -/
inductive Loader.InMemory : Loader → Prop
  | verbatim : InMemory .verbatim
  | table (ref : Nat) : InMemory (.table ref)
  | fixed (templates : Entries String) : InMemory (.fixed templates)
  | cascade {loaders : List Loader} :
      (∀ loader ∈ loaders, InMemory loader) → InMemory (.cascade loaders)
  | given {load : String → Except Error Loaded} :
      (∀ name, (∃ text, load name = .ok (.text text)) ∨
        ∃ unknown, load name = .error (.unknownTemplate unknown)) → InMemory (.given load)

/-- A text, or the error that a name is unknown. -/
inductive Loaded.TextOrUnknown : Except Error Loaded → Prop
  | text (text : String) : TextOrUnknown (.ok (.text text))
  | unknown (name : String) : TextOrUnknown (.error (.unknownTemplate name))

/-- Work that looks at tables only and changes nothing: it gives a text, or does
not know the name. -/
def ReadsTables (work : OnStore Loaded) : Prop :=
  ∀ tables, ∃ result, Loaded.TextOrUnknown result ∧
    ∀ s : Store, s.tables = tables → outcome work s = (result, s)

namespace Loader

theorem readsTables_inTable (templates : Entries String) (name : String) (tables) :
    ∃ result, Loaded.TextOrUnknown result ∧
      ∀ s : Store, s.tables = tables → outcome (inTable templates name) s = (result, s) := by
  unfold inTable
  cases Entries.get? templates name with
  | some text => exact ⟨_, .text text, fun _ _ => rfl⟩
  | none => exact ⟨_, .unknown name, fun _ _ => rfl⟩

theorem readsTables_firstKnown (name : String) {loads : List (OnStore Loaded)}
    (h : ∀ load ∈ loads, ReadsTables load) : ReadsTables (firstKnown name loads) := by
  intro tables
  induction loads with
  | nil => exact ⟨_, .unknown name, fun _ _ => rfl⟩
  | cons load loads ih =>
    obtain ⟨hload, hloads⟩ := List.forall_mem_cons.1 h
    obtain ⟨result, hresult, houtcome⟩ := hload tables
    cases hresult with
    | text text =>
      refine ⟨_, .text text, fun s hs => ?_⟩
      rw [firstKnown, outcome_tryCatch, houtcome s hs]
    | unknown unknown =>
      obtain ⟨result, hresult, hmore⟩ := ih hloads
      refine ⟨result, hresult, fun s hs => ?_⟩
      rw [firstKnown, outcome_tryCatch, houtcome s hs]
      exact hmore s hs

theorem readsTables_loads (name : String) {loaders : List Loader}
    (h : ∀ loader ∈ loaders, ReadsTables (loader.load name)) :
    ∀ load ∈ loads loaders name, ReadsTables load := by
  induction loaders with
  | nil => exact nofun
  | cons loader loaders ih =>
    obtain ⟨hloader, hloaders⟩ := List.forall_mem_cons.1 h
    rw [loads]
    exact List.forall_mem_cons.2 ⟨hloader, ih hloaders⟩

/-- **A loader in memory looks at tables only.** -/
theorem InMemory.readsTables {loader : Loader} (h : loader.InMemory) (name : String) :
    ReadsTables (loader.load name) := by
  induction h with
  | verbatim => exact fun tables => ⟨_, .text name, fun _ _ => by rw [Loader.load]; rfl⟩
  | table ref =>
    intro tables
    obtain ⟨result, hresult, houtcome⟩ :=
      readsTables_inTable ((tables.get? ref).getD []) name tables
    refine ⟨result, hresult, fun s hs => ?_⟩
    rw [← houtcome s hs, ← hs, Loader.load]
    rfl
  | fixed templates =>
    intro tables
    rw [Loader.load]
    exact readsTables_inTable templates name tables
  | cascade _ ih =>
    rw [Loader.load]
    exact readsTables_firstKnown name (readsTables_loads name ih)
  | given hgiven =>
    intro tables
    rcases hgiven name with ⟨text, htext⟩ | ⟨unknown, hunknown⟩
    · refine ⟨_, .text text, fun s _ => ?_⟩
      rw [Loader.load, htext]
      rfl
    · refine ⟨_, .unknown unknown, fun s _ => ?_⟩
      rw [Loader.load, hunknown]
      rfl

/-- A name that is unknown is no error any more. -/
theorem InMemory.loadKnown {loader : Loader} (h : loader.InMemory) (name : String) (s : Store) :
    (∃ text, (outcome (loader.load name) s).1 = .ok (.text text) ∧
      outcome (Engine.loadKnown loader name) s = (.ok (some (.text text)), s)) ∨
    (∃ unknown, (outcome (loader.load name) s).1 = .error (.unknownTemplate unknown)) ∧
      outcome (Engine.loadKnown loader name) s = (.ok none, s) := by
  obtain ⟨result, hresult, houtcome⟩ := h.readsTables name s.tables
  have hload := houtcome s rfl
  unfold Engine.loadKnown
  rw [outcome_tryCatch, outcome_bind, hload]
  cases hresult with
  | text text => exact .inl ⟨text, rfl, rfl⟩
  | unknown unknown => exact .inr ⟨⟨unknown, rfl⟩, rfl⟩

end Loader

/-! ## Caches that fail -/

/-- **The cache fails over a text**: it gives an error where the program of the
text is loaded from it under its class name, or stored in it, in a store with
these tables. -/
inductive Engine.CacheFails (e : Engine) (tables : Pool (Entries String)) (text : String) :
    Error → Prop
  | load {s : Store} {err : Error} : s.tables = tables →
      (outcome (e.cache.load (e.classNameOf (e.textFingerprint text none))) s).1 = .error err →
      CacheFails e tables text err
  | save {s : Store} {p : Program} {err : Error} : s.tables = tables →
      e.compiled text none = .ok p →
      (outcome (e.cache.save (e.classNameOf (e.textFingerprint text none)) p.store) s).1 =
        .error err →
      CacheFails e tables text err

/-- A cache in memory never fails, and neither does none. -/
theorem Engine.not_cacheFails {e : Engine} (hcache : e.cache.Internal)
    {tables : Pool (Entries String)} {text : String} {err : Error} :
    ¬ e.CacheFails tables text err := by
  have hload (key : String) (s : Store) : (outcome (e.cache.load key) s).1 ≠ .error err := by
    obtain ⟨found, hload⟩ := Cache.exists_outcome_load hcache key s
    rw [hload]
    nofun
  have hsave (key : String) (p : Program) (s : Store) :
      (outcome (e.cache.save key p.store) s).1 ≠ .error err := by
    obtain ⟨s', hsave, -⟩ := Cache.exists_outcome_save hcache key p s
    rw [hsave]
    nofun
  rintro (⟨-, h⟩ | ⟨-, -, h⟩)
  · exact hload _ _ h
  · exact hsave _ _ _ h

theorem keepsTables_load (cache : Cache) (key : String) :
    Keeps Store.tables (cache.load key) := by
  cases cache with
  | disabled => exact .pure _
  | memory ref => exact fun _ => rfl
  | folder path mode =>
    refine Keeps.bind .get fun s => ?_
    dsimp only
    split
    · exact .pure _
    · split
      · exact .pure _
      · exact .throw _
  | given load save => exact .ofExcept _

theorem keepsTables_save (cache : Cache) (key stored : String) :
    Keeps Store.tables (cache.save key stored) := by
  cases cache with
  | disabled => exact .pure _
  | memory ref => exact fun _ => rfl
  | folder path mode =>
    have hset (s : Store) (files : FileTree) :
        (outcome (set { s with files } : OnStore PUnit) s).2.tables = s.tables := rfl
    have hparent : Keeps Store.tables (Cache.makeParent (Cache.fileName path key)) := by
      intro s
      unfold Cache.makeParent
      rw [outcome_bind, outcome_get, andThen_ok]
      dsimp only
      split
      · rfl
      · split
        · exact hset s _
        · rfl
    have hfile : Keeps Store.tables (Cache.writeFile (Cache.fileName path key) stored mode) := by
      intro s
      unfold Cache.writeFile
      rw [outcome_bind, outcome_get, andThen_ok]
      split
      · exact hset s _
      · rfl
    exact .bind hparent fun _ => hfile
  | given load save => exact .ofExcept _

/-! ## Asking for a partial -/

namespace Engine

variable {e : Engine} {start : Store}

/-- **What a render may fail with**, begun with a store: a filter is unknown; the
text that is loaded for the name of a partial or parent is malformed; or the
cache fails over that text. -/
inductive MayFail (e : Engine) (start : Store) : Error → Prop
  | filter (name : String) : MayFail e start (.unknownFilter name)
  | malformed {loader : Loader} {name text : String} {fault : Fault} {token : Token} :
      e.partialLoader? = some loader → (outcome (loader.load name) start).1 = .ok (.text text) →
      e.compiled text none = .error (.malformed fault token) →
      MayFail e start (.malformed fault token)
  | cache {loader : Loader} {name text : String} {err : Error} :
      e.partialLoader? = some loader → (outcome (loader.load name) start).1 = .ok (.text text) →
      e.CacheFails start.tables text err → MayFail e start err

/-- Asking for the program of a text fails where the text is malformed, or where
the cache fails over it. -/
theorem yields_program {text : String} {E : Error → Prop} {tables : Pool (Entries String)}
    (hcompile : ∀ err, e.compiled text none = .error err → E err)
    (hcache : ∀ err, e.CacheFails tables text err → E err) :
    Yields (fun s => s.tables = tables) (fun _ => True) E
      (e.program (.text text) none e.cache) := by
  have hload : Yields (fun s => s.tables = tables) (fun _ => True) E
      (e.cache.load (e.classNameOf (e.textFingerprint text none))) :=
    .of_keeps (keepsTables_load e.cache _) fun _ err hs h => hcache err (.load hs h)
  have hsave {p : Program} (hp : e.compiled text none = .ok p) :
      Yields (fun s => s.tables = tables) (fun _ => True) E
        (e.cache.save (e.classNameOf (e.textFingerprint text none)) p.store) :=
    .of_keeps (keepsTables_save e.cache _ _) fun _ err hs h => hcache err (.save hs hp h)
  have hmemo (key : String) : Yields (fun s => s.tables = tables) (fun _ => True) E
      (OnStore.memo? e.memo key) := fun _ hs => ⟨.ok trivial, hs⟩
  have hkeep (key : String) (p : Program) : Yields (fun s => s.tables = tables) (fun _ => True) E
      (OnStore.keepProgram e.memo key p) := fun _ hs => ⟨.ok trivial, hs⟩
  have hcompiled : EndsIn (fun p => e.compiled text none = .ok p) E (e.compiled text none) := by
    cases hresult : e.compiled text none with
    | ok p => exact .ok rfl
    | error err => exact .error (hcompile err hresult)
  have hfetch : Yields (fun s => s.tables = tables) (fun _ => True) E
      (e.fetch (.text text) none (e.classNameOf (e.textFingerprint text none)) e.cache) := by
    refine .bind hload fun stored _ => ?_
    split
    · exact .pure trivial
    · refine .bind (V := (· = text)) (.pure rfl) ?_
      rintro _ rfl
      exact .bind (.liftM hcompiled) fun p hp => .bind (hsave hp) fun _ _ => .pure trivial
  refine .bind (V := (· = e.classNameOf (e.textFingerprint text none))) (.pure rfl) ?_
  rintro _ rfl
  refine .bind (hmemo _) fun found _ => ?_
  cases found with
  | some p => exact .pure trivial
  | none => exact .bind hfetch fun p _ => .bind (hkeep _ p) fun _ _ => .pure trivial

variable (hmemory : ∀ loader ∈ e.partialLoader?, loader.InMemory)

include hmemory

/-- **Asking for a partial** fails for no other reason: that its name is unknown
is no error. -/
theorem yields_partialProgram (start : Store) (name : String) :
    Yields (fun s => s.tables = start.tables) (fun _ => True) (e.MayFail start)
      (e.partialProgram name) := by
  unfold partialProgram
  split
  · exact .pure trivial
  · next loader hloader =>
    have hknown : Yields (fun s => s.tables = start.tables)
        (fun found => ∀ loaded ∈ found, ∃ text, loaded = .text text ∧
          (outcome (loader.load name) start).1 = .ok (.text text))
        (e.MayFail start) (loadKnown loader name) := by
      intro s hs
      obtain ⟨result, -, houtcome⟩ := (hmemory loader hloader).readsTables name start.tables
      rcases (hmemory loader hloader).loadKnown name s with
        ⟨text, htext, hknown⟩ | ⟨-, hknown⟩ <;> rw [hknown]
      · refine ⟨.ok ?_, hs⟩
        rintro _ ⟨⟩
        refine ⟨text, rfl, ?_⟩
        rw [houtcome start rfl]
        rwa [houtcome s hs] at htext
      · exact ⟨.ok fun _ hloaded => absurd hloaded (Option.not_mem_none _), hs⟩
    refine .bind hknown fun found hfound => ?_
    cases found with
    | none => exact .pure trivial
    | some loaded =>
      obtain ⟨text, rfl, htext⟩ := hfound loaded rfl
      refine .bind (yields_program ?_ fun _ => .cache hloader htext) fun p _ => .pure trivial
      intro err herr
      obtain ⟨fault, token, rfl⟩ := compile_malformed herr
      exact .malformed hloader htext herr

/-- A partial that the loader does not know leaves no trace. -/
theorem outcome_partialProgram_unknown {name : String} {s : Store}
    (h : ∀ loader ∈ e.partialLoader?, ∀ text,
      (outcome (loader.load name) s).1 ≠ .ok (.text text)) :
    outcome (e.partialProgram name) s = (.ok none, s) := by
  unfold partialProgram
  split
  · rfl
  · next loader hloader =>
    rcases (hmemory loader hloader).loadKnown name s with ⟨text, htext, -⟩ | ⟨-, hknown⟩
    · exact absurd htext (h loader hloader text)
    · rw [outcome_bind, hknown]
      rfl

end Engine

end Mustache
