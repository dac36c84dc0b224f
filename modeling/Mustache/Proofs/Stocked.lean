import Mustache.Proofs.Caching
import Mustache.Proofs.Closed
import Mustache.Proofs.Files
/-!
# Mustache — what engines hand out

A program is made if an engine has compiled it. Engines also hand out
programs that they find: at hand, in a cache in memory, in the files of a
folder, or with functions that serve as a cache. If all that is found there
was made, as it is in a store that only engines have worked on
(`Store.Stocked`), then all that engines hand out is made, and the store stays
stocked (`matches_program`). Made programs are closed (`Program.Made.closed`).

Runs are looked at side by side with themselves, `Both I` being the states, or
the results, of which `I` holds.
-/

namespace Mustache

/-! ## What loaders leave alone -/

namespace Store

/-- What programs are found in: the files, the caches in memory and what is at
hand. -/
def finds (s : Store) : FileTree × Pool (Entries String) × Pool (Entries Program) :=
  (s.files, s.caches, s.memos)

/-- Programs are found only as loaders go: nothing is added. -/
abbrev Still {α : Type} (work : OnStore α) : Prop := Keeps finds work

end Store

open Store (Still)

theorem still_readText (path : String) : Still (FileSource.readText path) := by
  refine Keeps.bind .get fun s => ?_
  split
  · exact .pure _
  · exact .throw _

theorem still_remembered (folder : TemplateFolder) (name : String)
    {fetch : String → OnStore Loaded} (h : ∀ path, Still (fetch path)) :
    Still (folder.remembered name fetch) := by
  have hreading : Still (OnStore.reading? folder.readings name) := fun _ => rfl
  have hfind : Still (folder.find name) := by
    refine Keeps.bind .get fun s => ?_
    split
    · exact .pure _
    · exact .throw _
  have hkeep (loaded : Loaded) : Still (OnStore.keepReading folder.readings name loaded) :=
    fun _ => rfl
  refine Keeps.bind hreading fun found => ?_
  cases found with
  | some loaded => exact .pure loaded
  | none =>
    exact .bind hfind fun path => .bind (h path) fun loaded => .bind (hkeep loaded) fun _ =>
      .pure loaded

theorem still_inTable (templates : Entries String) (name : String) :
    Still (Loader.inTable templates name) := by
  unfold Loader.inTable
  split
  · exact .pure _
  · exact .throw _

theorem still_firstKnown (name : String) {loads : List (OnStore Loaded)}
    (h : ∀ load ∈ loads, Still load) : Still (Loader.firstKnown name loads) := by
  induction loads with
  | nil => exact .throw _
  | cons load loads ih =>
    obtain ⟨hload, hloads⟩ := List.forall_mem_cons.1 h
    refine Keeps.tryCatch hload fun e => ?_
    split
    · exact ih hloads
    · exact .throw _

mutual

theorem still_load (name : String) : ∀ loader : Loader, Still (loader.load name)
  | .verbatim => by
    rw [Loader.load]
    exact .pure _
  | .table ref => by
    have htable : Still (OnStore.table ref) := fun _ => rfl
    rw [Loader.load]
    exact .bind htable fun templates => still_inTable templates name
  | .fixed templates => by
    rw [Loader.load]
    exact still_inTable templates name
  | .cascade loaders => by
    rw [Loader.load]
    exact still_firstKnown name (still_loads name loaders)
  | .folder place => by
    rw [Loader.load]
    exact still_remembered place name fun path => .bind (still_readText path) fun _ => .pure _
  | .sources place properties => by
    have hsource (source : FileSource) : Still (OnStore.newSource source) := fun _ => rfl
    rw [Loader.load]
    exact still_remembered place name fun path => .bind (hsource _) fun _ => .pure _
  | .given load => by
    rw [Loader.load]
    exact .ofExcept (load name)

theorem still_loads (name : String) : ∀ loaders : List Loader,
    ∀ load ∈ Loader.loads loaders name, Still load
  | [] => nofun
  | loader :: loaders => by
    rw [Loader.loads]
    exact List.forall_mem_cons.2 ⟨still_load name loader, still_loads name loaders⟩

end

theorem still_key (source : Source) : Still source.key := by
  cases source with
  | given key text => exact .ofExcept key
  | file ref =>
    have hsource : Still (OnStore.source ref) := fun _ => rfl
    have hset (source : FileSource) : Still (OnStore.setSource ref source) := fun _ => rfl
    have hproperties : Still (FileSource.readProperties ref) := by
      refine Keeps.bind hsource fun source => ?_
      split
      · exact .pure _
      · refine Keeps.bind .get fun s => ?_
        dsimp only
        split
        · exact .bind (hset _) fun _ => .pure _
        · exact .throw _
    refine Keeps.bind hsource fun source => ?_
    split
    · exact .pure _
    · exact .bind hproperties fun _ => .pure _

theorem still_text (source : Source) : Still source.text := by
  cases source with
  | given key text => exact .ofExcept text
  | file ref =>
    have hsource : Still (OnStore.source ref) := fun _ => rfl
    exact .bind hsource fun source => still_readText source.path

/-! ## What caches hold -/

namespace Store

/-- **What saving does**: nothing is found afterwards in a cache or in a file
but what was found before, and the text that was saved. -/
structure Saves (stored : String) (s s' : Store) : Prop where
  memos : s'.memos = s.memos
  caches : ∀ ref key found, Entries.get? ((s'.caches.get? ref).getD []) key = some found →
    found = stored ∨ Entries.get? ((s.caches.get? ref).getD []) key = some found
  files : ∀ path text, s'.files.ReadsAt path text → text = stored ∨ s.files.ReadsAt path text

namespace Saves

variable {stored : String} {s s' s'' : Store}

theorem refl (stored : String) (s : Store) : Saves stored s s :=
  ⟨rfl, fun _ _ _ => .inr, fun _ _ => .inr⟩

theorem trans (h : Saves stored s s') (h' : Saves stored s' s'') : Saves stored s s'' := by
  refine ⟨h'.memos.trans h.memos, ?_, ?_⟩
  · intro ref key found hfound
    rcases h'.caches ref key found hfound with hnew | hold
    · exact .inl hnew
    · exact h.caches ref key found hold
  · intro path text hreads
    rcases h'.files path text hreads with hnew | hold
    · exact .inl hnew
    · exact h.files path text hold

/-- Files that have got nothing but the text. -/
theorem of_gains {files : FileTree} {content : Option (List UInt8)}
    (h : s.files.Gains content files)
    (hcontent : ∀ bytes ∈ content, bytes = Text.bytesOf stored) :
    Saves stored s { s with files } := by
  refine ⟨rfl, fun _ _ _ => .inr, fun path text hreads => ?_⟩
  rcases h.readsAt hreads with ⟨bytes, hbytes, hdecode⟩ | hold
  · rw [hcontent bytes hbytes, Text.decode?_bytesOf] at hdecode
    exact .inl (Option.some.inj hdecode).symm
  · exact .inr hold

end Saves

end Store

open Store (Saves)

theorem saves_keepCached (ref : Nat) (key stored : String) (s : Store) :
    Saves stored s (outcome (OnStore.keepCached ref key stored) s).2 :=
  ⟨rfl, fun _ _ _ hfound => (Pool.get?_putEntry hfound).imp_left And.right, fun _ _ => .inr⟩

namespace Cache

/-- **All that a cache may hand out is of one kind**: what is in its table,
what stands in its files, what its function gives. -/
def Holds (P : String → Prop) (s : Store) : Cache → Prop
  | .disabled => True
  | .memory ref => ∀ key stored,
    Entries.get? ((s.caches.get? ref).getD []) key = some stored → P stored
  | .folder path _ => ∀ key stored, s.files.ReadsAt (fileName path key) stored → P stored
  | .given load _ => ∀ key stored, load key = .ok (some stored) → P stored

variable {P : String → Prop} {s s' : Store} {cache : Cache}

/-- What is loaded is of that kind, and loading changes nothing. -/
theorem Holds.load (h : cache.Holds P s) (key : String) :
    (∀ stored, (outcome (cache.load key) s).1 = .ok (some stored) → P stored) ∧
      (outcome (cache.load key) s).2 = s := by
  cases cache with
  | disabled => exact ⟨nofun, rfl⟩
  | memory ref =>
    refine ⟨fun stored hstored => h key stored ?_, rfl⟩
    exact Except.ok.inj hstored
  | folder path mode =>
    unfold Cache.load
    rw [outcome_bind, outcome_get, andThen_ok]
    dsimp only
    split
    · exact ⟨nofun, rfl⟩
    · split
      · next text htext =>
        refine ⟨fun stored hstored => ?_, rfl⟩
        cases hstored
        exact h key text (FileTree.readsAt_of_readText htext)
      · exact ⟨nofun, rfl⟩
  | given load save =>
    unfold Cache.load
    rw [outcome_liftM]
    exact ⟨h key, rfl⟩

/-- What a cache holds stays of that kind when something of that kind is
saved, in this cache or in another one. -/
theorem Holds.of_saves (h : cache.Holds P s) {stored : String} (hstored : P stored)
    (hsaves : Saves stored s s') : cache.Holds P s' := by
  cases cache with
  | disabled => exact trivial
  | memory ref =>
    intro key found hfound
    rcases hsaves.caches ref key found hfound with rfl | hold
    · exact hstored
    · exact h key found hold
  | folder path mode =>
    intro key text hreads
    rcases hsaves.files _ text hreads with rfl | hold
    · exact hstored
    · exact h key text hold
  | given load save => exact h

/-- A cache looks at files and caches in memory only. -/
theorem Holds.congr (h : cache.Holds P s) (hfiles : s'.files = s.files)
    (hcaches : s'.caches = s.caches) : cache.Holds P s' := by
  cases cache with
  | disabled => exact trivial
  | memory ref =>
    rw [Holds, hcaches]
    exact h
  | folder path mode =>
    rw [Holds, hfiles]
    exact h
  | given load save => exact h

theorem saves_makeParent (name stored : String) (s : Store) :
    Saves stored s (outcome (makeParent name) s).2 := by
  unfold makeParent
  rw [outcome_bind, outcome_get, andThen_ok]
  dsimp only
  split
  · exact .refl stored s
  · split
    · next files hmade => exact .of_gains (FileTree.gains_makeFolders hmade) nofun
    · exact .refl stored s

theorem saves_writeFile (name stored : String) (mode : Nat) (s : Store) :
    Saves stored s (outcome (writeFile name stored mode) s).2 := by
  unfold writeFile
  rw [outcome_bind, outcome_get, andThen_ok]
  split
  · next files hwritten =>
    refine .of_gains (FileTree.gains_write hwritten) ?_
    rintro _ ⟨⟩
    rfl
  · exact .refl stored s

/-- **Saving puts nothing but the stored text** anywhere. -/
theorem saves_save (cache : Cache) (key stored : String) (s : Store) :
    Saves stored s (outcome (cache.save key stored) s).2 := by
  cases cache with
  | disabled => exact .refl stored s
  | memory ref => exact saves_keepCached ref key stored s
  | folder path mode =>
    have hparent := saves_makeParent (fileName path key) stored s
    unfold save
    rw [outcome_bind]
    rcases hmade : outcome (makeParent (fileName path key)) s with ⟨e | made, s'⟩ <;>
      rw [hmade] at hparent
    · exact hparent
    · exact hparent.trans (saves_writeFile _ stored mode s')
  | given load save =>
    unfold Cache.save
    rw [outcome_liftM]
    exact .refl stored s

end Cache

/-! ## Programs that engines have made -/

/-- **A made program**: an engine has compiled it. -/
def Program.Made (p : Program) : Prop :=
  ∃ (e : Engine) (name text : String) (asked : Option Delimiters),
    e.compile name text asked = .ok p

/-- What is stored is a made program, or cannot be read. -/
def Program.MadeIfRead (stored : String) : Prop := ∀ p, restore? stored = some p → p.Made

namespace Program.Made

variable {p : Program}

/-- What is made, is made by the compiler. -/
theorem exists_compile (h : p.Made) : ∃ digest pragmas settings name source nodes,
    compile digest pragmas settings name source nodes = .ok p := by
  obtain ⟨e, name, text, asked, h⟩ := h
  obtain ⟨ts, -, h⟩ := exists_of_bind_eq_ok h
  obtain ⟨tree, -, h⟩ := exists_of_bind_eq_ok h
  exact ⟨_, _, _, _, _, _, h⟩

theorem closed (h : p.Made) : p.Closed := by
  obtain ⟨digest, pragmas, settings, name, source, nodes, h⟩ := h.exists_compile
  exact closed_of_compile h

theorem distinct (h : p.Made) : p.Distinct := by
  obtain ⟨digest, pragmas, settings, name, source, nodes, h⟩ := h.exists_compile
  exact distinct_of_compile h

/-- Read back, a made program is itself. -/
theorem madeIfRead_store (h : p.Made) : MadeIfRead p.store := by
  intro q hread
  rcases restore?_store h.distinct with hsome | hnone
  · rw [hsome] at hread
    cases hread
    exact h
  · rw [hnone] at hread
    cases hread

end Program.Made

open Program (Made MadeIfRead)

/-! ## Asking for programs -/

/-- **A stocked store**: the programs at hand are made, and so are those that
some caches hold. -/
structure Store.Stocked (caches : Cache → Prop) (s : Store) : Prop where
  memos : Holds s.memos fun _ => Made
  caches : ∀ cache, caches cache → cache.Holds MadeIfRead s

namespace Store.Stocked

variable {caches : Cache → Prop} {s s' : Store}

/-- A store in which the same is found. -/
theorem of_finds (h : s.Stocked caches) (hfinds : s'.finds = s.finds) : s'.Stocked caches := by
  obtain ⟨hfiles, hcaches, hmemos⟩ : s'.files = s.files ∧ s'.caches = s.caches ∧
      s'.memos = s.memos := by
    simpa only [finds, Prod.mk.injEq] using hfinds
  exact ⟨hmemos ▸ h.memos, fun cache hcache => (h.caches cache hcache).congr hfiles hcaches⟩

theorem of_saves (h : s.Stocked caches) {stored : String} (hstored : MadeIfRead stored)
    (hsaves : Saves stored s s') : s'.Stocked caches :=
  ⟨hsaves.memos ▸ h.memos, fun cache hcache => (h.caches cache hcache).of_saves hstored hsaves⟩

theorem keepProgram (h : s.Stocked caches) (ref : Nat) (key : String) {p : Program}
    (hp : p.Made) : (outcome (OnStore.keepProgram ref key p) s).2.Stocked caches :=
  ⟨h.memos.put ref hp, fun cache hcache => (h.caches cache hcache).congr rfl rfl⟩

end Store.Stocked

section Asking

variable {caches : Cache → Prop} {e : Engine} {cache : Cache}

/-- Work that adds nothing keeps the store stocked. -/
theorem matches_of_still {α : Type} {work : OnStore α} (h : Still work) :
    Matches (Both (Store.Stocked caches)) Eq work work :=
  matches_of_keeps h fun _ _ hfinds hs => hs.of_finds hfinds

namespace Engine

theorem matches_load (hcache : caches cache ∨ cache = .disabled) (key : String) :
    Matches (Both (Store.Stocked caches)) (Both fun found => ∀ stored ∈ found, MadeIfRead stored)
      (cache.load key) (cache.load key) := by
  rintro _ s ⟨rfl, hs⟩
  have hholds : cache.Holds MadeIfRead s := by
    rcases hcache with hcache | rfl
    · exact hs.caches cache hcache
    · exact trivial
  obtain ⟨hloaded, hafter⟩ := hholds.load key
  refine ⟨?_, rfl, ?_⟩
  swap
  · rw [hafter]
    exact hs
  cases hresult : (outcome (cache.load key) s).1 with
  | error e => exact .error e
  | ok found =>
    refine .ok ⟨rfl, ?_⟩
    rintro stored ⟨⟩
    exact hloaded stored hresult

theorem matches_save (key : String) {p : Program} (hp : p.Made) :
    Matches (Both (Store.Stocked caches)) Eq (cache.save key p.store) (cache.save key p.store) := by
  rintro _ s ⟨rfl, hs⟩
  refine ⟨?_, rfl, hs.of_saves hp.madeIfRead_store (cache.saves_save key p.store s)⟩
  cases (outcome (cache.save key p.store) s).1 with
  | error e => exact .error e
  | ok done => exact .ok rfl

theorem matches_compileAndSave (loaded : Loaded) (asked : Option Delimiters) (name : String) :
    Matches (Both (Store.Stocked caches)) (Both Made) (e.compileAndSave loaded asked name cache)
      (e.compileAndSave loaded asked name cache) := by
  have htext : Still (loadedText loaded) := by
    cases loaded with
    | text text => exact .pure text
    | source source => exact still_text source
  refine Matches.bind_same (matches_of_still htext) fun text => ?_
  have hcompile : Matches (Both (Store.Stocked caches)) (Both Made)
      (liftM (e.compile name text asked) : OnStore Program)
      (liftM (e.compile name text asked)) := by
    intro s t hst
    rw [outcome_liftM, outcome_liftM]
    refine ⟨?_, hst⟩
    cases hresult : e.compile name text asked with
    | error err => exact .error err
    | ok p => exact .ok ⟨rfl, e, name, text, asked, hresult⟩
  refine Matches.bind hcompile ?_
  rintro _ p ⟨rfl, hp⟩
  refine Matches.bind_same (matches_save name hp) fun _ => ?_
  exact Matches.pure ⟨rfl, hp⟩

theorem matches_fetch (hcache : caches cache ∨ cache = .disabled) (loaded : Loaded)
    (asked : Option Delimiters) (name : String) :
    Matches (Both (Store.Stocked caches)) (Both Made) (e.fetch loaded asked name cache)
      (e.fetch loaded asked name cache) := by
  refine Matches.bind (matches_load hcache name) ?_
  rintro _ found ⟨rfl, hfound⟩
  cases hread : found.bind Program.restore? with
  | some p =>
    obtain ⟨stored, hstored, hrestore⟩ := Option.bind_eq_some_iff.1 hread
    exact Matches.pure ⟨rfl, hfound stored hstored p hrestore⟩
  | none => exact matches_compileAndSave loaded asked name

/-- **All that an engine hands out is made**, and the store stays stocked. -/
theorem matches_programMade (hcache : caches cache ∨ cache = .disabled) (loaded : Loaded)
    (asked : Option Delimiters) :
    Matches (Both (Store.Stocked caches)) (Both Made) (e.program loaded asked cache)
      (e.program loaded asked cache) := by
  have hname : Still (e.className loaded asked) := by
    cases loaded with
    | text text => exact .pure _
    | source source => exact .bind (still_key source) fun _ => .pure _
  have hmemo (name : String) : Matches (Both (Store.Stocked caches))
      (Both fun found => ∀ p ∈ found, Made p) (OnStore.memo? e.memo name)
      (OnStore.memo? e.memo name) := by
    rintro _ s ⟨rfl, hs⟩
    refine ⟨.ok ⟨rfl, fun p hp => ?_⟩, rfl, hs⟩
    exact hs.memos.get? hp
  refine Matches.bind_same (matches_of_still hname) fun name => ?_
  refine Matches.bind (hmemo name) ?_
  rintro _ found ⟨rfl, hfound⟩
  cases found with
  | some p => exact Matches.pure ⟨rfl, hfound p rfl⟩
  | none =>
    refine Matches.bind (matches_fetch hcache loaded asked name) ?_
    rintro _ p ⟨rfl, hp⟩
    have hkeep : Matches (Both (Store.Stocked caches)) Eq (OnStore.keepProgram e.memo name p)
        (OnStore.keepProgram e.memo name p) := by
      rintro _ s ⟨rfl, hs⟩
      exact ⟨.ok rfl, rfl, hs.keepProgram e.memo name hp⟩
    refine Matches.bind_same hkeep fun _ => ?_
    exact Matches.pure ⟨rfl, hp⟩

section

variable (hcache : caches e.cache)

include hcache

theorem matches_templateMade (name : String) :
    Matches (Both (Store.Stocked caches)) (Both Made) (e.template name) (e.template name) := by
  refine Matches.bind_same (matches_of_still (still_load name e.loader)) fun loaded => ?_
  exact matches_programMade (.inl hcache) loaded none

theorem matches_partialMade (name : String) :
    Matches (Both (Store.Stocked caches)) (Both fun found => ∀ p ∈ found, Made p)
      (e.partialProgram name) (e.partialProgram name) := by
  unfold partialProgram
  split
  · exact Matches.pure ⟨rfl, nofun⟩
  · next loader _ =>
    have hknown : Still (loadKnown loader name) := by
      refine Keeps.tryCatch (.bind (still_load name loader) fun _ => .pure _) fun err => ?_
      split
      · exact .pure none
      · exact .throw _
    refine Matches.bind_same (matches_of_still hknown) fun found => ?_
    cases found with
    | none => exact Matches.pure ⟨rfl, nofun⟩
    | some loaded =>
      refine Matches.bind (matches_programMade (.inl hcache) loaded none) ?_
      rintro _ p ⟨rfl, hp⟩
      refine Matches.pure ⟨rfl, ?_⟩
      rintro _ ⟨⟩
      exact hp

theorem matches_lambdaMade (text : String) (asked : Option Delimiters) :
    Matches (Both (Store.Stocked caches)) (Both Made) (e.lambdaProgram text asked)
      (e.lambdaProgram text asked) := by
  have hlambda : caches e.lambdaCache ∨ e.lambdaCache = .disabled := by
    unfold lambdaCache
    split
    · exact .inl hcache
    · exact .inr rfl
  exact matches_programMade hlambda (.text text) (Delimiters.unlessStandard asked)

end

end Engine

end Asking

end Mustache
