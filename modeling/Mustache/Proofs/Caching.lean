import Mustache.Proofs.ClassNames
import Mustache.Proofs.Filed
import Mustache.Proofs.Run
/-!
# Mustache — what memos and caches hold

Engines that share a store also share what earlier calls left there: the
programs at hand and those in stored form. `Sound` is the invariant that
makes this safe. Whatever is filed under a class name is the program of a
text that has this class name, or cannot be read.

Asked for the program of a text, an engine therefore gives what compiling
the text gives, wherever it takes the program from, and it leaves the
store sound (`program_eq_compile`). The store apart from memos and caches
is not touched; `Store.bare` is that part.
-/

namespace Mustache

/-- What stands in a pool after a change was put there, or stood there before. -/
theorem Pool.get?_put {α : Type} {pool : Pool α} {ref other : Nat} {item found : α}
    (h : (pool.put ref item).get? other = some found) :
    (other = ref ∧ found = item) ∨ pool.get? other = some found := by
  by_cases heq : other = ref
  · subst heq
    cases hget : pool.get? other with
    | none =>
      have hlen : pool.items.length ≤ other := List.getElem?_eq_none_iff.1 hget
      rw [put, get?, List.set_eq_of_length_le hlen] at h
      exact .inr (hget ▸ h)
    | some item' =>
      rw [get?_put_self item hget] at h
      exact .inl ⟨rfl, (Option.some.inj h).symm⟩
  · rw [get?_put_of_ne pool item heq] at h
    exact .inr h

/-- What stands in the tables of a pool after an entry was put into one of them. -/
theorem Pool.get?_putEntry {α : Type} {pool : Pool (Entries α)} {ref other : Nat}
    {key name : String} {a found : α}
    (h : Entries.get? (((pool.put ref
      (Entries.insert ((pool.get? ref).getD []) key a)).get? other).getD []) name = some found) :
    (name = key ∧ found = a) ∨
      Entries.get? ((pool.get? other).getD []) name = some found := by
  cases htable : (pool.put ref (Entries.insert ((pool.get? ref).getD []) key a)).get? other with
  | none =>
    rw [htable] at h
    cases h
  | some table =>
    rw [htable, Option.getD_some] at h
    rcases Pool.get?_put htable with ⟨rfl, rfl⟩ | hold
    · exact (Entries.get?_insert h).imp_right And.right
    · rw [hold]
      exact .inr h

namespace Store

/-- The store without memos and caches. -/
def bare (s : Store) : Store := { s with caches := .empty, memos := .empty }

/-- Every table of a pool has only entries of one kind. -/
def Holds {α : Type} (pool : Pool (Entries α)) (P : String → α → Prop) : Prop :=
  ∀ ref table, pool.get? ref = some table → ∀ key a, Entries.get? table key = some a → P key a

section

variable {α : Type} {pool : Pool (Entries α)} {P : String → α → Prop}

theorem Holds.get? (h : Holds pool P) {ref : Nat} {key : String} {a : α}
    (hget : Entries.get? ((pool.get? ref).getD []) key = some a) : P key a := by
  cases htable : pool.get? ref with
  | none =>
    rw [htable] at hget
    cases hget
  | some table =>
    rw [htable] at hget
    exact h ref table htable key a hget

/-- Putting an entry of that kind into a table. -/
theorem Holds.put (h : Holds pool P) (ref : Nat) {key : String} {a : α} (ha : P key a) :
    Holds (pool.put ref (Entries.insert ((pool.get? ref).getD []) key a)) P := by
  intro other table htable name found hget
  have hentry : Entries.get? (((pool.put ref
      (Entries.insert ((pool.get? ref).getD []) key a)).get? other).getD []) name = some found := by
    rw [htable]
    exact hget
  rcases Pool.get?_putEntry hentry with ⟨rfl, rfl⟩ | hold
  · exact ha
  · exact h.get? hold

end

end Store

/-! ## Programs that are at hand -/

/-- A program is what compiling gives for a text that has this class
name. -/
def Compiled (digest : String → String) (key : String) (p : Program) : Prop :=
  ∃ (e : Engine) (text : String) (asked : Option Delimiters), e.digest = digest ∧ e.HasAccepted ∧
    AcceptedIfAny asked ∧ key = e.classNameOf (e.textFingerprint text asked) ∧
    e.compile key text asked = .ok p

/-- What a cache holds under a class name: a program of that name, or
something that cannot be read. -/
def Kept (digest : String → String) (key stored : String) : Prop :=
  Program.restore? stored = none ∨ ∃ p, Compiled digest key p ∧ stored = p.store

/-- The template is there as text. -/
def Loaded.IsText (loaded : Loaded) : Prop := ∃ text, loaded = .text text

/-- **A sound store**: memos and caches hold under a class name what
compiling gives, and what loaders keep from folders are texts. -/
structure Store.Sound (digest : String → String) (s : Store) : Prop where
  memos : Holds s.memos (Compiled digest)
  caches : Holds s.caches (Kept digest)
  readings : Holds s.readings fun _ => Loaded.IsText

section Programs

variable {digest : String → String} {e : Engine} {text key : String} {asked : Option Delimiters}

/-- A text that cannot be scanned has no program. -/
theorem Engine.compile_of_scan_error {err : Error}
    (h : Token.scan (e.startingDelimiters asked) text = .error err) (name : String) :
    e.compile name text asked = .error err := by
  unfold Engine.compile
  rw [h]
  rfl

/-- A text that cannot be parsed has no program. -/
theorem Engine.compile_of_parse_error {ts : List Token} {err : Error}
    (hscan : Token.scan (e.startingDelimiters asked) text = .ok ts)
    (h : Tree.ofTokens e.pragmas ts = .error err) (name : String) :
    e.compile name text asked = .error err := by
  unfold Engine.compile
  rw [hscan]
  change Tree.ofTokens e.pragmas ts >>= _ = _
  rw [h]
  rfl

/-- A text that is parsed goes to the compiler. -/
theorem Engine.compile_of_parsed {ts : List Token} {tree : Tree}
    (hscan : Token.scan (e.startingDelimiters asked) text = .ok ts)
    (htree : Tree.ofTokens e.pragmas ts = .ok tree) (name : String) :
    e.compile name text asked =
      Program.compile e.digest e.pragmas e.compileSettings name text tree.nodes := by
  unfold Engine.compile
  rw [hscan]
  change Tree.ofTokens e.pragmas ts >>= _ = _
  rw [htree]
  rfl

/-- Compiling gives programs whose sections may ask for their delimiters,
and that are told from their stored form. -/
theorem Engine.filed_compile {name : String} {p : Program} (h : e.compile name text asked = .ok p)
    (he : e.HasAccepted) (hasked : AcceptedIfAny asked) :
    p.Distinct ∧
      ∀ key body, Entries.get? p.sections key = some body → AcceptedIfAny body.delimiters := by
  unfold Engine.compile at h
  obtain ⟨ts, hscan, h⟩ := exists_of_bind_eq_ok h
  obtain ⟨tree, htree, h⟩ := exists_of_bind_eq_ok h
  exact Program.filed_compile h (fun t _ ht _ => AcceptedIfAny.unlessStandard ht)
    (Tree.accepted_nodes hscan htree (he.startingDelimiters hasked))

/-- What is at hand under the class name of a text is its program. -/
theorem Compiled.eq_compile {p : Program} (hfree : CollisionFree digest)
    (hdigest : e.digest = digest) (he : e.HasAccepted) (hasked : AcceptedIfAny asked)
    (h : Compiled digest (e.classNameOf (e.textFingerprint text asked)) p) :
    e.compile (e.classNameOf (e.textFingerprint text asked)) text asked = .ok p := by
  obtain ⟨e', text', asked', hdigest', he', hasked', hname, hcompile⟩ := h
  rw [Engine.compile_eq_of_className (hdigest ▸ hfree) (hdigest'.trans hdigest.symm) he he' hasked
    hasked' hname]
  exact hcompile

/-- Read back, a stored program is the one that was compiled. -/
theorem Kept.eq_compiled {stored : String} {p : Program} (h : Kept digest key stored)
    (hread : Program.restore? stored = some p) : Compiled digest key p := by
  rcases h with hnone | ⟨p', hcompiled, rfl⟩
  · rw [hnone] at hread
    cases hread
  · obtain ⟨e, text, asked, -, he, hasked, -, hcompile⟩ := id hcompiled
    rcases Program.restore?_store (e.filed_compile hcompile he hasked).1 with hsome | hnone
    · rw [hsome] at hread
      cases hread
      exact hcompiled
    · rw [hnone] at hread
      cases hread

end Programs

/-! ## Asking for a program -/

namespace Store

/-- **What is new in a store** in which a program was asked for: at most that
program, under its class name, at hand and in stored form. If there is no such
program, nothing is new. -/
structure Gains (key : String) (result : Except Error Program) (s s' : Store) : Prop where
  bare : s'.bare = s.bare
  memos : ∀ ref name p, Entries.get? ((s'.memos.get? ref).getD []) name = some p →
    (name = key ∧ result = .ok p) ∨ Entries.get? ((s.memos.get? ref).getD []) name = some p
  caches : ∀ ref name stored, Entries.get? ((s'.caches.get? ref).getD []) name = some stored →
    (name = key ∧ ∃ p, result = .ok p ∧ stored = p.store) ∨
      Entries.get? ((s.caches.get? ref).getD []) name = some stored
  failed : ∀ err, result = .error err → s' = s

namespace Gains

variable {digest : String → String} {key : String} {result : Except Error Program} {p : Program}
variable {s s₁ s' : Store}

theorem refl (key : String) (result : Except Error Program) (s : Store) : Gains key result s s :=
  ⟨rfl, fun _ _ _ h => .inr h, fun _ _ _ h => .inr h, fun _ _ => rfl⟩

theorem trans (h : Gains key result s s₁) (h' : Gains key result s₁ s') :
    Gains key result s s' where
  bare := h'.bare.trans h.bare
  memos ref name p hget := (h'.memos ref name p hget).elim .inl (h.memos ref name p)
  caches ref name stored hget :=
    (h'.caches ref name stored hget).elim .inl (h.caches ref name stored)
  failed err herr := (h'.failed err herr).trans (h.failed err herr)

theorem keepProgram (ref : Nat) (key : String) (p : Program) (s : Store) :
    Gains key (.ok p) s (outcome (OnStore.keepProgram ref key p) s).2 where
  bare := rfl
  memos _ _ _ hget := (Pool.get?_putEntry hget).imp_left fun h => ⟨h.1, congrArg _ h.2.symm⟩
  caches _ _ _ hget := .inr hget
  failed := nofun

theorem keepCached (ref : Nat) (key : String) (p : Program) (s : Store) :
    Gains key (.ok p) s (outcome (OnStore.keepCached ref key p.store) s).2 where
  bare := rfl
  memos _ _ _ hget := .inr hget
  caches _ _ _ hget := (Pool.get?_putEntry hget).imp_left fun h => ⟨h.1, p, rfl, h.2⟩
  failed := nofun

/-- **A sound store stays sound** if what is new is what compiling gives. -/
theorem sound (h : Gains key result s s') (hs : s.Sound digest)
    (hnew : ∀ p, result = .ok p → Compiled digest key p) : s'.Sound digest where
  memos ref table htable name p hget := by
    have hfound : Entries.get? ((s'.memos.get? ref).getD []) name = some p := by
      rw [htable]
      exact hget
    rcases h.memos ref name p hfound with ⟨rfl, hresult⟩ | hold
    · exact hnew p hresult
    · exact hs.memos.get? hold
  caches ref table htable name stored hget := by
    have hfound : Entries.get? ((s'.caches.get? ref).getD []) name = some stored := by
      rw [htable]
      exact hget
    rcases h.caches ref name stored hfound with ⟨rfl, p, hresult, hstored⟩ | hold
    · exact .inr ⟨p, hnew p hresult, hstored⟩
    · exact hs.caches.get? hold
  readings := by
    have hsame : s'.bare.readings = s.bare.readings := congrArg Store.readings h.bare
    change Holds s'.bare.readings _
    rw [hsame]
    exact hs.readings

end Gains

end Store

/-- A cache that is off, or a table in the store. -/
inductive Cache.Internal : Cache → Prop
  | disabled : Internal .disabled
  | memory (ref : Nat) : Internal (.memory ref)

namespace Cache

open Store (Gains)

/-- Loading changes nothing. -/
theorem exists_outcome_load {cache : Cache} (h : cache.Internal) (key : String) (s : Store) :
    ∃ found, outcome (cache.load key) s = (.ok found, s) := by
  cases h <;> exact ⟨_, rfl⟩

/-- Saving a program adds that program. -/
theorem exists_outcome_save {cache : Cache} (h : cache.Internal) (key : String) (p : Program)
    (s : Store) :
    ∃ s', outcome (cache.save key p.store) s = (.ok (), s') ∧ Gains key (.ok p) s s' := by
  cases h with
  | disabled => exact ⟨s, rfl, .refl key (.ok p) s⟩
  | memory ref => exact ⟨_, rfl, .keepCached ref key p s⟩

end Cache

namespace Engine

open Store (Gains)

variable {digest : String → String} {e : Engine} {text text' : String}
variable {asked asked' : Option Delimiters} {cache : Cache} {s s' : Store}

/-- What an engine compiles under the class name of a text. -/
def compiled (e : Engine) (text : String) (asked : Option Delimiters) : Except Error Program :=
  e.compile (e.classNameOf (e.textFingerprint text asked)) text asked

theorem compiled_of_eq_ok {p : Program} (h : e.compiled text asked = .ok p)
    (hdigest : e.digest = digest) (he : e.HasAccepted) (hasked : AcceptedIfAny asked) :
    Compiled digest (e.classNameOf (e.textFingerprint text asked)) p :=
  ⟨e, text, asked, hdigest, he, hasked, rfl, h⟩

/-- **What is kept for a text is its program**: what the engine has at hand under
the class name of the text, and what a cache has there and can be read, is what
the text is compiled to. -/
structure Retains (e : Engine) (cache : Cache) (text : String) (asked : Option Delimiters)
    (s : Store) : Prop where
  memo : ∀ p, Entries.get? ((s.memos.get? e.memo).getD [])
    (e.classNameOf (e.textFingerprint text asked)) = some p → e.compiled text asked = .ok p
  cache : ∀ found p,
    (outcome (cache.load (e.classNameOf (e.textFingerprint text asked))) s).1 = .ok found →
    found.bind Program.restore? = some p → e.compiled text asked = .ok p

section

variable (hcache : cache.Internal) (he : e.HasAccepted) (hasked : AcceptedIfAny asked)

include hcache he hasked

/-- **A sound store keeps for each text its program**, if digests do not collide. -/
theorem retains_of_sound (hfree : CollisionFree digest) (hs : s.Sound digest)
    (hdigest : e.digest = digest) : e.Retains cache text asked s where
  memo p hp := (hs.memos.get? hp).eq_compile hfree hdigest he hasked
  cache found p hload hread := by
    obtain ⟨stored, rfl, hrestore⟩ := Option.bind_eq_some_iff.1 hread
    cases hcache with
    | disabled => cases hload
    | memory ref =>
      have hkept : Kept digest (e.classNameOf (e.textFingerprint text asked)) stored :=
        hs.caches.get? (Except.ok.inj hload)
      exact (hkept.eq_compiled hrestore).eq_compile hfree hdigest he hasked

/-- A store goes on keeping for a text its program when it gains that of another
one, if the two have different class names or one program. -/
theorem Retains.of_gains (h : e.Retains cache text' asked' s)
    (hgains : Gains (e.classNameOf (e.textFingerprint text asked)) (e.compiled text asked) s s')
    (hname : e.classNameOf (e.textFingerprint text' asked') =
      e.classNameOf (e.textFingerprint text asked) →
        e.compiled text' asked' = e.compiled text asked) :
    e.Retains cache text' asked' s' where
  memo p hp := by
    rcases hgains.memos _ _ _ hp with ⟨hsame, hresult⟩ | hold
    · exact (hname hsame).trans hresult
    · exact h.memo p hold
  cache found p hload hread := by
    obtain ⟨stored, rfl, hrestore⟩ := Option.bind_eq_some_iff.1 hread
    cases hcache with
    | disabled => cases hload
    | memory ref =>
      rcases hgains.caches ref _ stored (Except.ok.inj hload) with
        ⟨hsame, q, hresult, rfl⟩ | hold
      · rcases Program.restore?_store (e.filed_compile hresult he hasked).1 with hsome | hnone
        · rw [hsome] at hrestore
          cases hrestore
          exact (hname hsame).trans hresult
        · rw [hnone] at hrestore
          cases hrestore
      · exact h.cache _ p (congrArg Except.ok hold) hread

end

/-- Nothing is kept in a store without tables. -/
theorem retains_ofFiles (hcache : cache.Internal) (files : FileTree) :
    e.Retains cache text asked (.ofFiles files) where
  memo _ hp := nomatch hp
  cache found p hload hread := by
    cases hcache <;> cases hload <;> cases hread

/-- A run that gives what a text is compiled to, and adds at most that to the
store. -/
structure Gives (key : String) (result : Except Error Program) (work : OnStore Program)
    (s : Store) : Prop where
  result_eq : (outcome work s).1 = result
  gains : Gains key result s (outcome work s).2

section

variable {key : String} {result : Except Error Program} {work work' : OnStore Program}

theorem Gives.of_outcome_eq (h : outcome work s = outcome work' s)
    (hgives : Gives key result work' s) : Gives key result work s := by
  obtain ⟨hresult, hgains⟩ := hgives
  exact ⟨h ▸ hresult, h ▸ hgains⟩

/-- A program that is found is what compiling would give. -/
theorem gives_of_found {p : Program} (h : outcome work s = (.ok p, s)) (hp : result = .ok p) :
    Gives key result work s := by
  refine ⟨?_, ?_⟩ <;> rw [h]
  · exact hp.symm
  · exact .refl key result s

end

section

variable (hcache : cache.Internal)

include hcache

theorem gives_compileAndSave :
    Gives (e.classNameOf (e.textFingerprint text asked)) (e.compiled text asked)
      (e.compileAndSave (.text text) asked (e.classNameOf (e.textFingerprint text asked)) cache)
      s := by
  have houtcome : outcome (e.compileAndSave (.text text) asked
      (e.classNameOf (e.textFingerprint text asked)) cache) s =
      andThen (e.compiled text asked, s) fun p => outcome (do
        cache.save (e.classNameOf (e.textFingerprint text asked)) p.store
        return p) := by
    unfold compileAndSave loadedText
    rw [outcome_bind, outcome_pure, andThen_ok, outcome_bind, outcome_liftM]
    rfl
  cases hcompile : e.compiled text asked with
  | error err =>
    rw [hcompile, andThen_error] at houtcome
    refine ⟨?_, ?_⟩ <;> rw [houtcome]
    exact .refl _ _ s
  | ok p =>
    obtain ⟨s', hsave, hgains⟩ :=
      Cache.exists_outcome_save hcache (e.classNameOf (e.textFingerprint text asked)) p s
    rw [hcompile, andThen_ok, outcome_bind, hsave, andThen_ok, outcome_pure] at houtcome
    refine ⟨?_, ?_⟩ <;> rw [houtcome]
    exact hgains

variable (hretains : e.Retains cache text asked s)

include hretains

theorem gives_fetch :
    Gives (e.classNameOf (e.textFingerprint text asked)) (e.compiled text asked)
      (e.fetch (.text text) asked (e.classNameOf (e.textFingerprint text asked)) cache) s := by
  obtain ⟨found, hload⟩ :=
    Cache.exists_outcome_load hcache (e.classNameOf (e.textFingerprint text asked)) s
  cases hread : found.bind Program.restore? with
  | some p =>
    refine gives_of_found ?_ (hretains.cache found p (congrArg Prod.fst hload) hread)
    unfold fetch
    rw [outcome_bind, hload, andThen_ok, hread]
    rfl
  | none =>
    refine Gives.of_outcome_eq ?_ (gives_compileAndSave hcache)
    unfold fetch
    rw [outcome_bind, hload, andThen_ok, hread]

/-- **An engine gives the program that the text is compiled to**, from
wherever it takes it. -/
theorem gives_program :
    Gives (e.classNameOf (e.textFingerprint text asked)) (e.compiled text asked)
      (e.program (.text text) asked cache) s := by
  -- the memo has the program, or it is fetched and then remembered
  cases hmemo : Entries.get? ((s.memos.get? e.memo).getD [])
      (e.classNameOf (e.textFingerprint text asked)) with
  | some p =>
    refine gives_of_found ?_ (hretains.memo p hmemo)
    unfold program className OnStore.memo?
    simp only [outcome_bind, outcome_pure, outcome_get, andThen_ok, hmemo]
  | none =>
    have hfetch : Gives (e.classNameOf (e.textFingerprint text asked)) (e.compiled text asked)
        (e.fetch (.text text) asked (e.classNameOf (e.textFingerprint text asked)) cache) s :=
      gives_fetch hcache hretains
    have houtcome : outcome (e.program (.text text) asked cache) s =
        andThen (outcome (e.fetch (.text text) asked
          (e.classNameOf (e.textFingerprint text asked)) cache) s) fun p => outcome (do
            OnStore.keepProgram e.memo (e.classNameOf (e.textFingerprint text asked)) p
            return p) := by
      unfold program className OnStore.memo?
      simp only [outcome_bind, outcome_pure, outcome_get, andThen_ok, hmemo]
    obtain ⟨hresult, hgains⟩ := hfetch
    generalize outcome (e.fetch (.text text) asked
      (e.classNameOf (e.textFingerprint text asked)) cache) s = run at houtcome hresult hgains
    obtain ⟨x, s'⟩ := run
    dsimp only at hresult hgains
    subst hresult
    cases hcompile : e.compiled text asked with
    | error err =>
      rw [hcompile, andThen_error] at houtcome
      rw [hcompile] at hgains
      refine ⟨?_, ?_⟩ <;> rw [houtcome]
      exact hgains
    | ok p =>
      rw [hcompile, andThen_ok, outcome_bind] at houtcome
      rw [hcompile] at hgains
      refine ⟨?_, ?_⟩ <;> rw [houtcome]
      · rfl
      · exact hgains.trans (.keepProgram e.memo _ p s')

end

/-- **In a sound store** an engine gives that program too, and leaves the store
sound. -/
theorem gives_program_of_sound (hfree : CollisionFree digest) (hcache : cache.Internal)
    (hs : s.Sound digest) (hdigest : e.digest = digest) (he : e.HasAccepted) (text : String)
    (hasked : AcceptedIfAny asked) :
    Gives (e.classNameOf (e.textFingerprint text asked)) (e.compiled text asked)
        (e.program (.text text) asked cache) s ∧
      (outcome (e.program (.text text) asked cache) s).2.Sound digest := by
  have hgives : Gives (e.classNameOf (e.textFingerprint text asked)) (e.compiled text asked)
      (e.program (.text text) asked cache) s :=
    gives_program hcache (retains_of_sound hcache he hasked hfree hs hdigest)
  exact ⟨hgives, hgives.gains.sound hs fun _ hp => compiled_of_eq_ok hp hdigest he hasked⟩

end Engine

end Mustache
