import Mathlib.Data.List.Nodup
import Mustache.Proofs.Closed
import Mustache.Proofs.DigestNumbers
import Mustache.Proofs.Filed
import Mustache.Proofs.SharedWalk
/-!
# Mustache — what stored programs and override keys stand for

A program is read back from what is stored for it, in every part and
order, unless it nests too deep (`Program.restore?_store_eq`). The same
text tells overrides apart. The compiler files an override under the
digest of the text of its code and keeps what is filed there already. As
overrides are filed under digests of their code and nothing else
(`Walked.blocksKeyed`), what is kept is the same code where the digests of
what is on file do not collide (`exists_override_of_walkOverride`). So
overrides share a key exactly if they share their code
(`store_tells_apart`).
-/

namespace Mustache

/-! ## Overrides under the digests of their code -/

namespace Compile

variable {digest : String → String} {source : String}

mutual

/-- **A walk files overrides under the digests of their code** and nothing
else. -/
theorem Walked.blocksKeyed : ∀ {s s' : State} {ts : List Token} {code : List Instr},
    Walked digest source s ts code s' → BlocksKeyed digest s.blocks → BlocksKeyed digest s'.blocks
  | _, _, _, _, .nil, hs => hs
  | _, _, _, _, .pragma _ hrest, hs => hrest.blocksKeyed hs
  | _, _, _, _, .leaf _ hrest, hs => hrest.blocksKeyed hs
  | _, _, _, _, .newSection _ _ hbody hrest, hs => hrest.blocksKeyed (hbody.blocksKeyed hs)
  | _, _, _, _, .knownSection _ _ hrest, hs => hrest.blocksKeyed hs
  | _, _, _, _, .inverted _ hbody hrest, hs => hrest.blocksKeyed (hbody.blocksKeyed hs)
  | _, _, _, _, .extend _ hos hrest, hs => hrest.blocksKeyed (hos.blocksKeyed hs)
  | _, _, _, _, .block _ hbody hrest, hs => hrest.blocksKeyed (hbody.blocksKeyed hs)

theorem WalkedOverrides.blocksKeyed :
    ∀ {s s' : State} {ts : List Token} {os : List (String × String)},
      WalkedOverrides digest source s ts os s' → BlocksKeyed digest s.blocks →
        BlocksKeyed digest s'.blocks
  | _, _, _, _, .nil, hs => hs
  | _, _, _, _, .skip _ hrest, hs => hrest.blocksKeyed hs
  | _, _, _, _, .override _ hbody hrest, hs => hrest.blocksKeyed (hbody.blocksKeyed hs).withBlock

end

/-- **What an override tag leaves**: the code of the nodes inside, found
under a key, which is the digest of its text. -/
structure OverrideFiled (digest : String → String) (source : String) (s : State) (t : Token)
    (key : String) (body : List Instr) (s' : State) : Prop where
  code : ∃ s₁, (walkInside digest source t.nodes?).run s = .ok (body, s₁)
  key_eq : key = digest (Instr.bodyText body)
  found : Entries.get? s'.blocks key = some body

/-- The texts that are compared by their digests where an override tag is
compiled: that of its code, and those of the overrides on file by then. -/
def textsAt (digest : String → String) (source : String) (s : State) (t : Token) : Set String :=
  {text | ∃ body s₁, (walkInside digest source t.nodes?).run s = .ok (body, s₁) ∧
    text ∈ insert (Instr.bodyText body) (blockTexts s₁.blocks)}

/-- **An override is filed with its own code**, whatever was filed before
it. -/
theorem exists_override_of_walkOverride {s s' : State} {t : Token} {os : List (String × String)}
    (hfree : Set.InjOn digest (textsAt digest source s t)) (hkind : t.kind = .blockArg)
    (hs : BlocksKeyed digest s.blocks)
    (h : (walkOverride digest source t).run s = .ok (os, s')) :
    ∃ key body, os = [(t.name, key)] ∧ OverrideFiled digest source s t key body s' := by
  obtain ⟨kind, line, offset?, name?, text?, delimiters?, dynamic, filters, indent?, stop?,
    nodes?⟩ := t
  subst hkind
  rw [walkOverride, if_pos rfl] at h
  obtain ⟨body, s₁, hbody, h⟩ := run_bind h
  cases h
  have hkeyed := (walked_of_walkInside nodes? hbody).blocksKeyed hs
  refine ⟨_, body, rfl, ⟨s₁, hbody⟩, rfl, hkeyed.get?_withBlock (hfree.mono ?_)⟩
  exact fun text htext => ⟨body, s₁, hbody, htext⟩

/-- Overrides have the same key exactly if they have the same code. -/
theorem OverrideFiled.key_eq_iff {source' : String} {s s' r r' : State} {t u : Token}
    {key key' : String} {body body' : List Instr}
    (hfree : Set.InjOn digest (textsAt digest source s t ∪ textsAt digest source' r u))
    (h : OverrideFiled digest source s t key body s')
    (h' : OverrideFiled digest source' r u key' body' r') : key = key' ↔ body = body' := by
  obtain ⟨s₁, hbody⟩ := h.code
  obtain ⟨r₁, hbody'⟩ := h'.code
  have htext : Instr.bodyText body ∈ textsAt digest source s t :=
    ⟨body, s₁, hbody, Set.mem_insert _ _⟩
  have htext' : Instr.bodyText body' ∈ textsAt digest source' r u :=
    ⟨body', r₁, hbody', Set.mem_insert _ _⟩
  rw [h.key_eq, h'.key_eq]
  exact (hfree.eq_iff (.inl htext) (.inr htext')).trans Instr.bodyText_injective.eq_iff

end Compile

namespace Program

open Compile (BlocksKeyed OverrideFiled textsAt walkOverride)

/-- The keys of all overrides that a program mentions. -/
def mentioned (p : Program) : List String :=
  Instr.overrideKeysOf p.body ++ p.sections.flatMap (fun s => Instr.overrideKeysOf s.2.body) ++
    p.blocks.flatMap (fun b => Instr.overrideKeysOf b.2)

/-- In a closed program there is an override under every key that is
mentioned. -/
theorem Closed.exists_of_mentioned {p : Program} (h : p.Closed) {key : String}
    (hkey : key ∈ p.mentioned) : ∃ body, Entries.get? p.blocks key = some body := by
  have hhas : Entries.has p.blocks key = true := by
    simp only [mentioned, List.mem_append, List.mem_flatMap] at hkey
    rcases hkey with (hkey | ⟨entry, hentry, hkey⟩) | ⟨entry, hentry, hkey⟩
    · exact h.body.blocks key hkey
    · exact (h.sections entry hentry).blocks key hkey
    · exact (h.blocks entry hentry).blocks key hkey
  exact Option.isSome_iff_exists.1 hhas

theorem blocksKeyed_of_compile {digest : String → String} {pragmas : List Pragma}
    {settings : CompileSettings} {name source : String} {nodes : List Token} {p : Program}
    (h : compile digest pragmas settings name source nodes = .ok p) :
    BlocksKeyed digest p.blocks := by
  obtain ⟨body, s, hwalked, rfl⟩ := exists_walked h
  exact hwalked.blocksKeyed nofun

/-- **A stored program comes back as it was, and keys stand for code.** A
program in which no key is repeated is read back from its document in every
part and order, or the document nests too deep and nothing is read. What the
compiler makes is such a program, in which overrides are filed under the
digests of their code, and every one that is mentioned is found. And wherever
the compiler comes to two override tags, in one template or in two, it gives
each a key under which the code of the tag itself is found, and the keys are
the same exactly if the code is, unless the digests of that code and of what
is on file collide. -/
theorem store_tells_apart {digest : String → String} :
    (∀ p : Program, p.Distinct →
      restore? p.store = if Json.height p.toJson ≤ Json.depthLimit then some p else none) ∧
    (∀ {pragmas : List Pragma} {settings : CompileSettings} {name source : String}
        {nodes : List Token} {p : Program},
      compile digest pragmas settings name source nodes = .ok p →
        p.Distinct ∧ BlocksKeyed digest p.blocks ∧
          ∀ key ∈ p.mentioned, ∃ body, Entries.get? p.blocks key = some body) ∧
    ∀ {source source' : String} {s s' r r' : Compile.State} {t u : Token}
        {os os' : List (String × String)}, t.kind = .blockArg → u.kind = .blockArg →
      BlocksKeyed digest s.blocks → BlocksKeyed digest r.blocks →
      Set.InjOn digest (textsAt digest source s t ∪ textsAt digest source' r u) →
      (walkOverride digest source t).run s = .ok (os, s') →
      (walkOverride digest source' u).run r = .ok (os', r') →
      ∃ key key' body body', os = [(t.name, key)] ∧ os' = [(u.name, key')] ∧
        OverrideFiled digest source s t key body s' ∧
        OverrideFiled digest source' r u key' body' r' ∧ (key = key' ↔ body = body') := by
  refine ⟨fun p hp => restore?_store_eq hp, ?_, ?_⟩
  · intro pragmas settings name source nodes p h
    exact ⟨distinct_of_compile h, blocksKeyed_of_compile h,
      fun key hkey => (closed_of_compile h).exists_of_mentioned hkey⟩
  · intro source source' s s' r r' t u os os' ht hu hs hr hfree hrun hrun'
    obtain ⟨key, body, hos, hfiled⟩ := Compile.exists_override_of_walkOverride
      (hfree.mono Set.subset_union_left) ht hs hrun
    obtain ⟨key', body', hos', hfiled'⟩ := Compile.exists_override_of_walkOverride
      (hfree.mono Set.subset_union_right) hu hr hrun'
    exact ⟨key, key', body, body', hos, hos', hfiled, hfiled', hfiled.key_eq_iff hfree hfiled'⟩

/-- An override of a block by a text. -/
def textOverride (name text : String) : Token :=
  { Token.ofTag .blockArg name 0 with nodes? := some [Token.ofText text 0] }

/-- Behind a text, a parent tag with two overrides by the same text, which
has a quote, a backslash and a control character in it, and one by another
text. -/
def threeOverrides : List Token :=
  [Token.ofText "x" 0, { Token.ofTag .parentTag "p" 0 with
    nodes? := some [textOverride "a" "\"\\\x01", textOverride "b" "\"\\\x01",
      textOverride "c" "z"] }]

/-- What compiling such an override does, and which texts it compares. -/
theorem exists_run_textOverride (digest : String → String) {s : Compile.State}
    (hs : BlocksKeyed digest s.blocks) (hstarts : s.startsLine = false) (name text : String)
    (hends : (Token.ofText text 0).endsLine = false) :
    (∃ os s', (walkOverride digest "" (textOverride name text)).run s = .ok (os, s') ∧
      BlocksKeyed digest s'.blocks ∧ s'.startsLine = false ∧
      Compile.blockTexts s'.blocks ⊆
        insert (Instr.bodyText [.text text false]) (Compile.blockTexts s.blocks)) ∧
    textsAt digest "" s (textOverride name text) ⊆
      insert (Instr.bodyText [.text text false]) (Compile.blockTexts s.blocks) := by
  rw [← hstarts]
  refine ⟨⟨_, _, rfl, hs.withBlock, hends.trans hstarts.symm, Compile.blockTexts_withBlock⟩, ?_⟩
  rintro _ ⟨body, s₁, hrun, htext⟩
  cases hrun
  exact htext

/-- The program is read back, and one after the other the first two overrides
get one key and the third one gets another. -/
theorem store_tells_apart_of_threeOverrides :
    let fresh : Compile.State := ⟨⟨[]⟩, [], [], false⟩
    (∃ p, compile Sha256.ofText [] ⟨false, false, 0⟩ "" "" threeOverrides = .ok p ∧
      p.blocks.map (·.2.length) = [1, 1] ∧ restore? p.store = some p) ∧
    ∃ key other s₁ s₂ s₃, key ≠ other ∧
      (walkOverride Sha256.ofText "" (textOverride "a" "\"\\\x01")).run fresh =
        .ok ([("a", key)], s₁) ∧
      (walkOverride Sha256.ofText "" (textOverride "b" "\"\\\x01")).run s₁ =
        .ok ([("b", key)], s₂) ∧
      (walkOverride Sha256.ofText "" (textOverride "c" "z")).run s₂ = .ok ([("c", other)], s₃) := by
  intro fresh
  obtain ⟨hread, hcompiled, hkeys⟩ := @store_tells_apart Sha256.ofText
  refine ⟨?_, ?_⟩
  · have hp : (compile Sha256.ofText [] ⟨false, false, 0⟩ "" "" threeOverrides).toOption.map
        (fun p => (p.blocks.map (·.2.length), decide (Json.height p.toJson ≤ Json.depthLimit))) =
          some ([1, 1], true) := by
      rw [Sha256.ofText_eq_numbers]
      decide +kernel
    obtain ⟨p, hcompile, hfacts⟩ := exists_of_toOption_map hp
    obtain ⟨hblocks, hfits⟩ := Prod.mk.inj hfacts
    have hback := hread p (hcompiled hcompile).1
    rw [if_pos (of_decide_eq_true hfits)] at hback
    exact ⟨p, hcompile, hblocks, hback⟩
  · let quoted := Instr.bodyText [.text "\"\\\x01" false]
    let plain := Instr.bodyText [.text "z" false]
    let texts : Set String := {text | text ∈ [quoted, plain]}
    have hfree : Set.InjOn Sha256.ofText texts := by
      have hdigests : ([quoted, plain].map Sha256.ofText).Nodup := by
        rw [Sha256.ofText_eq_numbers]
        decide +kernel
      exact fun text htext other hother => List.inj_on_of_nodup_map hdigests htext hother
    have hmore {text : String} (htext : text ∈ texts) {blocks : Entries (List Instr)}
        (h : Compile.blockTexts blocks ⊆ texts) :
        insert text (Compile.blockTexts blocks) ⊆ texts := Set.insert_subset htext h
    have hquoted : quoted ∈ texts := List.mem_cons_self
    have hplain : plain ∈ texts := List.mem_cons_of_mem _ List.mem_cons_self
    -- each finds those before it on file, and none of the texts it is compared with collide
    have hfresh : BlocksKeyed Sha256.ofText fresh.blocks := nofun
    have hnone : Compile.blockTexts fresh.blocks ⊆ texts := nofun
    obtain ⟨⟨os₁, s₁, hrun₁, hs₁, hline₁, hfiled₁⟩, htexts₁⟩ :=
      exists_run_textOverride Sha256.ofText hfresh rfl "a" "\"\\\x01" (by decide)
    have hone := hfiled₁.trans (hmore hquoted hnone)
    obtain ⟨⟨os₂, s₂, hrun₂, hs₂, hline₂, hfiled₂⟩, htexts₂⟩ :=
      exists_run_textOverride Sha256.ofText hs₁ hline₁ "b" "\"\\\x01" (by decide)
    have htwo := hfiled₂.trans (hmore hquoted hone)
    obtain ⟨⟨os₃, s₃, hrun₃, -⟩, htexts₃⟩ :=
      exists_run_textOverride Sha256.ofText hs₂ hline₂ "c" "z" (by decide)
    have hfirst := htexts₁.trans (hmore hquoted hnone)
    have hsecond := htexts₂.trans (hmore hquoted hone)
    have hthird := htexts₃.trans (hmore hplain htwo)
    obtain ⟨key, key', body, body', rfl, rfl, hfiled, hfiled', hsame⟩ := hkeys rfl rfl hfresh hs₁
      (hfree.mono (Set.union_subset hfirst hsecond)) hrun₁ hrun₂
    obtain ⟨_, other, _, body'', heq, rfl, hagain, hfiled'', hother⟩ := hkeys rfl rfl hfresh hs₂
      (hfree.mono (Set.union_subset hfirst hthird)) hrun₁ hrun₃
    obtain rfl := (Prod.mk.inj (List.cons.inj heq).1).2
    have hcode {s s' : Compile.State} {name text key : String} {body : List Instr}
        (h : OverrideFiled Sha256.ofText "" s (textOverride name text) key body s') :
        body = [.text text s.startsLine] := by
      obtain ⟨_, hrun⟩ := h.code
      cases hrun
      rfl
    rw [hcode hfiled, hcode hfiled', hline₁] at hsame
    rw [hcode hagain, hcode hfiled'', hline₂] at hother
    rw [← hsame.2 rfl] at hrun₂
    have hne : key ≠ other := fun hkeys => by simpa using hother.1 hkeys
    exact ⟨key, other, s₁, s₂, s₃, hne, hrun₁, hrun₂, hrun₃⟩

end Program

end Mustache
