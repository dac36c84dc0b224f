import Mustache.Proofs.Basic
import Mustache.Scan
/-!
# Mustache — scanning, part by part

`Reads` follows the scanner from one place of a text to another, with the
tokens it reads on the way. A scan is a way to the end of the text
(`tokensFrom_eq_ok_iff`); ways are put together and taken apart where a
token ends. What the cursor says at a place of the way is what is in force
there, the delimiters above all.

A scan that fails is a way to the tag that it fails at
(`exists_reads_of_error`).

The last part is about plain text: where no opening delimiter begins, only
pieces of text are read, and together they are the text.
-/

namespace Mustache

namespace Scan

/-- **Reading goes from one place to another**: at the first the scanner
stands before the first text, and when it has read the tokens it stands
before the second. -/
inductive Reads : Cursor → List Char → List Token → Cursor → List Char → Prop
  | nil (start : Cursor) (cs : List Char) : Reads start cs [] start cs
  | cons {start stop : Cursor} {cs rest : List Char} {step : Step} {ts : List Token} :
      cs ≠ [] → readToken start cs = .ok step → Reads step.next step.rest ts stop rest →
      Reads start cs (step.token :: ts) stop rest

namespace Reads

variable {start mid stop : Cursor} {cs between rest : List Char} {ts us : List Token}

theorem append (h : Reads start cs ts mid between) (hmore : Reads mid between us stop rest) :
    Reads start cs (ts ++ us) stop rest := by
  induction h with
  | nil => exact hmore
  | cons hne hread _ ih => exact .cons hne hread (ih hmore)

/-- One token. -/
theorem single {step : Step} (hne : cs ≠ []) (hread : readToken start cs = .ok step) :
    Reads start cs [step.token] step.next step.rest := .cons hne hread (.nil _ _)

/-- A way is taken apart between any two of its tokens. -/
theorem exists_between (h : Reads start cs (ts ++ us) stop rest) :
    ∃ mid between, Reads start cs ts mid between ∧ Reads mid between us stop rest := by
  induction ts generalizing start cs with
  | nil => exact ⟨start, cs, .nil _ _, h⟩
  | cons t ts ih =>
    cases h with
    | cons hne hread hmore =>
      obtain ⟨mid, between, hfirst, hsecond⟩ := ih hmore
      exact ⟨mid, between, .cons hne hread hfirst, hsecond⟩

/-- What holds at the start, and at the next token whenever at one, holds at
the end. -/
theorem invariant {P : Cursor → Prop} (h : Reads start cs ts stop rest)
    (hstep : ∀ start cs step, readToken start cs = .ok step → P start → P step.next)
    (hstart : P start) : P stop := by
  induction h with
  | nil => exact hstart
  | cons _ hread _ ih => exact ih (hstep _ _ _ hread hstart)

end Reads

section Whole

variable {start : Cursor} {cs : List Char} {ts : List Token}

theorem tokensFrom_cons (start : Cursor) (cs : List Char) (hne : cs ≠ []) :
    tokensFrom start cs =
      match readToken start cs with
      | .ok step => (tokensFrom step.next step.rest).map (step.token :: ·)
      | .error e => .error e := by
  cases cs with
  | nil => exact absurd rfl hne
  | cons c r =>
    rw [tokensFrom]
    split <;> simp only [*]

/-- Scanning goes on from the end of a way. -/
theorem Reads.tokensFrom_eq {stop : Cursor} {rest : List Char} (h : Reads start cs ts stop rest) :
    tokensFrom start cs = (tokensFrom stop rest).map (ts ++ ·) := by
  induction h with
  | nil start cs => cases tokensFrom start cs <;> rfl
  | cons hne hread _ ih =>
    rw [tokensFrom_cons _ _ hne, hread]
    dsimp only
    rw [ih]
    generalize tokensFrom _ _ = x
    cases x <;> rfl

/-- **A scan is a way to the end of the text.** -/
theorem tokensFrom_eq_ok_iff :
    tokensFrom start cs = .ok ts ↔ ∃ stop, Reads start cs ts stop [] := by
  constructor
  · intro h
    fun_induction tokensFrom start cs generalizing ts with
    | case1 start =>
      cases h
      exact ⟨start, .nil _ _⟩
    | case2 start c r step hread ih =>
      cases hmore : tokensFrom step.next step.rest with
      | error e => rw [hmore] at h; cases h
      | ok us =>
        rw [hmore] at h
        cases h
        obtain ⟨stop, hreads⟩ := ih hmore
        exact ⟨stop, .cons nofun hread hreads⟩
    | case3 => cases h
  · rintro ⟨stop, hreads⟩
    rw [hreads.tokensFrom_eq, tokensFrom]
    exact congrArg Except.ok (List.append_nil ts)

/-- What is read is read in one way only. -/
theorem Reads.unique {stop stop' : Cursor} {rest rest' : List Char}
    (h : Reads start cs ts stop rest) (h' : Reads start cs ts stop' rest') :
    stop = stop' ∧ rest = rest' := by
  induction h with
  | nil => cases h'; exact ⟨rfl, rfl⟩
  | cons hne hread _ ih =>
    generalize hus : _ :: _ = us at h'
    cases h' with
    | nil => cases hus
    | cons hne' hread' hmore' =>
      cases hread.symm.trans hread'
      cases hus
      exact ih hmore'

end Whole

/-- Where the opening delimiter stands a tag is read. -/
theorem readToken_opening {start : Cursor} (hne : start.opening ≠ []) (cs : List Char) :
    readToken start (start.opening ++ cs) = readTag start cs := by
  have hopened : opened? start.opening (start.opening ++ cs) = some cs := by
    rw [opened?, if_neg (by simpa using hne), Text.after?_append]
  rw [readToken, hopened]

theorem opened?_eq_some {opening cs inside : List Char}
    (h : opened? opening cs = some inside) : opening ≠ [] ∧ cs = opening ++ inside := by
  unfold opened? at h
  split at h
  · cases h
  · next hne => exact ⟨by simpa using hne, Text.after?_eq_some h⟩

/-! ## Errors -/

section Errors

variable {start : Cursor} {kind : TokenKind} {offset : Nat} {cs : List Char} {e : Error}

/-- The error of a tag stands on the line that has been counted to. -/
def ErrorAt (start : Cursor) (e : Error) : Prop :=
  ∃ fault t, e = .malformed fault t ∧ t.line = start.line

theorem errorAt_readNamed (h : readNamed start kind offset cs = .error e) : ErrorAt start e := by
  unfold readNamed at h
  split at h
  · cases h
    exact ⟨_, _, rfl, rfl⟩
  · dsimp only at h
    repeat' split at h
    all_goals
      cases h
      try exact ⟨_, _, rfl, rfl⟩

theorem errorAt_readTag (h : readTag start cs = .error e) : ErrorAt start e := by
  unfold readTag at h
  dsimp only at h
  split at h
  · exact errorAt_readNamed h
  · split at h
    · exact errorAt_readNamed h
    · unfold readDelimiters at h
      split at h
      · cases h
        exact ⟨_, _, rfl, rfl⟩
      · dsimp only at h
        split at h <;> cases h
        exact ⟨_, _, rfl, rfl⟩
    · unfold readPragma at h
      split at h <;> cases h
      exact ⟨_, _, rfl, rfl⟩
    · exact errorAt_readNamed h

/-- **The scanner fails at a tag**, on the line that it has counted to. -/
theorem errorAt_readToken (h : readToken start cs = .error e) :
    start.opening <+: cs ∧ ErrorAt start e := by
  unfold readToken at h
  split at h
  · next inside hopened =>
    obtain ⟨-, rfl⟩ := opened?_eq_some hopened
    exact ⟨List.prefix_append _ _, errorAt_readTag h⟩
  · cases h

/-- **A scan that fails** is a way to the tag that it fails at. -/
theorem exists_reads_of_error (h : tokensFrom start cs = .error e) :
    ∃ ts stop rest, Reads start cs ts stop rest ∧ readToken stop rest = .error e := by
  induction start, cs using tokensFrom.induct with
  | case1 start =>
    rw [tokensFrom] at h
    cases h
  | case2 start c r step hread ih =>
    rw [tokensFrom_cons _ _ (List.cons_ne_nil c r), hread] at h
    dsimp only at h
    cases hmore : tokensFrom step.next step.rest with
    | ok ts =>
      rw [hmore] at h
      cases h
    | error e' =>
      rw [hmore] at h
      cases h
      obtain ⟨ts, stop, rest, hreads, herror⟩ := ih hmore
      exact ⟨_, stop, rest, .cons (List.cons_ne_nil c r) hread hreads, herror⟩
  | case3 start c r e' hread =>
    rw [tokensFrom_cons _ _ (List.cons_ne_nil c r), hread] at h
    cases h
    exact ⟨[], start, c :: r, .nil _ _, hread⟩

end Errors

/-! ## Plain text -/

section Plain

variable {opening w cs : List Char}

/-- No opening delimiter begins in a text, whatever it ends in or goes on
with. -/
def Unopened (opening w cs : List Char) : Prop :=
  ∀ v, v ≠ [] → v <:+ w → opened? opening (v ++ cs) = none

theorem Unopened.tail {c : Char} (h : Unopened opening (c :: w) cs) : Unopened opening w cs :=
  fun v hne hv => h v hne (hv.trans (List.suffix_cons c w))

theorem Unopened.suffix {v : List Char} (h : Unopened opening w cs) (hv : v <:+ w) :
    Unopened opening v cs := fun u hne hu => h u hne (hu.trans hv)

/-- Where a text goes on with a tag, or ends, a piece of it is read. -/
theorem chunk_append (h : Unopened opening w cs) (hne : w ≠ [])
    (hcs : cs = [] ∨ (opened? opening cs).isSome = true) :
    ∃ a b, a ≠ [] ∧ w = a ++ b ∧ chunk opening (w ++ cs) = (a, b ++ cs) := by
  induction w with
  | nil => exact absurd rfl hne
  | cons c r ih =>
    have hclosed : opened? opening (c :: (r ++ cs)) = none :=
      h (c :: r) (List.cons_ne_nil c r) List.suffix_rfl
    rw [List.cons_append, chunk, hclosed, Option.isSome_none, if_neg (by decide)]
    split
    · exact ⟨[c], r, List.cons_ne_nil c [], rfl, rfl⟩
    · by_cases hr : r = []
      · subst hr
        have hstop : chunk opening cs = ([], cs) := by
          rcases hcs with rfl | hopened
          · rfl
          · cases cs with
            | nil => rfl
            | cons d s => rw [chunk, if_pos hopened]
        exact ⟨[c], [], List.cons_ne_nil c [], rfl, by rw [List.nil_append, hstop]⟩
      · obtain ⟨a, b, -, rfl, hchunk⟩ := ih h.tail hr
        exact ⟨c :: a, b, List.cons_ne_nil c a, rfl, by rw [hchunk]⟩

/-- The characters of tokens that are text. -/
def textOf (ts : List Token) : List Char := ts.flatMap fun t => t.text.toList

/-- The token is a piece of text, as the scanner gives it. -/
def IsPiece (t : Token) : Prop := ∃ text line, t = .ofText text line

/-- **Plain text is read as pieces of text** that make it up. The delimiters
stay in force. -/
theorem exists_reads_text {start : Cursor} (h : Unopened start.opening w cs)
    (hcs : cs = [] ∨ (opened? start.opening cs).isSome = true) :
    ∃ ts stop, Reads start (w ++ cs) ts stop cs ∧ stop.delimiters = start.delimiters ∧
      (∀ t ∈ ts, IsPiece t) ∧ textOf ts = w := by
  -- on the length, as a piece ends with its line and may be any part of the text
  induction hn : w.length using Nat.strongRecOn generalizing start w with
  | _ n ih =>
  by_cases hne : w = []
  · subst hne
    exact ⟨[], start, .nil _ _, rfl, nofun, rfl⟩
  · obtain ⟨a, b, ha, hw, hchunk⟩ := chunk_append h hne hcs
    have hclosed : opened? start.opening (w ++ cs) = none := h w hne List.suffix_rfl
    have hread : readToken start (w ++ cs) = .ok (readText start (w ++ cs)) := by
      rw [readToken, hclosed]
    have hrest : (readText start (w ++ cs)).rest = b ++ cs := by rw [readText, hchunk]
    have hlt : b.length < n := by
      rw [← hn, hw, List.length_append]
      exact Nat.lt_add_of_pos_left (List.length_pos_iff.2 ha)
    have hb : Unopened (readText start (w ++ cs)).next.opening b cs :=
      h.suffix (hw ▸ List.suffix_append a b)
    obtain ⟨ts, stop, hreads, hdelimiters, hpieces, htext⟩ := ih b.length hlt hb hcs rfl
    refine ⟨_, stop, .cons (List.append_ne_nil_of_left_ne_nil hne cs) hread (hrest ▸ hreads),
      hdelimiters, List.forall_mem_cons.2 ⟨⟨_, _, rfl⟩, hpieces⟩, ?_⟩
    have htoken : (readText start (w ++ cs)).token.text.toList = a := by
      rw [readText, hchunk]
      exact String.toList_ofList
    rw [textOf, List.flatMap_cons, htoken, hw]
    exact congrArg (a ++ ·) htext

end Plain

end Scan

end Mustache
