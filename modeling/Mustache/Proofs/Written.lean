import Mustache.Json.Draft
/-!
# Mustache — a written document is read back

What is read is the text of a document as it is written here: strings with
their escapes, numbers in decimal digits, no white space. Reading cuts it
into the lexemes it was put together from, and these build a draft that
stands for the document, as long as that does not nest too deep.

Floating-point numbers are left out (`Whole`): they are written by
rounding to the shortest decimal and read the fast way, which may round to
another number. No program has one.
-/

namespace Mustache

namespace Json

/-! ## Strings -/

section Strings

/-- The four digits that stand for a control character. -/
theorem hexFour?_control {n : Nat} (h : n < 0x20) (r : List Char) :
    hexFour? ('0' :: '0' :: hexDigit (n / 16) :: hexDigit n :: r) = some (n, r) := by
  have hzero : hexValue? '0' = some 0 := by decide
  have hdigits : ∀ m < 0x20, hexValue? (hexDigit (m / 16)) = some (m / 16) ∧
      hexValue? (hexDigit m) = some (m % 16) := by decide
  obtain ⟨hhigh, hlow⟩ := hdigits n h
  simp only [hexFour?, hzero, hhigh, hlow, Option.bind_eq_bind, Option.bind_some]
  rw [Option.some.injEq, Prod.mk.injEq]
  exact ⟨by omega, rfl⟩

/-- An escape inside a string. -/
theorem stringBody?_escape {back : List Nat} {cs r : List Char} {n : Nat}
    (h : escape? cs = some (n, r)) :
    stringBody? back ('\\' :: cs) = stringBody? (n :: back) r := by
  rw [stringBody?, if_neg (by decide), if_pos rfl]
  split
  · next m rest hm =>
    rw [h] at hm
    cases hm
    rfl
  · next hnone =>
    rw [h] at hnone
    cases hnone

/-- One character of a string is read back. -/
theorem stringBody?_escapeChar (back : List Nat) (c : Char) (r : List Char) :
    stringBody? back (escapeChar c ++ r) = stringBody? (c.toNat :: back) r := by
  unfold escapeChar
  split
  · next h => rw [h]; exact stringBody?_escape rfl
  split
  · next h => rw [h]; exact stringBody?_escape rfl
  split
  · next h => rw [h]; exact stringBody?_escape rfl
  split
  · next h => rw [h]; exact stringBody?_escape rfl
  split
  · next h => rw [h]; exact stringBody?_escape rfl
  split
  · next h => rw [h]; exact stringBody?_escape rfl
  split
  · next h => rw [h]; exact stringBody?_escape rfl
  split
  · next h => exact stringBody?_escape (hexFour?_control h r)
  · next hquote hslash _ _ _ _ _ hcontrol =>
    rw [List.singleton_append, stringBody?, if_neg hquote, if_neg hslash, if_neg hcontrol]

/-- The whole of a string up to its closing quote. -/
theorem stringBody?_escaped (back : List Nat) (cs r : List Char) :
    stringBody? back (cs.flatMap escapeChar ++ '"' :: r) =
      some ((joined? [] ((cs.map Char.toNat).reverse ++ back)).map String.ofList, r) := by
  induction cs generalizing back with
  | nil =>
    rw [List.flatMap_nil, List.nil_append, stringBody?, if_pos rfl]
    rfl
  | cons c cs ih =>
    rw [List.flatMap_cons, List.append_assoc, stringBody?_escapeChar, ih]
    simp

/-- No character is half of a pair of surrogates. -/
theorem joined?_toNat (known back : List Char) :
    joined? known (back.map Char.toNat) = some (back.reverse ++ known) := by
  induction back generalizing known with
  | nil => rfl
  | cons c back ih =>
    have hvalid : c.toNat < 0xD800 ∨ 0xDFFF < c.toNat := by
      rcases c.valid with h | h
      · exact .inl h
      · exact .inr h.1
    have hsecond : isSecondHalf c.toNat = false := by
      simp only [isSecondHalf, Bool.and_eq_false_iff, decide_eq_false_iff_not]
      omega
    have hfirst : isFirstHalf c.toNat = false := by
      simp only [isFirstHalf, Bool.and_eq_false_iff, decide_eq_false_iff_not]
      omega
    rw [List.map_cons]
    unfold joined?
    simp [hsecond, hfirst, ih]

/-- **A string is read back**, with what follows it. -/
theorem stringBody?_quoted (s : String) (r : List Char) :
    (quoted s).toList ++ r = '"' :: (s.toList.flatMap escapeChar ++ '"' :: r) ∧
      stringBody? [] (s.toList.flatMap escapeChar ++ '"' :: r) = some (some s, r) := by
  refine ⟨by simp [quoted], ?_⟩
  rw [stringBody?_escaped, List.append_nil, ← List.map_reverse, joined?_toNat]
  simp

end Strings

/-! ## Numbers -/

section Numbers

/-- What may follow a value: the end of the text, of a container, or of an
item. -/
def Ends (r : List Char) : Prop := ∀ c, r.head? = some c → c = ',' ∨ c = ']' ∨ c = '\x7d'

theorem Ends.not_isDigit {c : Char} {r : List Char} (h : Ends (c :: r)) : c.isDigit = false := by
  rcases h c rfl with rfl | rfl | rfl <;> decide

theorem le_ofDigitChars (ds : List Char) (n : Nat) : n ≤ Nat.ofDigitChars 10 ds n := by
  rw [Nat.ofDigitChars_eq_ofDigitChars_zero]
  have hpos : 0 < 10 ^ ds.length := Nat.pow_pos (by decide)
  have hle : n ≤ 10 ^ ds.length * n := Nat.le_mul_of_pos_left n hpos
  omega

/-- Digits are taken into a number as long as it fits. -/
theorem takeDigits_append {ds r : List Char} {n k : Nat} (hdigits : ∀ c ∈ ds, c.isDigit = true)
    (hfits : Nat.ofDigitChars 10 ds n ≤ wordLimit) (hends : Ends r) :
    takeDigits n k (ds ++ r) = (Nat.ofDigitChars 10 ds n, k + ds.length, r) := by
  induction ds generalizing n k with
  | nil =>
    cases r with
    | nil => simp [takeDigits]
    | cons c r => simp [takeDigits, hends.not_isDigit]
  | cons c ds ih =>
    rw [Nat.ofDigitChars_cons] at hfits ⊢
    have hc : c.isDigit = true := hdigits c List.mem_cons_self
    have hle := Nat.le_trans (le_ofDigitChars ds _) hfits
    rw [Nat.mul_comm] at hle
    rw [List.cons_append, takeDigits, if_pos ⟨hc, hle⟩, Nat.mul_comm n 10,
      ih (fun d hd => hdigits d (List.mem_cons_of_mem _ hd)) hfits]
    simp only [List.length_cons]
    rw [show k + 1 + ds.length = k + (ds.length + 1) by omega]

/-- Only zero begins with a zero. -/
theorem toDigits_head {n : Nat} (hpos : 0 < n) : (Nat.toDigits 10 n).head? ≠ some '0' := by
  induction n using Nat.strongRecOn with
  | ind n ih =>
    by_cases hsmall : n < 10
    · have hdigit : ∀ m < 10, 0 < m → m.digitChar ≠ '0' := by decide
      rw [Nat.toDigits_of_lt_base hsmall]
      simpa using hdigit n hsmall hpos
    · rw [Nat.toDigits_of_base_le (by decide) (by omega), List.head?_append]
      have hhead := ih (n / 10) (by omega) (by omega)
      cases h : (Nat.toDigits 10 (n / 10)).head? with
      | none => exact absurd (List.head?_eq_none_iff.1 h) Nat.toDigits_ne_nil
      | some c =>
        rw [h] at hhead
        simpa using hhead

/-- A number is read back, its digits one by one. -/
theorem number?_toDigits {n : Nat} {first : Char} {ds r : List Char}
    (h : Nat.toDigits 10 n = first :: ds) (hfits : n ≤ wordLimit) (hends : Ends r) :
    number? false first (ds ++ r) = some (some (.int n), r) := by
  have hall : ∀ c ∈ first :: ds, c.isDigit = true := by
    rw [← h]
    exact fun c hc => Nat.isDigit_of_mem_toDigits (by decide) (by decide) hc
  have hvalue : Nat.ofDigitChars 10 ds (first.toNat - '0'.toNat) = n := by
    have hboth := Nat.ofDigitChars_ten_toDigits (n := n)
    rw [h, Nat.ofDigitChars_cons, Nat.mul_zero, Nat.zero_add] at hboth
    exact hboth
  have htaken := takeDigits_append (n := first.toNat - '0'.toNat) (k := 1)
    (fun c hc => hall c (List.mem_cons_of_mem _ hc)) (by rw [hvalue]; exact hfits) hends
  rw [hvalue] at htaken
  have hdigit : first.isDigit = true := hall first List.mem_cons_self
  -- a zero in front is the whole number
  have hzero : (decide (first = '0') && (ds ++ r).head?.any Char.isDigit) = false := by
    by_cases hfirst : first = '0'
    · have hnil : n = 0 := by
        apply Nat.eq_zero_of_not_pos
        intro hpos
        refine toDigits_head hpos ?_
        rw [h, hfirst]
        rfl
      rw [hnil, Nat.toDigits_zero] at h
      cases h
      cases r with
      | nil => rfl
      | cons c r => simp [hends.not_isDigit]
    · simp [hfirst]
  have hspan : r.takeWhile Char.isDigit = [] ∧ r.dropWhile Char.isDigit = r := by
    cases r with
    | nil => exact ⟨rfl, rfl⟩
    | cons c r => simp [hends.not_isDigit]
  unfold number?
  simp only [htaken, hspan, hdigit, hzero]
  cases r with
  | nil => rfl
  | cons c r => rcases hends c rfl with rfl | rfl | rfl <;> rfl

end Numbers

/-! ## Lexemes -/

mutual

/-- A document without floating-point numbers, and without integers that
do not fit 64 bits or are below zero. -/
def Whole : Json → Prop
  | .float _ => False
  | .int n => 0 ≤ n ∧ n.toNat ≤ wordLimit
  | .arr items => WholeItems items
  | .obj fields => WholeFields fields
  | _ => True

def WholeItems : List Json → Prop
  | [] => True
  | item :: items => Whole item ∧ WholeItems items

def WholeFields : List (String × Json) → Prop
  | [] => True
  | (_, value) :: fields => Whole value ∧ WholeFields fields

end

theorem wholeItems_map {α : Type} {encode : α → Json} (h : ∀ a, Whole (encode a))
    (as : List α) : WholeItems (as.map encode) := by
  induction as with
  | nil => exact trivial
  | cons a as ih => exact ⟨h a, ih⟩

theorem wholeFields_map {α : Type} {encode : α → Json} (h : ∀ a, Whole (encode a))
    (entries : List (String × α)) :
    WholeFields (entries.map fun entry => (entry.1, encode entry.2)) := by
  induction entries with
  | nil => exact trivial
  | cons entry entries ih => exact ⟨h entry.2, ih⟩

mutual

/-- The draft that stands for a document. -/
def draft : Json → Draft
  | .arr items => .arr (itemDrafts items)
  | .obj fields => .obj (fieldDrafts fields)
  | j => .scalar (some j)

def itemDrafts : List Json → List Draft
  | [] => []
  | item :: items => draft item :: itemDrafts items

def fieldDrafts : List (String × Json) → List (Option String × Draft)
  | [] => []
  | (name, value) :: fields => (some name, draft value) :: fieldDrafts fields

end

/-- A text is cut into some lexemes, whatever follows it there. -/
def CutInto (cs : List Char) (ls : List Lexeme) : Prop :=
  ∀ r, Ends r → lexemes? (cs ++ r) = (lexemes? r).map (ls ++ ·)

/-- Lexemes build a draft wherever a value may stand. -/
def Builds (ls : List Lexeme) (d : Draft) : Prop :=
  ∀ a : Assembly, a.expected = .value ∨ a.expected = .firstItem →
    ls.foldlM Assembly.add? a = some (a.complete d)

section Lexemes

theorem lexemes?_cons {c : Char} {cs r : List Char} {lexeme : Lexeme} (hgap : isGap c = false)
    (h : lexeme? c cs = some (lexeme, r)) :
    lexemes? (c :: cs) = (lexemes? r).map (lexeme :: ·) := by
  rw [lexemes?, if_neg (by simp [hgap])]
  split
  · next hnone =>
    rw [h] at hnone
    cases hnone
  · next found rest hfound =>
    rw [h] at hfound
    cases hfound
    rfl

/-- A single lexeme, given how its first character is read. -/
theorem cutInto_singleton {c : Char} {cs : List Char} {lexeme : Lexeme} (hgap : isGap c = false)
    (h : ∀ r, Ends r → lexeme? c (cs ++ r) = some (lexeme, r)) : CutInto (c :: cs) [lexeme] := by
  intro r hr
  rw [List.cons_append, lexemes?_cons hgap (h r hr)]
  rfl

/-- A string is a single lexeme, whatever follows. -/
theorem lexemes?_quoted (s : String) (r : List Char) :
    lexemes? ((quoted s).toList ++ r) = (lexemes? r).map (.string (some s) :: ·) := by
  obtain ⟨htext, hbody⟩ := stringBody?_quoted s r
  rw [htext]
  refine lexemes?_cons rfl ?_
  have hscalar : lexeme? '"' (s.toList.flatMap escapeChar ++ '"' :: r) =
      (stringBody? [] (s.toList.flatMap escapeChar ++ '"' :: r)).map
        fun p => (.string p.1, p.2) := rfl
  rw [hscalar, hbody]
  rfl

/-- A digit begins a number and nothing else. -/
theorem lexeme?_digit {c : Char} (h : c.isDigit = true) (r : List Char) :
    isGap c = false ∧ lexeme? c r = asScalar (number? false c r) := by
  have hne (d : Char) (hd : d.isDigit = false) : c ≠ d := by
    intro heq
    rw [heq, hd] at h
    cases h
  simp [isGap, lexeme?, punctuation?, scalar?, hne ' ' rfl, hne '\n' rfl, hne '\t' rfl,
    hne '\r' rfl, hne '[' rfl, hne ']' rfl, hne '\x7b' rfl, hne '\x7d' rfl, hne ',' rfl,
    hne ':' rfl, hne '"' rfl, hne '-' rfl, hne 'n' rfl, hne 't' rfl, hne 'f' rfl]

theorem cutInto_int {n : Int} (hpos : 0 ≤ n) (hfits : n.toNat ≤ wordLimit) :
    CutInto (toString n).toList [.scalar (some (.int n))] := by
  obtain ⟨k, rfl⟩ := Int.eq_ofNat_of_zero_le hpos
  have htext : (toString (k : Int)).toList = Nat.toDigits 10 k := by
    simp [Int.repr_eq_if, Nat.toList_repr]
  rw [htext]
  cases hdigits : Nat.toDigits 10 k with
  | nil => exact absurd hdigits Nat.toDigits_ne_nil
  | cons first ds =>
    have hfirst : first.isDigit = true :=
      Nat.isDigit_of_mem_toDigits (by decide) (by decide) (hdigits ▸ List.mem_cons_self)
    refine cutInto_singleton (lexeme?_digit hfirst []).1 fun r hr => ?_
    rw [(lexeme?_digit hfirst _).2, number?_toDigits hdigits hfits hr]
    rfl

/-- A word is a single lexeme. -/
theorem cutInto_word {c : Char} {letters : String} {value : Json} (hgap : isGap c = false)
    (h : ∀ r, lexeme? c r = keyword? letters value r) :
    CutInto (c :: letters.toList) [.scalar (some value)] := by
  refine cutInto_singleton hgap fun r _ => ?_
  rw [h, keyword?, if_pos (by simp), ← String.length_toList, List.drop_left]

/-- A comma, a colon or a bracket. -/
theorem lexemes?_punctuation {c : Char} {lexeme : Lexeme} (hgap : isGap c = false)
    (h : punctuation? c = some lexeme) (r : List Char) :
    lexemes? (c :: r) = (lexemes? r).map (lexeme :: ·) :=
  lexemes?_cons hgap (by rw [lexeme?, h])

end Lexemes

/-! ## Drafts -/

section Drafts

/-- Where a value may stand, a scalar completes it. -/
theorem builds_scalar (value : Json) : Builds [.scalar (some value)] (.scalar (some value)) := by
  intro a ha
  rcases ha with h | h <;> simp [Assembly.add?, Assembly.value?, h]

theorem builds_string (s : String) : Builds [.string (some s)] (.scalar (some (.str s))) := by
  intro a ha
  rcases ha with h | h <;> simp [Assembly.add?, Assembly.value?, h]

/-- Lexemes that add items to the innermost array, when a value is
expected next. -/
def AddsItems (ls : List Lexeme) (ds : List Draft) : Prop :=
  ∀ held outer e, e = Expected.value ∨ e = Expected.firstItem →
    ls.foldlM Assembly.add? ⟨.array held :: outer, e, none⟩ =
      some ⟨.array (ds.reverse ++ held) :: outer, .separator, none⟩

/-- Lexemes that add fields to the innermost object, when a name is
expected next. -/
def AddsFields (ls : List Lexeme) (ds : List (Option String × Draft)) : Prop :=
  ∀ held outer e, e = Expected.name ∨ e = Expected.firstName →
    ls.foldlM Assembly.add? ⟨.object held none :: outer, e, none⟩ =
      some ⟨.object (ds.reverse ++ held) none :: outer, .separator, none⟩

theorem Builds.addsItem {ls : List Lexeme} {d : Draft} (h : Builds ls d) : AddsItems ls [d] := by
  intro held outer e he
  exact h ⟨.array held :: outer, e, none⟩ he

theorem AddsItems.cons {ls ms : List Lexeme} {d : Draft} {ds : List Draft}
    (hmore : AddsItems ms ds) (h : Builds ls d) : AddsItems (ls ++ .comma :: ms) (d :: ds) := by
  intro held outer e he
  rw [List.foldlM_append, h.addsItem held outer e he]
  have hrest := hmore (d :: held) outer .value (.inl rfl)
  simpa [Assembly.add?, Assembly.comma?] using hrest

/-- A value does not depend on what was expected before it. -/
theorem complete_eq (a : Assembly) (e : Expected) (result : Option Draft) (d : Draft) :
    Assembly.complete ⟨a.containers, e, result⟩ d = a.complete d := rfl

theorem builds_array {ls : List Lexeme} {ds : List Draft} (h : AddsItems ls ds) :
    Builds (.openArray :: ls ++ [.closeArray]) (.arr ds) := by
  intro a ha
  have hopen : Assembly.add? a .openArray = some a.openArray := by
    rcases ha with h | h <;> simp [Assembly.add?, Assembly.value?, h]
  have hinner := h [] a.containers .firstItem (.inr rfl)
  rw [List.cons_append, List.foldlM_cons, hopen, Option.bind_eq_bind, Option.bind_some,
    List.foldlM_append, Assembly.openArray, Assembly.enter, hinner]
  simp [Assembly.add?, Assembly.closeArray?, complete_eq a]

theorem builds_emptyArray : Builds [.openArray, .closeArray] (.arr []) := by
  intro a ha
  rcases ha with h | h <;>
    simp [Assembly.add?, Assembly.value?, h, Assembly.openArray, Assembly.enter,
      Assembly.closeArray?, complete_eq a]

/-- A field: its name, a colon and its value. -/
theorem Builds.addsField {ls : List Lexeme} {d : Draft} (name : String) (h : Builds ls d) :
    AddsFields (.string (some name) :: .colon :: ls) [(some name, d)] := by
  intro held outer e he
  have hvalue := h ⟨.object held (some name) :: outer, .value, none⟩ (.inl rfl)
  rcases he with rfl | rfl <;>
    simpa [Assembly.add?, Assembly.name?, Assembly.complete] using hvalue

theorem AddsFields.cons {ls ms : List Lexeme} {d : Option String × Draft}
    {ds : List (Option String × Draft)} (hmore : AddsFields ms ds) (h : AddsFields ls [d]) :
    AddsFields (ls ++ .comma :: ms) (d :: ds) := by
  intro held outer e he
  rw [List.foldlM_append, h held outer e he]
  have hrest := hmore (d :: held) outer .name (.inl rfl)
  simpa [Assembly.add?, Assembly.comma?] using hrest

theorem builds_object {ls : List Lexeme} {ds : List (Option String × Draft)}
    (h : AddsFields ls ds) : Builds (.openObject :: ls ++ [.closeObject]) (.obj ds) := by
  intro a ha
  have hopen : Assembly.add? a .openObject = some a.openObject := by
    rcases ha with h | h <;> simp [Assembly.add?, Assembly.value?, h]
  have hinner := h [] a.containers .firstName (.inr rfl)
  rw [List.cons_append, List.foldlM_cons, hopen, Option.bind_eq_bind, Option.bind_some,
    List.foldlM_append, Assembly.openObject, Assembly.enter, hinner]
  simp [Assembly.add?, Assembly.closeObject?, complete_eq a]

theorem builds_emptyObject : Builds [.openObject, .closeObject] (.obj []) := by
  intro a ha
  rcases ha with h | h <;>
    simp [Assembly.add?, Assembly.value?, h, Assembly.openObject, Assembly.enter,
      Assembly.closeObject?, complete_eq a]

end Drafts

/-! ## Documents -/

/-- A text that is cut into lexemes which build a draft. -/
def WrittenAs (cs : List Char) (d : Draft) : Prop := ∃ ls, CutInto cs ls ∧ Builds ls d

section Documents

/-- A bracket may follow a value. -/
theorem ends_cons {c : Char} {r : List Char} (h : c = ',' ∨ c = ']' ∨ c = '\x7d') :
    Ends (c :: r) := by
  intro d hd
  cases hd
  exact h

/-- A text in brackets. -/
theorem CutInto.bracketed {cs : List Char} {ls : List Lexeme} {first last : Lexeme}
    (h : CutInto cs ls) (opening closing : Char) (hgap : isGap opening = false)
    (hgap' : isGap closing = false) (hopening : punctuation? opening = some first)
    (hclosing : punctuation? closing = some last) (hends : closing = ']' ∨ closing = '\x7d') :
    CutInto (opening :: cs ++ [closing]) (first :: ls ++ [last]) := by
  intro r hr
  rw [List.append_assoc, List.cons_append, lexemes?_punctuation hgap hopening]
  rw [List.singleton_append, h _ (ends_cons (.inr hends)), lexemes?_punctuation hgap' hclosing]
  simp [Function.comp_def]

/-- Two texts with a comma between them. -/
theorem CutInto.comma {cs ds : List Char} {ls ms : List Lexeme} (h : CutInto cs ls)
    (hmore : CutInto ds ms) : CutInto (cs ++ ',' :: ds) (ls ++ .comma :: ms) := by
  intro r hr
  rw [List.append_assoc, List.cons_append, h _ (ends_cons (.inl rfl)),
    lexemes?_punctuation rfl rfl, hmore r hr]
  simp [Function.comp_def]

/-- A name, a colon and a value. -/
theorem CutInto.field {cs : List Char} {ls : List Lexeme} (name : String) (h : CutInto cs ls) :
    CutInto ((quoted name).toList ++ ':' :: cs) (.string (some name) :: .colon :: ls) := by
  intro r hr
  rw [List.append_assoc, lexemes?_quoted, List.cons_append, lexemes?_punctuation rfl rfl, h r hr]
  simp [Function.comp_def]

theorem cutInto_nil : CutInto [] [] := fun r _ => by simp

theorem cutInto_quoted (s : String) : CutInto (quoted s).toList [.string (some s)] := by
  intro r _
  rw [lexemes?_quoted]
  rfl

mutual

/-- **A written document is cut into lexemes that build its draft.** -/
theorem writtenAs_draft : ∀ j : Json, Whole j → WrittenAs j.text.toList (draft j)
  | .null, _ => ⟨_, cutInto_word (c := 'n') rfl fun _ => rfl, builds_scalar .null⟩
  | .bool false, _ => ⟨_, cutInto_word (c := 'f') rfl fun _ => rfl, builds_scalar (.bool false)⟩
  | .bool true, _ => ⟨_, cutInto_word (c := 't') rfl fun _ => rfl, builds_scalar (.bool true)⟩
  | .int n, h => ⟨_, cutInto_int h.1 h.2, builds_scalar (.int n)⟩
  | .str s, _ => ⟨_, cutInto_quoted s, builds_string s⟩
  | .arr [], _ => ⟨_, cutInto_nil.bracketed '[' ']' rfl rfl rfl rfl (.inl rfl), builds_emptyArray⟩
  | .arr (item :: items), h => by
    obtain ⟨ls, hcut, hbuild⟩ := addsItems_drafts (item :: items) h (List.cons_ne_nil _ _)
    refine ⟨_, ?_, builds_array hbuild⟩
    have hcut := hcut.bracketed '[' ']' rfl rfl rfl rfl (.inl rfl)
    simpa [Json.text] using hcut
  | .obj [], _ =>
    ⟨_, cutInto_nil.bracketed '\x7b' '\x7d' rfl rfl rfl rfl (.inr rfl), builds_emptyObject⟩
  | .obj (field :: fields), h => by
    obtain ⟨ls, hcut, hbuild⟩ := addsFields_drafts (field :: fields) h (List.cons_ne_nil _ _)
    refine ⟨_, ?_, builds_object hbuild⟩
    have hcut := hcut.bracketed '\x7b' '\x7d' rfl rfl rfl rfl (.inr rfl)
    simpa [Json.text] using hcut

theorem addsItems_drafts : ∀ items : List Json, WholeItems items → items ≠ [] →
    ∃ ls, CutInto (commaSeparated (itemTexts items)).toList ls ∧ AddsItems ls (itemDrafts items)
  | [], _, hne => absurd rfl hne
  | [item], h, _ => by
    obtain ⟨ls, hcut, hbuild⟩ := writtenAs_draft item h.1
    exact ⟨ls, hcut, hbuild.addsItem⟩
  | item :: next :: items, h, _ => by
    obtain ⟨ls, hcut, hbuild⟩ := writtenAs_draft item h.1
    obtain ⟨ms, hmore, hadds⟩ := addsItems_drafts (next :: items) h.2 (List.cons_ne_nil _ _)
    refine ⟨ls ++ .comma :: ms, ?_, hadds.cons hbuild⟩
    have hboth := hcut.comma hmore
    simpa [itemTexts, commaSeparated] using hboth

theorem addsFields_drafts : ∀ fields : List (String × Json), WholeFields fields → fields ≠ [] →
    ∃ ls, CutInto (commaSeparated (fieldTexts fields)).toList ls ∧
      AddsFields ls (fieldDrafts fields)
  | [], _, hne => absurd rfl hne
  | [(name, value)], h, _ => by
    obtain ⟨ls, hcut, hbuild⟩ := writtenAs_draft value h.1
    refine ⟨_, ?_, hbuild.addsField name⟩
    have hfield := hcut.field name
    simpa [fieldTexts, commaSeparated] using hfield
  | (name, value) :: next :: fields, h, _ => by
    obtain ⟨ls, hcut, hbuild⟩ := writtenAs_draft value h.1
    obtain ⟨ms, hmore, hadds⟩ := addsFields_drafts (next :: fields) h.2 (List.cons_ne_nil _ _)
    refine ⟨_, ?_, hadds.cons (hbuild.addsField name)⟩
    have hboth := (hcut.field name).comma hmore
    obtain ⟨name', value'⟩ := next
    simpa [fieldTexts, commaSeparated] using hboth

end

/-- **The draft of a written document is read back.** -/
theorem draftOfText?_text {j : Json} (h : Whole j) : Draft.ofText? j.text = some (draft j) := by
  obtain ⟨ls, hcut, hbuild⟩ := writtenAs_draft j h
  have hlexemes := hcut [] (by simp [Ends])
  rw [List.append_nil, lexemes?] at hlexemes
  rw [Draft.ofText?, hlexemes]
  have hassembly := hbuild ⟨[], .value, none⟩ (.inl rfl)
  simp [hassembly, Assembly.complete]

end Documents

/-! ## What a draft stands for -/

mutual

/-- How many containers stand inside each other. -/
def height : Json → Nat
  | .arr items => itemsHeight items + 1
  | .obj fields => fieldsHeight fields + 1
  | _ => 0

def itemsHeight : List Json → Nat
  | [] => 0
  | item :: items => max (height item) (itemsHeight items)

def fieldsHeight : List (String × Json) → Nat
  | [] => 0
  | (_, value) :: fields => max (height value) (fieldsHeight fields)

end

theorem height_le_fieldsHeight {name : String} {value : Json} :
    ∀ {fields : List (String × Json)}, (name, value) ∈ fields → height value ≤ fieldsHeight fields
  | [], h => by cases h
  | (other, first) :: fields, h => by
    rw [fieldsHeight]
    rcases List.mem_cons.1 h with heq | h
    · cases heq
      exact Nat.le_max_left _ _
    · exact Nat.le_trans (height_le_fieldsHeight h) (Nat.le_max_right _ _)

/-- What stands in a field stands inside one container less. -/
theorem height_lt_height_obj (name : String) {value : Json} {fields : List (String × Json)}
    (h : (name, value) ∈ fields) : height value < height (.obj fields) := by
  rw [height]
  exact Nat.lt_succ_of_le (height_le_fieldsHeight h)

section Drafts

mutual

/-- The draft of a document stands for it within a bound, and for nothing
beyond. -/
theorem document?_draft (depth : Nat) : ∀ j : Json,
    (draft j).document? depth = if height j ≤ depth then some j else none
  | .null | .bool _ | .int _ | .float _ | .str _ => by simp [draft, Draft.document?, height]
  | .arr items => by
    rw [draft, Draft.document?, height, itemDocuments?_itemDrafts (depth - 1) items]
    cases depth with
    | zero => simp
    | succ depth =>
      rw [if_neg (by omega), Nat.add_sub_cancel]
      by_cases hfits : itemsHeight items ≤ depth <;> simp [hfits]
  | .obj fields => by
    rw [draft, Draft.document?, height, fieldDocuments?_fieldDrafts (depth - 1) fields]
    cases depth with
    | zero => simp
    | succ depth =>
      rw [if_neg (by omega), Nat.add_sub_cancel]
      by_cases hfits : fieldsHeight fields ≤ depth <;> simp [hfits]

theorem itemDocuments?_itemDrafts (depth : Nat) : ∀ items : List Json,
    Draft.itemDocuments? depth (itemDrafts items) =
      if itemsHeight items ≤ depth then some items else none
  | [] => by simp [itemDrafts, Draft.itemDocuments?, itemsHeight]
  | item :: items => by
    rw [itemDrafts, Draft.itemDocuments?, itemsHeight, document?_draft depth item,
      itemDocuments?_itemDrafts depth items]
    simp only [Nat.max_le]
    by_cases hitem : height item ≤ depth <;> by_cases hitems : itemsHeight items ≤ depth <;>
      simp [hitem, hitems]

theorem fieldDocuments?_fieldDrafts (depth : Nat) : ∀ fields : List (String × Json),
    Draft.fieldDocuments? depth (fieldDrafts fields) =
      if fieldsHeight fields ≤ depth then some fields else none
  | [] => by simp [fieldDrafts, Draft.fieldDocuments?, fieldsHeight]
  | (name, value) :: fields => by
    rw [fieldDrafts, Draft.fieldDocuments?, fieldsHeight, document?_draft depth value,
      fieldDocuments?_fieldDrafts depth fields]
    simp only [Nat.max_le]
    by_cases hvalue : height value ≤ depth <;> by_cases hfields : fieldsHeight fields ≤ depth <;>
      simp [hvalue, hfields]

end

/-- **A document is read back from its text** exactly if it does not nest
too deep. -/
theorem ofText?_text {j : Json} (h : Whole j) :
    Json.ofText? j.text = if height j ≤ depthLimit then some j else none := by
  rw [Json.ofText?, draftOfText?_text h, Option.bind_some, document?_draft]

/-- Two documents have different texts. -/
theorem text_injective {j j' : Json} (h : Whole j) (h' : Whole j') (heq : j.text = j'.text) :
    j = j' := by
  have hdraft : draft j = draft j' := by
    have hboth := draftOfText?_text h
    rw [heq, draftOfText?_text h', Option.some.injEq] at hboth
    exact hboth.symm
  have hj := document?_draft (max (height j) (height j')) j
  rw [hdraft, document?_draft, if_pos (Nat.le_max_left _ _), if_pos (Nat.le_max_right _ _)] at hj
  exact (Option.some.inj hj).symm

end Drafts

end Json

end Mustache
