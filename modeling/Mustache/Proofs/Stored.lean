import Mustache.Program.Stored
import Mustache.Proofs.Basic
import Mustache.Proofs.Written
/-!
# Mustache — a stored program is read back

The document of a program is written and read without loss: every part is
read as what it was written from, instructions inside instructions
included, as long as they do not nest too deep. Instructions nest no
deeper than their document (`Instr.height_le_toJson`), so the bound on
documents decides: within it the program itself is read, beyond it nothing
(`restore?_store_eq`), and another program never (`restore?_store`). So
bodies with the same text are the same (`bodyText_injective`).

A table of sections or blocks is read back only if no name is repeated in
it, since of a repeated one the last value would be taken.
-/

namespace Mustache

/-! ## Parts without instructions -/

@[simp] theorem Lookup.ofJson?_toJson (lookup : Lookup) :
    Lookup.ofJson? lookup.toJson = some lookup := by
  cases lookup <;> simp [Lookup.toJson, Lookup.ofJson?, Json.case?, Json.isVoid, Json.isAbsent,
    Json.asText?]

@[simp] theorem TemplateName.ofJson?_toJson (name : TemplateName) :
    TemplateName.ofJson? name.toJson = some name := by
  cases name <;> simp [TemplateName.toJson, TemplateName.ofJson?, Json.case?, Json.asText?]

@[simp] theorem Filter.ofJson?_toJson (f : Filter) : Filter.ofJson? f.toJson = some f := by
  cases f
  simp [Filter.toJson, Filter.ofJson?, Json.record?, Json.asText?]

theorem mapM_map {α β : Type} {encode : α → β} {decode : β → Option α}
    (h : ∀ a, decode (encode a) = some a) (as : List α) :
    (as.map encode).mapM decode = some as := by
  induction as with
  | nil => rfl
  | cons a as ih => simp [List.mapM_cons, h, ih]

@[simp] theorem Filter.listOfJson?_map (filters : List Filter) :
    Filter.listOfJson? (.arr (filters.map Filter.toJson)) = some filters := by
  simp [Filter.listOfJson?, Json.asList?, mapM_map Filter.ofJson?_toJson]

theorem Escaping.ofJson?_html {n : Int} (h : 0 ≤ n ∧ n < 0x100000000) :
    Escaping.ofJson? (.obj [("Html", .int n)]) = some (.html (UInt32.ofNat n.toNat)) := by
  have hlt : n < 4294967296 := h.2
  simp [Escaping.ofJson?, Json.case?, h.1, hlt]

@[simp] theorem Escaping.ofJson?_toJson (escaping : Escaping) :
    Escaping.ofJson? escaping.toJson = some escaping := by
  cases escaping with
  | custom => simp [Escaping.toJson, Escaping.ofJson?, Json.case?, Json.isAbsent]
  | html flags =>
    have hlt : flags.toNat < 2 ^ 32 := flags.toNat_lt
    have hread := Escaping.ofJson?_html (n := flags.toNat) ⟨by omega, by omega⟩
    rw [Int.toNat_natCast, UInt32.ofNat_toNat] at hread
    exact hread

theorem Delimiters.ofJson?_toJson (d : Delimiters) :
    Delimiters.ofJson? (.obj [("open", .str d.opening), ("close", .str d.closing)]) = some d := by
  simp [Delimiters.ofJson?, Json.record?, Json.asText?]

/-! ## Instructions -/

namespace Instr

mutual

/-- How many instructions stand inside each other. -/
def height : Instr → Nat
  | .inverted _ _ body => listHeight body + 1
  | .block _ default => listHeight default + 1
  | _ => 1

def listHeight : List Instr → Nat
  | [] => 0
  | i :: is => max (height i) (listHeight is)

end

mutual

/-- **An instruction is read back** exactly if it does not nest too deep. -/
theorem ofJson?_toJson : ∀ (i : Instr) (nested : Bool) (depth : Nat),
    ofJson? nested depth i.toJson = if i.height ≤ depth then some i else none
  | i, nested, 0 => by
    have hpos : ¬ i.height ≤ 0 := by cases i <;> simp [height]
    rw [if_neg hpos, ofJson?]
  -- Which fields there are is fixed, so a document is read part by part.
  | .text value indent, nested, depth + 1 => by
    have hread : ofJson? nested (depth + 1) (toJson (.text value indent)) =
        some (.text value indent) := rfl
    rw [hread]
    simp [height]
  | .interpolate lookup filters escape indent, nested, depth + 1 => by
    have hread : ofJson? nested (depth + 1) (toJson (.interpolate lookup filters escape indent)) =
        (do
          let lookup ← Lookup.ofJson? lookup.toJson
          let filters ← Filter.listOfJson? (.arr (filters.map Filter.toJson))
          return .interpolate lookup filters escape indent) := rfl
    rw [hread, Lookup.ofJson?_toJson, Filter.listOfJson?_map]
    simp [height]
  | .enter lookup filters key, nested, depth + 1 => by
    have hread : ofJson? nested (depth + 1) (toJson (.enter lookup filters key)) =
        (do
          let lookup ← Lookup.ofJson? lookup.toJson
          let filters ← Filter.listOfJson? (.arr (filters.map Filter.toJson))
          return .enter lookup filters key) := rfl
    rw [hread, Lookup.ofJson?_toJson, Filter.listOfJson?_map]
    simp [height]
  | .inverted lookup filters body, nested, depth + 1 => by
    have hread : ofJson? nested (depth + 1) (toJson (.inverted lookup filters body)) =
        (do
          let lookup ← Lookup.ofJson? lookup.toJson
          let filters ← Filter.listOfJson? (.arr (filters.map Filter.toJson))
          let body ← (listToJson body).mapM (ofJson? true depth)
          return .inverted lookup filters body) := rfl
    rw [hread, Lookup.ofJson?_toJson, Filter.listOfJson?_map, mapM_listToJson body true depth]
    by_cases hfits : listHeight body ≤ depth <;> simp [height, hfits]
  | .insertPartial name indent, nested, depth + 1 => by
    have hindent : Json.asOptionalText? (some (Json.ofOption indent)) = some indent := by
      cases indent <;> rfl
    have hread : ofJson? nested (depth + 1) (toJson (.insertPartial name indent)) =
        (do
          let name ← TemplateName.ofJson? name.toJson
          let indent ← Json.asOptionalText? (some (Json.ofOption indent))
          return .insertPartial name indent) := rfl
    rw [hread, TemplateName.ofJson?_toJson, hindent]
    simp [height]
  | .extend name overrides, nested, depth + 1 => by
    have hpair (o : String × String) :
        overrideOfJson? ((fun o => Json.arr [.str o.1, .str o.2]) o) = some o := rfl
    have hread : ofJson? nested (depth + 1) (toJson (.extend name overrides)) =
        (do
          let name ← TemplateName.ofJson? name.toJson
          let overrides ← (overrides.map fun o => Json.arr [.str o.1, .str o.2]).mapM
            overrideOfJson?
          return .extend name overrides) := rfl
    rw [hread, TemplateName.ofJson?_toJson, mapM_map hpair overrides]
    simp [height]
  | .block name default, nested, depth + 1 => by
    have hread : ofJson? nested (depth + 1) (toJson (.block name default)) =
        (do
          let default ← (listToJson default).mapM (ofJson? true depth)
          return .block name default) := rfl
    rw [hread, mapM_listToJson default true depth]
    by_cases hfits : listHeight default ≤ depth <;> simp [height, hfits]

theorem mapM_listToJson : ∀ (is : List Instr) (nested : Bool) (depth : Nat),
    (listToJson is).mapM (ofJson? nested depth) = if listHeight is ≤ depth then some is else none
  | [], nested, depth => by simp [listToJson, listHeight]
  | i :: is, nested, depth => by
    rw [listToJson, List.mapM_cons, ofJson?_toJson i nested depth, mapM_listToJson is nested depth,
      listHeight]
    simp only [Nat.max_le]
    by_cases hi : i.height ≤ depth <;> by_cases his : listHeight is ≤ depth <;> simp [hi, his]

end

mutual

/-- **Instructions nest no deeper than their documents.** -/
theorem height_le_toJson : ∀ i : Instr, i.height ≤ Json.height i.toJson
  | .inverted lookup filters body => by
    have hbody := listHeight_le_listToJson body
    have hfield : Json.height (.arr (listToJson body)) <
        Json.height (toJson (.inverted lookup filters body)) := by
      rw [toJson]
      exact Json.height_lt_height_obj "body" (by simp)
    rw [Json.height] at hfield
    rw [height]
    omega
  | .block name default => by
    have hbody := listHeight_le_listToJson default
    have hfield : Json.height (.arr (listToJson default)) <
        Json.height (toJson (.block name default)) := by
      rw [toJson]
      exact Json.height_lt_height_obj "default" (by simp)
    rw [Json.height] at hfield
    rw [height]
    omega
  | .text .. | .interpolate .. | .enter .. | .insertPartial .. | .extend .. => by
    simp [height, toJson, Json.height]

theorem listHeight_le_listToJson : ∀ is : List Instr,
    listHeight is ≤ Json.itemsHeight (listToJson is)
  | [] => Nat.le_refl 0
  | i :: is => by
    have hi := height_le_toJson i
    have his := listHeight_le_listToJson is
    rw [listHeight, listToJson, Json.itemsHeight]
    omega

end

/-- A list of instructions is read back from a document within the bound. -/
theorem listOfJson?_listToJson {is : List Instr}
    (h : Json.height (.arr (listToJson is)) ≤ Json.depthLimit) :
    listOfJson? (.arr (listToJson is)) = some is := by
  have hread : listOfJson? (.arr (listToJson is)) =
      (listToJson is).mapM (ofJson? false (Json.depthLimit + 1)) := rfl
  have his := listHeight_le_listToJson is
  rw [Json.height] at h
  rw [hread, mapM_listToJson, if_pos (by omega)]

end Instr

/-! ## Programs -/

theorem SectionBody.ofJson?_toJson {s : SectionBody}
    (h : Json.height s.toJson ≤ Json.depthLimit) : SectionBody.ofJson? s.toJson = some s := by
  obtain ⟨source, delimiters, body⟩ := s
  have hbody : Json.height (.arr (Instr.listToJson body)) <
      Json.height (SectionBody.toJson ⟨source, delimiters, body⟩) := by
    unfold toJson
    exact Json.height_lt_height_obj "body" (by simp)
  have hread := Instr.listOfJson?_listToJson (Nat.le_trans (Nat.le_of_lt hbody) h)
  cases delimiters <;>
    simp [SectionBody.toJson, SectionBody.ofJson?, Json.record?, Json.asText?, hread,
      Delimiters.toJson, Delimiters.ofJson?_toJson]

namespace Program

/-- No key is repeated among the sections, nor among the blocks. -/
structure Distinct (p : Program) : Prop where
  sections : (Entries.names p.sections).Nodup
  blocks : (Entries.names p.blocks).Nodup

/-- **A table is read back in its order** from a document within the bound,
if its values are. -/
theorem entriesOfJson?_map {α : Type} (encode : α → Json) {decode : Json → Option α}
    (h : ∀ {a}, Json.height (encode a) ≤ Json.depthLimit → decode (encode a) = some a)
    {m : Entries α} (hdistinct : (Entries.names m).Nodup)
    (hfits : Json.height (.obj (m.map fun e => (e.1, encode e.2))) ≤ Json.depthLimit) :
    entriesOfJson? decode (.obj (m.map fun e => (e.1, encode e.2))) = some m := by
  have hpairs : ∀ m : Entries α, (∀ e ∈ m, decode (encode e.2) = some e.2) →
      (m.map fun e => (e.1, encode e.2)).mapM (fun f => (decode f.2).map fun v => (f.1, v)) =
        some m := by
    intro m hm
    induction m with
    | nil => rfl
    | cons e m ih =>
      obtain ⟨he, hm⟩ := List.forall_mem_cons.1 hm
      rw [List.map_cons, List.mapM_cons]
      simp [he, ih hm]
  have hvalues : ∀ e ∈ m, decode (encode e.2) = some e.2 := by
    intro e he
    have hinside : (e.1, encode e.2) ∈ m.map fun e => (e.1, encode e.2) :=
      List.mem_map.2 ⟨e, he, rfl⟩
    exact h (Nat.le_trans (Nat.le_of_lt (Json.height_lt_height_obj e.1 hinside)) hfits)
  simp [entriesOfJson?, hpairs m hvalues, Entries.ofPairs_eq_self hdistinct]

theorem ofJson?_toJson {p : Program} (hp : p.Distinct)
    (h : Json.height p.toJson ≤ Json.depthLimit) : ofJson? p.toJson = some p := by
  have hfield (name : String) {value : Json} {fields : List (String × Json)}
      (hfields : p.toJson = .obj fields) (hmem : (name, value) ∈ fields) :
      Json.height value ≤ Json.depthLimit :=
    Nat.le_trans (Nat.le_of_lt (hfields ▸ Json.height_lt_height_obj name hmem)) h
  have hbody : Instr.listOfJson? (.arr (Instr.listToJson p.body)) = some p.body :=
    Instr.listOfJson?_listToJson (hfield "body" rfl (by simp))
  have hsections : entriesOfJson? SectionBody.ofJson?
      (.obj (p.sections.map fun s => (s.1, s.2.toJson))) = some p.sections :=
    entriesOfJson?_map SectionBody.toJson SectionBody.ofJson?_toJson hp.sections
      (hfield "sections" rfl (by simp))
  have hblocks : entriesOfJson? Instr.listOfJson?
      (.obj (p.blocks.map fun b => (b.1, .arr (Instr.listToJson b.2)))) = some p.blocks :=
    entriesOfJson?_map (fun is => .arr (Instr.listToJson is))
      Instr.listOfJson?_listToJson hp.blocks (hfield "blocks" rfl (by simp))
  have hread : ofJson? p.toJson = (do
      let escaping ← Escaping.ofJson? p.escaping.toJson
      let body ← Instr.listOfJson? (.arr (Instr.listToJson p.body))
      let sections ← entriesOfJson? SectionBody.ofJson?
        (.obj (p.sections.map fun s => (s.1, s.2.toJson)))
      let blocks ← entriesOfJson? Instr.listOfJson?
        (.obj (p.blocks.map fun b => (b.1, .arr (Instr.listToJson b.2))))
      return ⟨p.name, p.strictCallables, escaping, body, sections, blocks⟩) := rfl
  rw [hread, Escaping.ofJson?_toJson, hbody, hsections, hblocks]
  rfl

/-! ### The document of a program is written with whole numbers -/

end Program

open Json (Whole WholeItems WholeFields)

theorem Lookup.whole_toJson (lookup : Lookup) : Whole lookup.toJson := by
  cases lookup <;> simp [Lookup.toJson, Whole, WholeFields]

theorem TemplateName.whole_toJson (name : TemplateName) : Whole name.toJson := by
  cases name <;> simp [TemplateName.toJson, Whole, WholeFields, Lookup.whole_toJson]

theorem Filter.whole_toJson (f : Filter) : Whole f.toJson := by
  simp [Filter.toJson, Whole, WholeFields, Lookup.whole_toJson]

theorem Escaping.whole_toJson (escaping : Escaping) : Whole escaping.toJson := by
  cases escaping with
  | custom => exact trivial
  | html flags =>
    have hlt : flags.toNat < 2 ^ 32 := flags.toNat_lt
    refine ⟨⟨Int.natCast_nonneg _, ?_⟩, trivial⟩
    rw [Int.toNat_natCast, Json.wordLimit]
    omega

theorem Json.whole_ofOption (s : Option String) : Whole (Json.ofOption s) := by
  cases s <;> exact trivial

namespace Instr

mutual

theorem whole_toJson : ∀ i : Instr, Whole i.toJson
  | .text value indent => by simp [toJson, Whole, WholeFields]
  | .interpolate lookup filters escape indent => by
    simp [toJson, Whole, WholeFields, lookup.whole_toJson,
      Json.wholeItems_map Filter.whole_toJson filters]
  | .enter lookup filters key => by
    simp [toJson, Whole, WholeFields, lookup.whole_toJson,
      Json.wholeItems_map Filter.whole_toJson filters]
  | .inverted lookup filters body => by
    simp [toJson, Whole, WholeFields, lookup.whole_toJson,
      Json.wholeItems_map Filter.whole_toJson filters, wholeItems_listToJson body]
  | .insertPartial name indent => by
    simp [toJson, Whole, WholeFields, name.whole_toJson, Json.whole_ofOption]
  | .extend name overrides => by
    have hpairs : WholeItems (overrides.map fun o => Json.arr [.str o.1, .str o.2]) :=
      Json.wholeItems_map (fun o => by simp [Whole, WholeItems]) overrides
    simp [toJson, Whole, WholeFields, name.whole_toJson, hpairs]
  | .block name default => by
    simp [toJson, Whole, WholeFields, wholeItems_listToJson default]

theorem wholeItems_listToJson : ∀ is : List Instr, WholeItems (listToJson is)
  | [] => trivial
  | i :: is => ⟨whole_toJson i, wholeItems_listToJson is⟩

end

/-- **Bodies with the same text are the same.** -/
theorem bodyText_injective : Function.Injective bodyText := by
  intro is js h
  have hwhole (is : List Instr) : Whole (.arr (listToJson is)) := wholeItems_listToJson is
  have hjson := Json.text_injective (hwhole is) (hwhole js) h
  have hdocs : listToJson is = listToJson js := by
    injection hjson
  have hread := mapM_listToJson is true (max (listHeight is) (listHeight js))
  rw [hdocs, mapM_listToJson, if_pos (Nat.le_max_left _ _), if_pos (Nat.le_max_right _ _)] at hread
  exact (Option.some.inj hread).symm

end Instr

theorem SectionBody.whole_toJson (s : SectionBody) : Whole s.toJson := by
  obtain ⟨source, delimiters, body⟩ := s
  cases delimiters <;>
    simp [SectionBody.toJson, Whole, WholeFields, Delimiters.toJson, Instr.wholeItems_listToJson]

namespace Program

theorem whole_toJson (p : Program) : Whole p.toJson := by
  have hblock (is : List Instr) : Whole (.arr (Instr.listToJson is)) :=
    Instr.wholeItems_listToJson is
  have hblocks := Json.wholeFields_map hblock p.blocks
  simp [toJson, Whole, WholeFields, p.escaping.whole_toJson, Instr.wholeItems_listToJson,
    Json.wholeFields_map SectionBody.whole_toJson, hblocks]

/-! ### Nothing of it is left out -/

theorem keepSection_draft (s : SectionBody) :
    keepSection (Json.draft s.toJson) = Json.draft s.toJson := by
  obtain ⟨source, delimiters, body⟩ := s
  cases delimiters <;>
    simp [SectionBody.toJson, Json.draft, Json.fieldDrafts, keepSection, keepDelimiters,
      Delimiters.toJson, Json.Draft.keepRecord, Json.Draft.keepAll, List.lookup_cons]

theorem keepEntries_draft {α : Type} {encode : α → Json} {keep : Json.Draft.Keep}
    (h : ∀ a, keep (Json.draft (encode a)) = Json.draft (encode a)) (m : Entries α) :
    Json.Draft.keepEntries keep (Json.draft (.obj (m.map fun e => (e.1, encode e.2)))) =
      Json.draft (.obj (m.map fun e => (e.1, encode e.2))) := by
  rw [Json.draft, Json.Draft.keepEntries]
  congr 1
  induction m with
  | nil => rfl
  | cons e m ih => rw [List.map_cons, Json.fieldDrafts, List.map_cons, ih, h]

theorem keepProgram_draft (p : Program) :
    keepProgram (Json.draft p.toJson) = Json.draft p.toJson := by
  have hsections := keepEntries_draft keepSection_draft p.sections
  rw [Json.draft] at hsections
  simpa [toJson, Json.draft, Json.fieldDrafts, keepProgram, Json.Draft.keepRecord,
    Json.Draft.keepAll, List.lookup_cons] using hsections

/-- **Reading a stored program** gives the program itself, unless its
document nests too deep for the reader. -/
theorem restore?_store_eq {p : Program} (h : p.Distinct) :
    restore? p.store = if Json.height p.toJson ≤ Json.depthLimit then some p else none := by
  unfold restore? store
  rw [Json.draftOfText?_text (whole_toJson p), Option.bind_eq_bind, Option.bind_some,
    keepProgram_draft, Json.document?_draft]
  split
  · next hfits => exact ofJson?_toJson h hfits
  · rfl

/-- **A stored program is read back, or nothing is**: it may nest too deep
for the reader, but another program is never read. -/
theorem restore?_store {p : Program} (h : p.Distinct) :
    restore? p.store = some p ∨ restore? p.store = none := by
  rw [restore?_store_eq h]
  split
  · exact .inl rfl
  · exact .inr rfl

end Program

end Mustache
