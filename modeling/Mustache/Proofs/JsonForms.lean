import Mathlib.Data.List.Perm.Basic
import Mustache.Proofs.DataAsText
import Mustache.Proofs.Rearranged
/-!
# Mustache — typed data and its JSON form

Typed data can be passed as it is, or first be written as a JSON document
(`Datum.json?`): a map and a record become an object, a case with data an object
with one field, under the name of the case. Both ways templates see the same values
up to the order of the entries of maps, and render to the same
(`Datum.toValue_json`).

Two things are told apart by the document only, and for them the ways part
(`Datum.json_tells_more`). A case that has several parts is converted without its name,
and an integer that needs more than 63 bits is a key under the digits of the
floating-point number it becomes. `Datum.isPlain` says that data has none of these.
-/

namespace Mustache

namespace Datum

/-! ## The JSON form -/

/-- The name of a field for the key of a map: a text, or the digits of an integer. -/
def jsonKey? : Datum → Option String
  | .str s | .unitVariant s => some s
  | .char c => some (String.singleton c)
  | .int n => some (toString n)
  | .newtypeStruct d => jsonKey? d
  | _ => none

mutual

/-- **The JSON form of a piece of data**, if it has one: bytes, integers of 128 bits
and numbers that are not finite have none. A case of a type is told by its name. -/
def json? : Datum → Option Json
  | .bool b => some (.bool b)
  | .int n => some (.int n)
  | .float x => if x.isNan || x.isInfinite then none else some (.float x)
  | .char c => some (.str (String.singleton c))
  | .str s | .unitVariant s => some (.str s)
  | .absent | .unit | .unitStruct => some .null
  | .present d | .newtypeStruct d => json? d
  | .seq items | .tuple items | .tupleStruct items => (jsonItems? items).map .arr
  | .map parts => (jsonParts? parts).map .obj
  | .struct fields => (jsonFields? fields).map .obj
  | .newtypeVariant name d => (json? d).map fun j => .obj [(name, j)]
  | .tupleVariant name items => (jsonItems? items).map fun js => .obj [(name, .arr js)]
  | .structVariant name fields => (jsonFields? fields).map fun js => .obj [(name, .obj js)]
  | .wideInt _ | .bytes _ | .refused _ => none

def jsonItems? : List Datum → Option (List Json)
  | [] => some []
  | d :: ds => do
    let j ← json? d
    return j :: (← jsonItems? ds)

def jsonFields? : List (String × Datum) → Option (List (String × Json))
  | [] => some []
  | (name, d) :: fields => do
    let j ← json? d
    return (name, j) :: (← jsonFields? fields)

/-- The fields of a map, told as keys and values in turns. -/
def jsonParts? : List MapPart → Option (List (String × Json))
  | [] => some []
  | .key k :: .value d :: parts => do
    let name ← jsonKey? k
    let j ← json? d
    return (name, j) :: (← jsonParts? parts)
  | _ => none

end

/-! ## Names that are kept -/

/-- The key of a map is the same text in the document. -/
def keyKeepsDigits : Datum → Bool
  | .int n => keyText (intValue n) = .ok (toString n)
  | .newtypeStruct d => keyKeepsDigits d
  | _ => true

mutual

/-- **Every name in the data is kept**: there is no case with several parts, and
every integer that is a key is written by its digits. -/
def keepsNames : Datum → Bool
  | .present d | .newtypeStruct d | .newtypeVariant _ d => keepsNames d
  | .seq items | .tuple items | .tupleStruct items => itemsKeepNames items
  | .map parts => partsKeepNames parts
  | .struct fields => fieldsKeepNames fields
  | .tupleVariant .. | .structVariant .. => false
  | _ => true

def itemsKeepNames : List Datum → Bool
  | [] => true
  | d :: ds => keepsNames d && itemsKeepNames ds

def fieldsKeepNames : List (String × Datum) → Bool
  | [] => true
  | (_, d) :: fields => keepsNames d && fieldsKeepNames fields

def partsKeepNames : List MapPart → Bool
  | [] => true
  | .key k :: parts => keyKeepsDigits k && partsKeepNames parts
  | .value d :: parts => keepsNames d && partsKeepNames parts

end

/-- Integers of 64 bits with a sign keep their digits. -/
theorem keyKeepsDigits_int {n : Int} (h : n < 0x8000000000000000) :
    keyKeepsDigits (.int n) = true := by
  rw [keyKeepsDigits, intValue, if_pos h]
  exact decide_eq_true rfl

/-- A key in the document is the key in the map, if it keeps its digits. -/
theorem exists_keyText : ∀ {k : Datum} {name : String}, k.jsonKey? = some name →
    k.keyKeepsDigits = true → ∃ v, convert k = .ok v ∧ keyText v = .ok name
  | .str s, _, hname, _ | .unitVariant s, _, hname, _ | .char c, _, hname, _ => by
    cases hname
    exact ⟨_, rfl, rfl⟩
  | .int n, _, hname, hkeeps => by
    cases hname
    exact ⟨_, rfl, of_decide_eq_true hkeeps⟩
  | .newtypeStruct d, _, hname, hkeeps => by
    rw [convert]
    exact exists_keyText (k := d) hname hkeeps

/-! ## Both ways to a value -/

/-- Data under names, and the values it becomes. -/
abbrev Becomes (fields : List (String × Datum)) (pairs : List (String × Value)) : Prop :=
  List.Forall₂ (Entries.Named fun d v => convert d = .ok v) fields pairs

theorem convertFields_eq {fields : List (String × Datum)} {pairs : List (String × Value)}
    (h : Becomes fields pairs) (entries : Entries Value) :
    convertFields entries fields =
      .ok (pairs.foldl (fun m p => Entries.insert m p.1 p.2) entries) := by
  induction h generalizing entries with
  | nil => rfl
  | cons hfield _ ih =>
    cases hfield with
    | mk hvalue =>
      rw [convertFields, hvalue]
      exact ih _

/-- A map whose keys are texts is converted as a record is. -/
theorem convertParts_flatMap (fields : List (String × Datum)) (entries : Entries Value) :
    convertParts entries none (fields.flatMap fun f => [.key (.str f.1), .value f.2]) =
      convertFields entries fields := by
  induction fields generalizing entries with
  | nil => rfl
  | cons f fields ih =>
    rw [convertFields]
    exact congrArg (convert f.2 >>= ·) (funext fun value => ih (Entries.insert entries f.1 value))

/-- **A document with fields becomes a map** of what the fields become, in some
order. -/
theorem exists_convert_obj {js : List (String × Json)} {pairs : List (String × Value)}
    (h : Becomes (ofFields js) pairs) :
    ∃ entries, convert (ofJson (.obj js)) = .ok (.map entries) ∧
      (Entries.ofPairs pairs).Perm entries := by
  -- all that counts of the sorting is that it is a permutation, which the values follow
  obtain ⟨entries, hentries, hperm⟩ :=
    List.perm_comp_forall₂ (List.mergeSort_perm (Entries.ofPairs (ofFields js)) _)
      (Entries.named_ofPairs h)
  have hnodup : (Entries.names entries).Nodup :=
    (hperm.map Prod.fst).nodup_iff.2 (Entries.nodup_ofPairs pairs)
  refine ⟨entries, ?_, hperm.symm⟩
  rw [ofJson, convert, convertParts_flatMap, Entries.sorted, convertFields_eq hentries]
  exact congrArg (fun m => Except.ok (Value.map m)) (Entries.ofPairs_eq_self hnodup)

/-- **A piece of data and a document agree**: they become the same value, up to the
order of the entries of maps. -/
def Agrees (d : Datum) (j : Json) : Prop :=
  ∃ v w, convert d = .ok v ∧ convert (ofJson j) = .ok w ∧ v.Rearranged w

/-- Data that is put into a map, one entry after the other, and the fields of a
document agree. -/
def FieldsAgree (put : Entries Value → Except String (Entries Value))
    (js : List (String × Json)) : Prop :=
  ∃ pairs pairs', (∀ entries, put entries =
      .ok (pairs.foldl (fun m p => Entries.insert m p.1 p.2) entries)) ∧
    Becomes (ofFields js) pairs' ∧ List.Forall₂ (Entries.Named Value.Rearranged) pairs pairs'

section Agreement

variable {d : Datum} {j : Json} {js : List (String × Json)}
variable {put : Entries Value → Except String (Entries Value)}

/-- What becomes one value agrees. -/
theorem Agrees.same {v : Value} (hd : convert d = .ok v) (hj : convert (ofJson j) = .ok v) :
    d.Agrees j := ⟨v, v, hd, hj, .refl v⟩

theorem FieldsAgree.nil : FieldsAgree .ok [] := ⟨[], [], fun _ => rfl, .nil, .nil⟩

/-- One more entry that agrees. -/
theorem FieldsAgree.cons (hd : d.Agrees j) (h : FieldsAgree put js) (name : String) :
    FieldsAgree (fun entries => do put (Entries.insert entries name (← convert d)))
      ((name, j) :: js) := by
  obtain ⟨v, w, hv, hw, hvalue⟩ := hd
  obtain ⟨pairs, pairs', hput, hjs, hpairs⟩ := h
  refine ⟨(name, v) :: pairs, (name, w) :: pairs', fun entries => ?_, .cons (.mk hw) hjs,
    .cons (.mk hvalue) hpairs⟩
  rw [hv]
  exact hput _

/-- Where all entries agree the map agrees with the object. -/
theorem FieldsAgree.agrees (h : FieldsAgree put js)
    (hd : convert d = (do return .map (← put []))) : d.Agrees (.obj js) := by
  obtain ⟨pairs, pairs', hput, hjs, hpairs⟩ := h
  obtain ⟨entries, hobj, hperm⟩ := exists_convert_obj hjs
  rw [hput] at hd
  exact ⟨_, _, hd, hobj,
    .map (Entries.nodup_ofPairs pairs) (Entries.named_ofPairs hpairs) hperm⟩

end Agreement

mutual

/-- **Data agrees with its JSON form**, if it keeps its names. -/
theorem agrees_json : ∀ {d : Datum} {j : Json}, d.json? = some j → d.keepsNames = true →
    d.Agrees j
  | .bool b, _, hj, _ | .int n, _, hj, _ | .char c, _, hj, _ | .str s, _, hj, _
  | .unitVariant s, _, hj, _ | .absent, _, hj, _ | .unit, _, hj, _ | .unitStruct, _, hj, _ => by
    cases hj
    exact .same rfl rfl
  | .float x, _, hj, _ => by
    rw [json?] at hj
    split at hj
    · cases hj
    · cases hj
      exact .same rfl rfl
  | .present d, _, hj, hkeeps | .newtypeStruct d, _, hj, hkeeps => by
    rw [json?] at hj
    rw [keepsNames] at hkeeps
    obtain ⟨v, w, hv, hw, hvalue⟩ := agrees_json hj hkeeps
    exact ⟨v, w, hv, hw, hvalue⟩
  | .seq items, _, hj, hkeeps | .tuple items, _, hj, hkeeps
  | .tupleStruct items, _, hj, hkeeps => by
    rw [json?] at hj
    rw [keepsNames] at hkeeps
    obtain ⟨js, hjs, rfl⟩ := Option.map_eq_some_iff.1 hj
    obtain ⟨vs, ws, hvs, hws, hvalues⟩ := items_agree hjs hkeeps
    refine ⟨.list vs, .list ws, ?_, ?_, .list hvalues⟩
    · rw [convert, hvs]
      rfl
    · rw [ofJson, convert, hws]
      rfl
  | .map parts, _, hj, hkeeps => by
    rw [json?] at hj
    rw [keepsNames] at hkeeps
    obtain ⟨js, hjs, rfl⟩ := Option.map_eq_some_iff.1 hj
    exact (parts_agree hjs hkeeps).agrees (by rw [convert])
  | .struct fields, _, hj, hkeeps => by
    rw [json?] at hj
    rw [keepsNames] at hkeeps
    obtain ⟨js, hjs, rfl⟩ := Option.map_eq_some_iff.1 hj
    exact (fields_agree hjs hkeeps).agrees (by rw [convert])
  | .newtypeVariant name d, _, hj, hkeeps => by
    rw [json?] at hj
    rw [keepsNames] at hkeeps
    -- both are a map with one entry
    obtain ⟨j, hd, rfl⟩ := Option.map_eq_some_iff.1 hj
    refine (FieldsAgree.nil.cons (agrees_json hd hkeeps) name).agrees ?_
    rw [convert]
    cases convert d <;> rfl

theorem items_agree : ∀ {ds : List Datum} {js : List Json}, jsonItems? ds = some js →
    itemsKeepNames ds = true → ∃ vs ws, convertItems ds = .ok vs ∧
      convertItems (ofItems js) = .ok ws ∧ List.Forall₂ Value.Rearranged vs ws
  | [], _, hjs, _ => by
    cases hjs
    exact ⟨[], [], rfl, rfl, .nil⟩
  | d :: ds, _, hjs, hkeeps => by
    rw [jsonItems?] at hjs
    rw [itemsKeepNames, Bool.and_eq_true] at hkeeps
    obtain ⟨j, hd, hjs⟩ := Option.bind_eq_some_iff.1 hjs
    obtain ⟨js, hds, hcons⟩ := Option.bind_eq_some_iff.1 hjs
    cases hcons
    obtain ⟨v, w, hv, hw, hvalue⟩ := agrees_json hd hkeeps.1
    obtain ⟨vs, ws, hvs, hws, hvalues⟩ := items_agree hds hkeeps.2
    refine ⟨v :: vs, w :: ws, ?_, ?_, .cons hvalue hvalues⟩
    · rw [convertItems, hv, hvs]
      rfl
    · rw [ofItems, convertItems, hw, hws]
      rfl

theorem fields_agree : ∀ {fields : List (String × Datum)} {js : List (String × Json)},
    jsonFields? fields = some js → fieldsKeepNames fields = true →
    FieldsAgree (convertFields · fields) js
  | [], _, hjs, _ => by
    cases hjs
    exact .nil
  | (name, d) :: fields, _, hjs, hkeeps => by
    rw [jsonFields?] at hjs
    rw [fieldsKeepNames, Bool.and_eq_true] at hkeeps
    obtain ⟨j, hd, hjs⟩ := Option.bind_eq_some_iff.1 hjs
    obtain ⟨js, hfields, hcons⟩ := Option.bind_eq_some_iff.1 hjs
    cases hcons
    exact (fields_agree hfields hkeeps.2).cons (agrees_json hd hkeeps.1) name

theorem parts_agree : ∀ {parts : List MapPart} {js : List (String × Json)},
    jsonParts? parts = some js → partsKeepNames parts = true →
    FieldsAgree (convertParts · none parts) js
  | [], _, hjs, _ => by
    cases hjs
    exact .nil
  | [.key k], _, hjs, _ => by cases hjs
  | .key k :: .key k' :: parts, _, hjs, _ => by cases hjs
  | .value d :: parts, _, hjs, _ => by cases hjs
  | .key k :: .value d :: parts, _, hjs, hkeeps => by
    rw [jsonParts?] at hjs
    rw [partsKeepNames, partsKeepNames, Bool.and_eq_true, Bool.and_eq_true] at hkeeps
    obtain ⟨name, hname, hjs⟩ := Option.bind_eq_some_iff.1 hjs
    obtain ⟨j, hd, hjs⟩ := Option.bind_eq_some_iff.1 hjs
    obtain ⟨js, hparts, hcons⟩ := Option.bind_eq_some_iff.1 hjs
    cases hcons
    obtain ⟨v, hv, hkey⟩ := exists_keyText hname hkeeps.1
    -- the key waits until its value comes, and both are put as a field is
    have hput (entries : Entries Value) : convertParts entries none (.key k :: .value d :: parts) =
        (do convertParts (Entries.insert entries name (← convert d)) none parts) := by
      rw [convertParts, hv]
      change (do let key ← keyText v; convertParts entries (some key) (.value d :: parts)) = _
      rw [hkey]
      rfl
    rw [funext hput]
    exact (parts_agree hparts hkeeps.2.2).cons (agrees_json hd hkeeps.2.1) name

end

/-! ## Typed data and its document -/

theorem toValue_eq_ok {d : Datum} {v : Value} (h : convert d = .ok v) : d.toValue = .ok v := by
  rw [toValue, h]

/-- **Typed data and its JSON form are the same to templates**, if the data keeps its
names. Both become a value, the same up to the order of the entries of maps. Every
engine finds the same for both under every name, up to that order, and renders every
template to the same for both, unless its filters look at the order. -/
theorem toValue_json {d : Datum} {j : Json} (hjson : d.json? = some j)
    (hkeeps : d.keepsNames = true) :
    ∃ v w, d.toValue = .ok v ∧ (ofJson j).toValue = .ok w ∧ v.Rearranged w ∧ ∀ e : Engine,
      (∀ lookup, Alike Value.Rearranged ((e.contextFor v).resolve e.host lookup)
        ((e.contextFor w).resolve e.host lookup)) ∧
      (e.host.Orderless → ∀ depth name store, outcome (e.renderDatum depth name d) store =
        outcome (e.renderDatum depth name (ofJson j)) store) := by
  obtain ⟨v, w, hv, hw, hvalue⟩ := agrees_json hjson hkeeps
  refine ⟨v, w, toValue_eq_ok hv, toValue_eq_ok hw, hvalue, fun e => ⟨fun lookup => ?_, ?_⟩⟩
  · exact (e.rearranged_contextFor hvalue).resolve e.host lookup
  · exact fun horder depth name store =>
      Engine.renderDatum_rearranged horder hvalue (toValue_eq_ok hv) (toValue_eq_ok hw) depth name
        store

/-- A record with an option, a case with data and one without, and a map whose keys
are integers. -/
def account : Datum :=
  .struct
    [("owner", .newtypeStruct (.str "A")), ("kind", .unitVariant "Open"),
      ("limit", .present (.int 18446744073709551615)), ("note", .absent),
      ("rows", .map
        [.key (.int 2), .value (.newtypeVariant "Paid" (.tuple [.int 5, .char 'x'])),
          .key (.int 1), .value (.newtypeVariant "Due" .unit)])]

/-- It renders as its document, in which the rows are the other way around. -/
theorem toValue_json_of_account :
    let e := { Engine.standard .inert id 0 with delimiters := some ⟨"[", "]"⟩ }
    let template := "[owner] is [kind]: [rows.2.Paid.0][rows.2.Paid.1] of [limit][rows.1.Due]"
    let store := Store.ofFiles (.empty "" [])
    ∃ j, account.json? = some j ∧ account.keepsNames = true ∧ e.host.Orderless ∧
      (outcome (e.renderDatum 2 template account) store).1.toOption =
        some "A is Open: 5x of 18446744073709552000" ∧
      outcome (e.renderDatum 2 template account) store =
        outcome (e.renderDatum 2 template (ofJson j)) store := by
  intro e template store
  have hkeeps : account.keepsNames = true := by decide +kernel
  have horder : e.host.Orderless := fun _ _ _ _ => .ok (.refl .null)
  obtain ⟨j, hjson⟩ : ∃ j, account.json? = some j := ⟨_, rfl⟩
  obtain ⟨v, w, -, -, -, hsame⟩ := toValue_json hjson hkeeps
  exact ⟨j, hjson, hkeeps, horder, by decide +kernel, (hsame e).2 horder 2 template store⟩

/-! ## Names that are lost -/

/-- A document with one field is converted to a map with one entry. -/
theorem convert_single {name : String} {j : Json} {v : Value} (h : convert (ofJson j) = .ok v) :
    convert (ofJson (.obj [(name, j)])) = .ok (.map [(name, v)]) := by
  have hfield : Becomes (ofFields [(name, j)]) [(name, v)] := .cons (.mk h) .nil
  obtain ⟨entries, hobj, hperm⟩ := exists_convert_obj hfield
  rw [hobj, List.singleton_perm.1 hperm]

/-- Data that is told better by its document: it becomes another value. -/
def TellsMore (d : Datum) : Prop :=
  ∃ j v w, d.json? = some j ∧ d.toValue = .ok v ∧ (ofJson j).toValue = .ok w ∧ ¬ v.Rearranged w

/-- **The document tells more** of a case with several parts, whose name is left out
when it is converted, and of a large integer that is a key. -/
theorem json_tells_more :
    (tupleVariant "V" [.int 1]).TellsMore ∧ (structVariant "V" [("x", .int 1)]).TellsMore ∧
      (Datum.map [.key (.int 18446744073709551615), .value (.str "big")]).TellsMore := by
  have hnames {name name' : String} {v v' : Value} (hne : name ≠ name') :
      ¬ (Value.map [(name, v)]).Rearranged (.map [(name', v')]) :=
    fun h => hne (List.singleton_inj.1 (List.singleton_perm.1 h.perm_names))
  have hkey : convert (.map [.key (.int 18446744073709551615), .value (.str "big")]) =
      .ok (.map [("18446744073709552000", .str "big")]) := by
    have htext : keyText (intValue 18446744073709551615) = .ok "18446744073709552000" := by
      decide +kernel
    rw [convert, convertParts, convert]
    change (do let entries ← (do let key ← keyText (intValue 18446744073709551615); _); _) = _
    rw [htext]
    rfl
  refine ⟨?_, ?_, ?_⟩
  · exact ⟨_, _, _, rfl, rfl, toValue_eq_ok (convert_single rfl), nofun⟩
  · exact ⟨_, _, _, rfl, rfl, toValue_eq_ok (convert_single (convert_single rfl)),
      hnames (by decide)⟩
  · exact ⟨_, _, _, rfl, toValue_eq_ok hkey, toValue_eq_ok (convert_single rfl),
      hnames (by decide)⟩

end Datum

end Mustache
