import Mathlib.Data.List.Forall2
import Mustache.Proofs.Abreast
import Mustache.Proofs.Basic
/-!
# Mustache — maps in another order

Two values can be the same but for the order in which the entries of maps stand,
in them or anywhere inside (`Value.Rearranged`). No lookup tells such values apart:
under every name there is again the same up to that order, or nothing in both, or
the same error (`Context.Rearranged.resolve`).

So templates cannot tell them apart either. From contexts that are rearranged a
program renders to the same text (`Render.rearranged_code`), as long as the filters
of the host do not look at the order (`Host.Orderless`).
-/

namespace Mustache

/-! ## Tables with related values -/

namespace Entries

variable {α β : Type}

/-- Two entries with one name and related values. -/
inductive Named (R : α → β → Prop) : String × α → String × β → Prop
  | mk {name : String} {a : α} {b : β} : R a b → Named R (name, a) (name, b)

variable {R : α → β → Prop} {m : Entries α} {m' : Entries β}

theorem names_eq_of_named (h : List.Forall₂ (Named R) m m') : names m' = names m := by
  induction h with
  | nil => rfl
  | cons hentry _ ih =>
    cases hentry
    exact congrArg _ ih

/-- Under a name related tables have related values, or nothing. -/
theorem rel_get? (h : List.Forall₂ (Named R) m m') (name : String) :
    Option.Rel R (get? m name) (get? m' name) := by
  induction h with
  | nil => exact .none
  | cons hentry _ ih =>
    cases hentry with
    | mk hab =>
      rw [get?, get?]
      split
      · exact .some hab
      · exact ih

/-- Putting related values keeps tables related. -/
theorem named_insert (h : List.Forall₂ (Named R) m m') {a : α} {b : β} (hab : R a b)
    (name : String) : List.Forall₂ (Named R) (insert m name a) (insert m' name b) := by
  induction h with
  | nil => exact .cons (.mk hab) .nil
  | cons hentry hrest ih =>
    cases hentry with
    | mk hvalue =>
      rw [insert, insert]
      split
      · exact .cons (.mk hab) hrest
      · exact .cons (.mk hvalue) ih

theorem named_ofPairs {pairs : List (String × α)} {pairs' : List (String × β)}
    (h : List.Forall₂ (Named R) pairs pairs') :
    List.Forall₂ (Named R) (ofPairs pairs) (ofPairs pairs') := by
  suffices hfold : ∀ m m', List.Forall₂ (Named R) m m' → List.Forall₂ (Named R)
      (pairs.foldl (fun m p => insert m p.1 p.2) m)
      (pairs'.foldl (fun m p => insert m p.1 p.2) m') from hfold [] [] .nil
  induction h with
  | nil => exact fun _ _ hm => hm
  | cons hentry _ ih =>
    intro m m' hm
    cases hentry with
    | mk hab => exact ih _ _ (named_insert hm hab _)

theorem nodup_ofPairs (pairs : List (String × α)) : (names (ofPairs pairs)).Nodup := by
  suffices hfold : ∀ m : Entries α, (names m).Nodup →
      (names (pairs.foldl (fun m p => insert m p.1 p.2) m)).Nodup from hfold [] List.nodup_nil
  induction pairs with
  | nil => exact fun _ hm => hm
  | cons p pairs ih => exact fun m hm => ih _ (nodup_insert hm p.1 p.2)

/-- Where no name is repeated, an entry is what stands under its name. -/
theorem get?_eq_some_iff {name : String} {a : α} (h : (names m).Nodup) :
    get? m name = some a ↔ (name, a) ∈ m := by
  refine ⟨mem_of_get?, fun hmem => ?_⟩
  induction m with
  | nil => cases hmem
  | cons entry m ih =>
    obtain ⟨hnew, hrest⟩ := List.nodup_cons.1 h
    rw [get?]
    rcases List.mem_cons.1 hmem with rfl | hmem
    · exact if_pos rfl
    · have hne : entry.1 ≠ name := by
        rintro rfl
        exact hnew (List.mem_map.2 ⟨_, hmem, rfl⟩)
      rw [if_neg hne]
      exact ih hrest hmem

/-- The order does not count for what stands under a name. -/
theorem get?_eq_of_perm {other : Entries α} (hperm : m.Perm other) (h : (names m).Nodup)
    (name : String) : get? other name = get? m name := by
  have h' : (names other).Nodup := (hperm.map _).nodup_iff.1 h
  refine Option.ext fun a => ?_
  rw [get?_eq_some_iff h, get?_eq_some_iff h', hperm.mem_iff]

end Entries

/-! ## Values -/

namespace Value

/-- **The same value, with the entries of maps in another order**, in the value or
anywhere inside. -/
inductive Rearranged : Value → Value → Prop
  | refl (v : Value) : Rearranged v v
  | list {items items' : List Value} :
      List.Forall₂ Rearranged items items' → Rearranged (.list items) (.list items')
  | map {entries entries' other : List (String × Value)} :
      (Entries.names entries).Nodup → List.Forall₂ (Entries.Named Rearranged) entries entries' →
      entries'.Perm other → Rearranged (.map entries) (.map other)

namespace Rearranged

variable {v w : Value}

/-- Maps that are rearranged have the same names. -/
theorem perm_names {entries other : List (String × Value)}
    (h : (Value.map entries).Rearranged (.map other)) :
    (Entries.names entries).Perm (Entries.names other) := by
  cases h with
  | refl => exact .refl _
  | map _ hentries hperm =>
    rw [← Entries.names_eq_of_named hentries]
    exact hperm.map Prod.fst

theorem isNull_eq (h : v.Rearranged w) : w.isNull = v.isNull := by cases h <;> rfl

theorem isMissing_eq (h : v.Rearranged w) : w.isMissing = v.isMissing := by cases h <;> rfl

/-- They skip the same sections. -/
theorem isEmpty_eq (h : v.Rearranged w) : w.isEmpty = v.isEmpty := by
  have hlength {α β : Type} {l : List α} {l' : List β} (h : l.length = l'.length) :
      l'.isEmpty = l.isEmpty := by
    rw [Bool.eq_iff_iff, List.isEmpty_iff_length_eq_zero, List.isEmpty_iff_length_eq_zero, h]
  cases h with
  | refl => rfl
  | list hitems => exact hlength hitems.length_eq
  | map _ hentries hperm => exact hlength (hentries.length_eq.trans hperm.length_eq)

/-- A variable writes the same for them: for a map it writes nothing. -/
theorem text_eq (h : v.Rearranged w) (host : Host) : w.text host = v.text host := by
  cases h <;> rfl

/-- They are the same procedure, or neither is one. -/
theorem callable?_eq (h : v.Rearranged w) (host : Host) (strict : Bool) :
    w.callable? host strict = v.callable? host strict := by
  cases h with
  | refl => rfl
  | map => rfl
  | list hitems =>
    -- only a pair can be called, of an object and a text
    cases hitems with
    | nil => rfl
    | @cons first _ _ _ hfirst hrest =>
      cases hfirst with
      | list | map => rfl
      | refl =>
        cases first with
        | object ref =>
          cases hrest with
          | nil => rfl
          | @cons second _ _ _ hsecond hrest =>
            cases hsecond with
            | list | map => rfl
            | refl =>
              cases second with
              | str name => cases hrest <;> rfl
              | _ => rfl
        | _ => rfl

/-- A section runs through values that correspond. -/
theorem elements (h : v.Rearranged w) (host : Host) :
    List.Forall₂ Rearranged ((v.elements? host).getD [v]) ((w.elements? host).getD [w]) := by
  have hself (values : List Value) : List.Forall₂ Rearranged values values :=
    List.forall₂_same.2 fun value _ => .refl value
  cases h with
  | refl => exact hself _
  | list hitems => exact hitems
  | map hnodup hentries hperm => exact .cons (.map hnodup hentries hperm) .nil

/-- What counts as found counts in both. -/
theorem rel_keep {found found' : Option Value} (h : Option.Rel Rearranged found found')
    (skipNull : Bool) : Option.Rel Rearranged (keep skipNull found) (keep skipNull found') := by
  cases h with
  | none => exact .none
  | some hvalue =>
    unfold keep
    rw [Option.filter_some, Option.filter_some, hvalue.isNull_eq]
    split
    · exact .some hvalue
    · exact .none

/-- **Under every key stands the same**, up to the order. -/
theorem lookup (h : v.Rearranged w) (host : Host) (key : String) (skipNull : Bool) :
    Alike (Option.Rel Rearranged) (v.lookup host key skipNull) (w.lookup host key skipNull) := by
  cases h with
  | refl =>
    refine Alike.refl (fun found => ?_) _
    cases found with
    | none => exact .none
    | some value => exact .some (.refl value)
  | @list items items' hitems =>
    refine .ok (rel_keep ?_ skipNull)
    cases positionOf? key with
    | none => exact .none
    | some i =>
      change Option.Rel Rearranged items[i]? items'[i]?
      by_cases hi : i < items.length
      · have hi' : i < items'.length := hitems.length_eq ▸ hi
        rw [List.getElem?_eq_getElem hi, List.getElem?_eq_getElem hi']
        exact .some (hitems.get hi hi')
      · have hi' : ¬ i < items'.length := hitems.length_eq ▸ hi
        rw [List.getElem?_eq_none (Nat.le_of_not_lt hi),
          List.getElem?_eq_none (Nat.le_of_not_lt hi')]
        exact .none
  | @map entries entries' other hnodup hentries hperm =>
    refine .ok (rel_keep ?_ skipNull)
    -- in the same order first, and then in another one, as no name is repeated
    have hnodup' : (Entries.names entries').Nodup := by
      rwa [Entries.names_eq_of_named hentries]
    rw [Entries.get?_eq_of_perm hperm hnodup']
    exact Entries.rel_get? hentries key

end Rearranged

end Value

/-! ## Contexts -/

namespace Context

/-- **Contexts with rearranged frames**: each frame is the same up to the order of
the entries of maps. -/
structure Rearranged (c c' : Context) : Prop where
  frames : List.Forall₂ Value.Rearranged c.frames c'.frames
  overrides : c'.overrides = c.overrides
  skipNull : c'.skipNull = c.skipNull

namespace Rearranged

variable {c c' : Context} {host : Host}

theorem refl (c : Context) : c.Rearranged c :=
  ⟨List.forall₂_same.2 fun frame _ => .refl frame, rfl, rfl⟩

theorem push (h : c.Rearranged c') {v w : Value} (hvalue : v.Rearranged w) :
    (c.push v).Rearranged (c'.push w) := ⟨.cons hvalue h.frames, h.overrides, h.skipNull⟩

theorem pop (h : c.Rearranged c') : c.pop.Rearranged c'.pop := by
  refine ⟨?_, h.overrides, h.skipNull⟩
  have hframes := h.frames
  change List.Forall₂ Value.Rearranged c.frames.tail c'.frames.tail
  generalize c.frames = frames at hframes
  generalize c'.frames = frames' at hframes
  cases hframes with
  | nil => exact .nil
  | cons _ hrest => exact hrest

theorem findIn (skipNull : Bool) (name : String) {frames frames' : List Value}
    (h : List.Forall₂ Value.Rearranged frames frames') :
    Mustache.Alike Value.Rearranged (Context.findIn host skipNull name frames)
      (Context.findIn host skipNull name frames') := by
  induction h with
  | nil => exact .ok (.refl _)
  | cons hframe _ ih =>
    refine (hframe.lookup host name skipNull).bind ?_
    intro found found' hfound
    cases hfound with
    | none => exact ih
    | some hvalue => exact .ok hvalue

theorem descend (skipNull : Bool) {v w : Value} (h : v.Rearranged w) (names : List String) :
    Mustache.Alike Value.Rearranged (Context.descend host skipNull v names)
      (Context.descend host skipNull w names) := by
  induction names generalizing v w with
  | nil => exact .ok h
  | cons name names ih =>
    rw [Context.descend, Context.descend, h.isMissing_eq]
    split
    · exact .ok h
    · refine (h.lookup host name skipNull).bind ?_
      intro found found' hfound
      cases hfound with
      | none => exact ih (.refl _)
      | some hvalue => exact ih hvalue

theorem top? (h : c.Rearranged c') : Option.Rel Value.Rearranged c.top? c'.top? := by
  have hframes := h.frames
  unfold Context.top?
  generalize c.frames = frames at hframes
  generalize c'.frames = frames' at hframes
  cases hframes with
  | nil => exact .none
  | cons hframe _ => exact .some hframe

/-- **Under every name stands the same**, up to the order, in contexts that are
rearranged. -/
theorem resolve (h : c.Rearranged c') (host : Host) (lookup : Lookup) :
    Mustache.Alike Value.Rearranged (c.resolve host lookup) (c'.resolve host lookup) := by
  have hfind (name : String) :
      Mustache.Alike Value.Rearranged (c.find host name) (c'.find host name) := by
    unfold Context.find
    rw [h.skipNull]
    exact findIn c.skipNull name h.frames
  have htop := h.top?
  cases lookup with
  | top =>
    change Mustache.Alike _ (.ok (c.top?.getD .null)) (.ok (c'.top?.getD .null))
    generalize c.top? = top at htop
    generalize c'.top? = top' at htop
    cases htop with
    | none => exact .ok (.refl _)
    | some hvalue => exact .ok hvalue
  | find id => exact hfind id
  | findDotted id =>
    change Mustache.Alike _ (c.findDotted host id) (c'.findDotted host id)
    unfold Context.findDotted
    rw [h.skipNull]
    split
    · exact hfind ""
    · exact (hfind _).bind fun _ _ hvalue => descend c.skipNull hvalue _
  | findAnchored id =>
    change Mustache.Alike _ (c.findAnchored host id) (c'.findAnchored host id)
    unfold Context.findAnchored
    rw [h.skipNull]
    split
    · generalize c.top? = top at htop
      generalize c'.top? = top' at htop
      cases htop with
      | none => exact .ok (.refl _)
      | some hvalue => exact descend c.skipNull hvalue _
    · exact .error _

end Rearranged

end Context

/-- The contexts that an engine renders against for data in another order. -/
theorem Engine.rearranged_contextFor (e : Engine) {v w : Value} (h : v.Rearranged w) :
    (e.contextFor v).Rearranged (e.contextFor w) := by
  unfold contextFor
  dsimp only
  rw [h.isEmpty_eq]
  split
  · exact .refl _
  · exact (Context.Rearranged.refl _).push h

/-! ## Renders -/

/-- **A host without an eye for order**: what its filters give is the same, up to the
order, for values that are. -/
def Host.Orderless (host : Host) : Prop :=
  ∀ ref (v w : Value), v.Rearranged w →
    Alike Value.Rearranged (host.call ref [v]) (host.call ref [w])

namespace Render

/-- Rearranged contexts, and one store. -/
structure Reordered (s t : State) : Prop where
  context : s.context.Rearranged t.context
  store : t.store = s.store

/-- A run that gives the same wherever contexts are rearranged. -/
abbrev Orderless {α : Type} (run : Render α) : Prop := Matches Reordered Eq run run

/-- Values that are the same up to the order. -/
abbrev FindsAlike (run run' : Render Value) : Prop :=
  Matches Reordered Value.Rearranged run run'

variable {e : Engine} {again : Runner} {p : Program} {indent : String}

theorem orderless_onStore {α : Type} (work : OnStore α) : Orderless (onStore work) := by
  have hsame : Matches (fun s t : Store => t = s) Eq work work := by
    rintro s _ rfl
    exact ⟨Alike.refl (fun _ => rfl) _, rfl⟩
  exact matches_onStore_of (fun _ _ hst => hst.store)
    (fun _ _ _ _ hst hstore => ⟨hst.context, hstore⟩) hsame

theorem orderless_withOverrides {table : Entries BlockRef} {run : Render String}
    (h : Orderless run) : Orderless (withOverrides table run) := by
  refine matches_between_of (fun s t hst => ⟨⟨hst.context.frames, ?_, hst.context.skipNull⟩,
    hst.store⟩) (fun s t hst => ⟨⟨hst.context.frames, ?_, hst.context.skipNull⟩, hst.store⟩) h
  · exact congrArg (table :: ·) hst.context.overrides
  · exact congrArg List.tail hst.context.overrides

theorem findsAlike_resolve (lookup : Lookup) :
    FindsAlike (resolve e lookup) (resolve e lookup) := by
  intro s t hst
  rw [outcome_resolve, outcome_resolve]
  refine ⟨?_, hst⟩
  have hfound := hst.context.resolve e.host lookup
  generalize s.context.resolve e.host lookup = x at hfound
  generalize t.context.resolve e.host lookup = y at hfound
  cases hfound with
  | ok hvalue => exact .ok hvalue
  | error err => exact .error _

theorem findsAlike_ofExcept {x y : Except Error Value} (h : Alike Value.Rearranged x y) :
    FindsAlike (ofExcept x) (ofExcept y) := by
  cases h with
  | ok hvalue => exact .pure hvalue
  | error err => exact .throw _

/-- Filters without an eye for order. -/
theorem findsAlike_applyFilters (horder : e.host.Orderless) (strict : Bool)
    (filters : List Filter) {v w : Value} (h : v.Rearranged w) :
    FindsAlike (applyFilters e strict v filters) (applyFilters e strict w filters) := by
  induction filters generalizing v w with
  | nil => exact .pure h
  | cons f fs ih =>
    rw [applyFilters, applyFilters]
    refine .bind (findsAlike_resolve f.lookup) ?_
    intro found found' hfound
    rw [hfound.callable?_eq]
    split
    · exact matches_fail _
    · exact .bind (findsAlike_ofExcept (horder _ _ _ h)) fun _ _ hresult => ih hresult

/-- A body runs alike for values that correspond. -/
theorem orderless_forEach {body : Render String} (hbody : Orderless body)
    {values values' : List Value} (h : List.Forall₂ Value.Rearranged values values') :
    Matches Reordered Eq (forEach body values) (forEach body values') := by
  induction h with
  | nil => exact .pure rfl
  | @cons v w _ _ hvalue _ ih =>
    have hframe : Matches Reordered Eq (inFrame v body) (inFrame w body) :=
      matches_between_of (fun s t hst => ⟨hst.context.push hvalue, hst.store⟩)
        (fun s t hst => ⟨hst.context.pop, hst.store⟩) hbody
    exact hframe.append ih

section Again

variable (hagain : ∀ p code indent, Orderless (again p code indent))

include hagain

theorem orderless_given (text : String) (asked : Option Delimiters) :
    Orderless (given e again text asked) := by
  refine .bind_same (orderless_onStore _) fun p => ?_
  exact hagain p p.body ""

theorem findsAlike_settle (strict : Bool) {v w : Value} (h : v.Rearranged w) :
    FindsAlike (settle e again strict v) (settle e again strict w) := by
  unfold settle
  rw [h.callable?_eq]
  split
  · exact .pure h
  · refine .bind_same (matches_ofExcept _) fun result => ?_
    refine .bind_same (orderless_given hagain _ _) fun text => ?_
    exact .pure (.refl _)

theorem orderless_templateName (strict : Bool) (name : TemplateName) :
    Orderless (templateName e again strict name) := by
  cases name with
  | fixed name => exact .pure rfl
  | dynamic lookup =>
    refine .bind (findsAlike_resolve lookup) fun found found' hfound => ?_
    refine .bind (findsAlike_settle hagain strict hfound) fun value value' hvalue => ?_
    rw [hvalue.text_eq]
    exact .pure rfl

theorem orderless_perform (action : Action) : Orderless (perform e again action) := by
  induction action with
  | done result => exact matches_ofExcept result
  | render asked text next ih =>
    refine .bind_same (matches_attempt (orderless_given hagain text asked)) fun result => ?_
    exact ih result

theorem orderless_lambdaSection (body : SectionBody) (ref : Nat) :
    Orderless (lambdaSection e again body ref) := by
  unfold lambdaSection
  refine .bind_same (orderless_perform hagain _) fun result => ?_
  dsimp only
  split
  · exact orderless_given hagain _ _
  · exact .pure rfl

/-- Sections of values in another order. -/
theorem orderless_sectionText (body : SectionBody) {v w : Value} (h : v.Rearranged w) :
    Matches Reordered Eq (sectionText e again p body v indent)
      (sectionText e again p body w indent) := by
  unfold sectionText
  rw [h.callable?_eq, h.isEmpty_eq]
  split
  · exact orderless_lambdaSection hagain body _
  · split
    · exact .pure rfl
    · exact orderless_forEach (hagain p body.body indent) (h.elements e.host)

theorem orderless_parent (name : TemplateName) (overrides : List (String × String)) :
    Orderless (parent e again p name overrides indent) := by
  unfold parent
  refine .bind_same (orderless_templateName hagain _ name) fun name => ?_
  refine .bind_same (orderless_onStore _) fun found => ?_
  cases found with
  | none => exact .pure rfl
  | some parent =>
    dsimp only
    split
    · exact hagain parent parent.body indent
    · exact orderless_withOverrides (hagain parent parent.body indent)

end Again

mutual

theorem orderless_instrs (horder : e.host.Orderless)
    (hagain : ∀ p code indent, Orderless (again p code indent)) :
    ∀ code : List Instr, Orderless (instrs e again p indent code)
  | [] => .pure rfl
  | i :: code => by
    rw [instrs]
    exact .append (orderless_instr horder hagain i) (orderless_instrs horder hagain code)

/-- Each instruction writes the same, wherever contexts are rearranged. -/
theorem orderless_instr (horder : e.host.Orderless)
    (hagain : ∀ p code indent, Orderless (again p code indent)) :
    ∀ i : Instr, Orderless (instr e again p indent i)
  | .text value indented => by
    rw [instr]
    exact .pure rfl
  | .interpolate lookup filters escape indented => by
    rw [instr]
    refine .bind (findsAlike_resolve lookup) fun found found' hfound => ?_
    refine .bind (findsAlike_settle hagain _ hfound) fun settled settled' hsettled => ?_
    refine .bind (findsAlike_applyFilters horder _ filters hsettled) fun v w hvalue => ?_
    rw [hvalue.text_eq]
    exact .pure rfl
  | .enter lookup filters key => by
    rw [instr]
    refine .bind (findsAlike_resolve lookup) fun found found' hfound => ?_
    refine .bind (findsAlike_applyFilters horder _ filters hfound) fun v w hvalue => ?_
    split
    · exact orderless_sectionText hagain _ hvalue
    · exact .pure rfl
  | .inverted lookup filters body => by
    rw [instr]
    refine .bind (findsAlike_resolve lookup) fun found found' hfound => ?_
    refine .bind (findsAlike_applyFilters horder _ filters hfound) fun v w hvalue => ?_
    rw [hvalue.isEmpty_eq]
    split
    · exact orderless_instrs horder hagain body
    · exact .pure rfl
  | .insertPartial name captured => by
    rw [instr]
    refine .bind_same (orderless_templateName hagain _ name) fun name => ?_
    refine .bind_same (orderless_onStore _) fun found => ?_
    cases found with
    | none => exact .pure rfl
    | some inner => exact hagain inner inner.body _
  | .extend name overrides => by
    rw [instr]
    exact orderless_parent hagain name overrides
  | .block name default => by
    rw [instr]
    intro s t hst
    rw [outcome_bind, outcome_bind, outcome_get, outcome_get, andThen_ok, andThen_ok]
    have hsame : t.context.override? name = s.context.override? name := by
      unfold Context.override?
      rw [hst.context.overrides]
    rw [hsame]
    cases s.context.override? name with
    | none => exact orderless_instrs horder hagain default s t hst
    | some block =>
      dsimp only
      unfold overriding
      split
      · exact hagain block.program _ "" s t hst
      · exact Matches.pure rfl s t hst

end

/-- **The renderer does not look at the order** of the entries of a map, however deep
places nest, if the filters of the host do not. -/
theorem orderless_code (horder : e.host.Orderless) (depth : Nat) :
    ∀ p code indent, Orderless (Render.code e depth p code indent) := by
  induction depth with
  | zero => exact fun _ _ _ => .throw _
  | succ depth ih => exact fun _ code _ => orderless_instrs horder ih code

end Render

namespace Engine

variable {e : Engine} {v w : Value}

/-- **A program renders alike against data in another order.** -/
theorem runProgram_rearranged (horder : e.host.Orderless) (h : v.Rearranged w) (depth : Nat)
    (p : Program) (store : Store) :
    outcome (e.runProgram depth p v) store = outcome (e.runProgram depth p w) store := by
  have hstart : Render.Reordered ⟨e.contextFor v, store⟩ ⟨e.contextFor w, store⟩ :=
    ⟨e.rearranged_contextFor h, rfl⟩
  obtain ⟨hresult, hafter⟩ :=
    (Render.orderless_code horder depth p p.body "").result_eq hstart
  exact Prod.ext hresult hafter.store.symm

/-- A template renders alike against typed data that becomes the same, up to the
order. -/
theorem renderDatum_rearranged (horder : e.host.Orderless) (h : v.Rearranged w) {d d' : Datum}
    (hd : d.toValue = .ok v) (hd' : d'.toValue = .ok w) (depth : Nat) (name : String)
    (store : Store) :
    outcome (e.renderDatum depth name d) store = outcome (e.renderDatum depth name d') store := by
  unfold renderDatum
  rw [hd, hd', outcome_bind, outcome_bind]
  rcases outcome (working (e.template name)) store with ⟨err | p, store'⟩
  · rfl
  · exact runProgram_rearranged horder h depth p store'

end Engine

end Mustache
