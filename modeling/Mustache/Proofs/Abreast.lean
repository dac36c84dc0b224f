import Mustache.Proofs.Run
/-!
# Mustache — renders abreast

What the renderer does with the value of a tag it does through a few of its
functions: it looks names up, has the texts of procedures rendered, and puts
values on the stack. Where two renders do these alike (`Render.Abreast`), they
put values through filters alike, settle them, find the names of templates and
run sections alike. Whatever is to be shown of two renders side by side, this
part of it is shown here once.
-/

namespace Mustache

/-- What a procedure in a section asks for, step by step. -/
inductive Action.Asks (asks : Option Delimiters → Prop) : Action → Prop
  | done (result : Except Error Value) : Asks asks (.done result)
  | render {delimiters : Option Delimiters} {text : String}
      {next : Except Error String → Action} :
      asks delimiters → (∀ result, Asks asks (next result)) →
      Asks asks (.render delimiters text next)

/-- Where anything may be asked for, every procedure asks for what it may. -/
theorem Action.Asks.of_forall {asks : Option Delimiters → Prop} (h : ∀ asked, asks asked) :
    ∀ action : Action, action.Asks asks
  | .done result => .done result
  | .render asked _ next => .render (h asked) fun result => of_forall h (next result)

namespace Render

section Blocks

variable {R : State → State → Prop} {α β : Type} {V : α → β → Prop}

theorem matches_fail (error : Error) :
    Matches R V (fail error : Render α) (fail error : Render β) := Matches.throw _

theorem matches_ofExcept (result : Except Error α) :
    Matches R Eq (ofExcept result) (ofExcept result) := by
  intro s t h
  rw [outcome_ofExcept, outcome_ofExcept]
  refine ⟨?_, h⟩
  cases result with
  | ok a => exact .ok rfl
  | error e => exact .error _

/-- Errors that are made results match too. -/
theorem matches_attempt {run run' : Render α} (h : Matches R Eq run run') :
    Matches R Eq (attempt run) (attempt run') := by
  intro s t hst
  obtain ⟨hresult, hafter⟩ := h s t hst
  rw [outcome_attempt, outcome_attempt]
  rcases hs : outcome run s with ⟨x, s'⟩
  rcases ht : outcome run' t with ⟨y, t'⟩
  rw [hs, ht] at hresult hafter
  cases hresult with
  | ok hab => exact ⟨.ok (congrArg Except.ok hab), hafter⟩
  | error e =>
    cases e with
    | failed e => exact ⟨.ok rfl, hafter⟩
    | exhausted => exact ⟨.error _, hafter⟩

/-- Work that matches on the stores matches as part of a render. -/
theorem matches_onStore_of {S : Store → Store → Prop} {work : OnStore α} {work' : OnStore β}
    (hstore : ∀ s t, R s t → S s.store t.store)
    (hafter : ∀ s t store store', R s t → S store store' →
      R { s with store := store } { t with store := store' })
    (h : Matches S V work work') : Matches R V (onStore work) (onStore work') := by
  intro s t hst
  rw [outcome_onStore, outcome_onStore]
  obtain ⟨hresult, hrelated⟩ := h s.store t.store (hstore s t hst)
  refine ⟨?_, hafter s t _ _ hst hrelated⟩
  generalize (outcome work s.store).1 = x at hresult
  generalize (outcome work' t.store).1 = y at hresult
  cases hresult with
  | ok hab => exact .ok hab
  | error e => exact .error _

/-- What is done to the context before and after keeps the states related. -/
theorem matches_between_of {enter enter' leave leave' : Context → Context} {run : Render α}
    {run' : Render β}
    (henter : ∀ s t, R s t →
      R { s with context := enter s.context } { t with context := enter' t.context })
    (hleave : ∀ s t, R s t →
      R { s with context := leave s.context } { t with context := leave' t.context })
    (h : Matches R V run run') :
    Matches R V (between enter leave run) (between enter' leave' run') := by
  intro s t hst
  rw [outcome_between, outcome_between]
  obtain ⟨hresult, hafter⟩ := h _ _ (henter s t hst)
  exact ⟨hresult, hleave _ _ hafter⟩

end Blocks

/-- **Renders abreast**: from related states two engines look up the same, get
the same for a text under delimiters that may be asked for, and keep side by
side over a frame. -/
structure Abreast (R : State → State → Prop) (asks : Option Delimiters → Prop) (e e' : Engine)
    (again again' : Runner) : Prop where
  host : e'.host = e.host
  none : asks none
  actions : ∀ ref delimiters args, asks delimiters →
    (e.host.callInSection ref ⟨delimiters⟩ args).Asks asks
  resolve : ∀ lookup, Matches R Eq (resolve e lookup) (resolve e' lookup)
  given : ∀ text asked, asks asked →
    Matches R Eq (given e again text asked) (given e' again' text asked)
  inFrame : ∀ (value : Value) {run run' : Render String}, Matches R Eq run run' →
    Matches R Eq (inFrame value run) (inFrame value run')

namespace Abreast

variable {R : State → State → Prop} {asks : Option Delimiters → Prop} {e e' : Engine}
variable {again again' : Runner} (h : Abreast R asks e e' again again')

include h

theorem applyFilters (strict : Bool) (value : Value) (filters : List Filter) :
    Matches R Eq (applyFilters e strict value filters) (applyFilters e' strict value filters) := by
  induction filters generalizing value with
  | nil => exact Matches.pure rfl
  | cons f fs ih =>
    rw [Render.applyFilters, Render.applyFilters]
    refine Matches.bind_same (h.resolve f.lookup) fun found => ?_
    rw [h.host]
    split
    · exact matches_fail _
    · refine Matches.bind_same (matches_ofExcept _) fun result => ?_
      exact ih result

theorem settle (strict : Bool) (value : Value) :
    Matches R Eq (settle e again strict value) (settle e' again' strict value) := by
  unfold Render.settle
  rw [h.host]
  split
  · exact Matches.pure rfl
  · refine Matches.bind_same (matches_ofExcept _) fun result => ?_
    refine Matches.bind_same (h.given _ _ h.none) fun text => ?_
    exact Matches.pure rfl

theorem templateName (strict : Bool) (name : TemplateName) :
    Matches R Eq (templateName e again strict name) (templateName e' again' strict name) := by
  cases name with
  | fixed name => exact Matches.pure rfl
  | dynamic lookup =>
    refine Matches.bind_same (h.resolve lookup) fun found => ?_
    refine Matches.bind_same (h.settle strict found) fun value => ?_
    rw [h.host]
    exact Matches.pure rfl

/-- Whatever a procedure asks for, it gets the same in both. -/
theorem perform {action : Action} (haction : action.Asks asks) :
    Matches R Eq (perform e again action) (perform e' again' action) := by
  induction haction with
  | done result => exact matches_ofExcept result
  | render hasked _ ih =>
    refine Matches.bind_same (matches_attempt (h.given _ _ hasked)) fun result => ?_
    exact ih result

theorem lambdaSection {s s' : SectionBody} (hsource : s'.source = s.source)
    (hdelimiters : s'.delimiters = s.delimiters) (hasked : asks s.delimiters) (ref : Nat) :
    Matches R Eq (lambdaSection e again s ref) (lambdaSection e' again' s' ref) := by
  have htag (text : String) : hasTag s' text = hasTag s text := by
    unfold hasTag
    rw [hdelimiters]
  unfold Render.lambdaSection
  rw [h.host, hsource, hdelimiters]
  refine Matches.bind_same (h.perform (h.actions ref _ _ hasked)) fun result => ?_
  dsimp only
  rw [htag]
  split
  · exact h.given _ _ hasked
  · exact Matches.pure rfl

theorem forEach {body body' : Render String} (hbody : Matches R Eq body body')
    (values : List Value) : Matches R Eq (forEach body values) (forEach body' values) := by
  induction values with
  | nil => exact Matches.pure rfl
  | cons value values ih =>
    exact Matches.append (h.inFrame value hbody) ih

/-- **A section runs alike** if its body does. -/
theorem sectionText {p p' : Program} {s s' : SectionBody} {indent : String}
    (hstrict : p'.strictCallables = p.strictCallables) (hsource : s'.source = s.source)
    (hdelimiters : s'.delimiters = s.delimiters) (hasked : asks s.delimiters)
    (hbody : Matches R Eq (again p s.body indent) (again' p' s'.body indent)) (value : Value) :
    Matches R Eq (sectionText e again p s value indent)
      (sectionText e' again' p' s' value indent) := by
  unfold Render.sectionText
  rw [h.host, hstrict]
  split
  · exact h.lambdaSection hsource hdelimiters hasked _
  · split
    · exact Matches.pure rfl
    · exact h.forEach hbody _

end Abreast

end Render

/-! ## Whole renders -/

namespace Engine

/-- A render begins without overrides. -/
theorem overrides_contextFor (e : Engine) (data : Value) : (e.contextFor data).overrides = [] := by
  unfold contextFor
  dsimp only
  split <;> split <;> rfl

/-- Work that matches on the stores matches as part of a run. -/
theorem matches_working {S : Store → Store → Prop} {α β : Type} {V : α → β → Prop}
    {work : OnStore α} {work' : OnStore β} (h : Matches S V work work') :
    Matches S V (working work) (working work') := by
  intro s t hst
  obtain ⟨hresult, hafter⟩ := h s t hst
  rw [outcome_working, outcome_working]
  refine ⟨?_, hafter⟩
  generalize (outcome work s).1 = x at hresult
  generalize (outcome work' t).1 = y at hresult
  cases hresult with
  | ok hab => exact .ok hab
  | error e => exact .error _

end Engine

end Mustache
