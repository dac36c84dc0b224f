import Mustache.Proofs.Run
/-!
# Mustache — rendering leaves the context intact

A section puts frames on the stack and a parent tag puts overrides there,
and everything rendered in between may stop with an error. Whatever comes
of it, both stacks are afterwards what they were. So instructions that
stand one after the other are rendered against the same context, and
rendering a list is rendering its parts in turn.

The renderer is taken apart once, function by function, given that what
it runs in other places leaves the context alone; the bound on nested
places then carries the fact through.
-/

namespace Mustache

namespace Render

variable {α : Type}

/-- **The context is intact**: the run leaves both stacks and the treatment
of null as they were, whether it ends with a result or stops. -/
abbrev Balanced (run : Render α) : Prop := Keeps State.context run

namespace Balanced

variable {run : Render α}

theorem fail (error : Error) : Balanced (Render.fail error : Render α) := fun _ => rfl

theorem ofExcept (result : Except Error α) : Balanced (Render.ofExcept result) := by
  intro s
  rw [outcome_ofExcept]

theorem onStore (work : OnStore α) : Balanced (Render.onStore work) := by
  intro s
  rw [outcome_onStore]

theorem attempt (h : Balanced run) : Balanced (Render.attempt run) := by
  intro s
  have hs := h s
  rw [outcome_attempt]
  rcases hrun : outcome run s with ⟨(error | _) | a, s'⟩ <;> rw [hrun] at hs <;> exact hs

/-- What is put on a stack before a run is on top after it, so taking it
off again restores the stack. -/
theorem between {enter leave : Context → Context} (hleave : ∀ c, leave (enter c) = c)
    (h : Balanced run) : Balanced (Render.between enter leave run) := by
  intro s
  rw [outcome_between]
  exact (congrArg leave (h _)).trans (hleave s.context)

theorem inFrame (value : Value) (h : Balanced run) : Balanced (Render.inFrame value run) :=
  between (fun _ => rfl) h

theorem withOverrides (table : Entries BlockRef) (h : Balanced run) :
    Balanced (Render.withOverrides table run) :=
  between (fun _ => rfl) h

end Balanced

/-! ## The renderer, function by function -/

section Functions

variable {e : Engine} {again : Runner}

theorem balanced_resolve (lookup : Lookup) : Balanced (resolve e lookup) :=
  Keeps.bind Keeps.get fun _ => Balanced.ofExcept _

theorem balanced_applyFilters (strict : Bool) (value : Value) (filters : List Filter) :
    Balanced (applyFilters e strict value filters) := by
  induction filters generalizing value with
  | nil => exact Keeps.pure value
  | cons f fs ih =>
    refine Keeps.bind (balanced_resolve f.lookup) fun found => ?_
    split
    · exact Balanced.fail _
    · exact Keeps.bind (Balanced.ofExcept _) ih

section

variable (hagain : ∀ p is indent, Balanced (again p is indent))

include hagain

theorem balanced_given (text : String) (asked : Option Delimiters) :
    Balanced (given e again text asked) :=
  Keeps.bind (Balanced.onStore _) fun p => hagain p p.body ""

theorem balanced_settle (strict : Bool) (value : Value) :
    Balanced (settle e again strict value) := by
  unfold settle
  split
  · exact Keeps.pure value
  · exact Keeps.bind (Balanced.ofExcept _) fun _ =>
      Keeps.bind (balanced_given hagain _ _) fun _ => Keeps.pure _

theorem balanced_templateName (strict : Bool) (name : TemplateName) :
    Balanced (templateName e again strict name) := by
  cases name with
  | fixed name => exact Keeps.pure name
  | dynamic lookup =>
    exact Keeps.bind (balanced_resolve lookup) fun _ =>
      Keeps.bind (balanced_settle hagain strict _) fun _ => Keeps.pure _

/-- A procedure may have texts rendered as often as it likes. -/
theorem balanced_perform (action : Action) : Balanced (perform e again action) := by
  induction action with
  | done result => exact Balanced.ofExcept result
  | render asked text next ih =>
    exact Keeps.bind (Balanced.attempt (balanced_given hagain text asked)) ih

theorem balanced_lambdaSection (s : SectionBody) (ref : Nat) :
    Balanced (lambdaSection e again s ref) := by
  refine Keeps.bind (balanced_perform hagain _) fun result => ?_
  dsimp only
  split
  · exact balanced_given hagain _ _
  · exact Keeps.pure _

omit hagain in
theorem balanced_forEach {body : Render String} (hbody : Balanced body) (values : List Value) :
    Balanced (forEach body values) := by
  induction values with
  | nil => exact Keeps.pure ""
  | cons value values ih =>
    exact Keeps.bind (Balanced.inFrame value hbody) fun _ =>
      Keeps.bind ih fun _ => Keeps.pure _

theorem balanced_sectionText (p : Program) (s : SectionBody) (value : Value)
    (indent : String) : Balanced (sectionText e again p s value indent) := by
  unfold sectionText
  split
  · exact balanced_lambdaSection hagain s _
  · split
    · exact Keeps.pure ""
    · exact balanced_forEach (hagain p s.body indent) _

theorem balanced_parent (p : Program) (name : TemplateName) (overrides : List (String × String))
    (indent : String) : Balanced (parent e again p name overrides indent) := by
  refine Keeps.bind (balanced_templateName hagain _ name) fun name => ?_
  refine Keeps.bind (Balanced.onStore _) fun found => ?_
  split
  · exact Keeps.pure ""
  · next parent =>
    split
    · exact hagain parent parent.body indent
    · exact Balanced.withOverrides _ (hagain parent parent.body indent)

theorem balanced_overriding (block : BlockRef) : Balanced (overriding again block) := by
  unfold overriding
  split
  · exact hagain block.program _ ""
  · exact Keeps.pure ""

end

mutual

theorem balanced_instrs (hagain : ∀ p is indent, Balanced (again p is indent)) (p : Program)
    (indent : String) (is : List Instr) : Balanced (instrs e again p indent is) := by
  cases is with
  | nil => exact Keeps.pure ""
  | cons i is =>
    exact Keeps.bind (balanced_instr hagain p indent i) fun _ =>
      Keeps.bind (balanced_instrs hagain p indent is) fun _ => Keeps.pure _

theorem balanced_instr (hagain : ∀ p is indent, Balanced (again p is indent)) (p : Program)
    (indent : String) (i : Instr) : Balanced (instr e again p indent i) := by
  cases i with
  | text value indented => exact Keeps.pure _
  | interpolate lookup filters escape indented =>
    exact Keeps.bind (balanced_resolve lookup) fun _ =>
      Keeps.bind (balanced_settle hagain _ _) fun _ =>
        Keeps.bind (balanced_applyFilters _ _ filters) fun _ => Keeps.pure _
  | enter lookup filters key =>
    refine Keeps.bind (balanced_resolve lookup) fun _ =>
      Keeps.bind (balanced_applyFilters _ _ filters) fun value => ?_
    split
    · exact balanced_sectionText hagain p _ value indent
    · exact Keeps.pure ""
  | inverted lookup filters body =>
    refine Keeps.bind (balanced_resolve lookup) fun _ =>
      Keeps.bind (balanced_applyFilters _ _ filters) fun value => ?_
    split
    · exact balanced_instrs hagain p indent body
    · exact Keeps.pure ""
  | insertPartial name captured =>
    refine Keeps.bind (balanced_templateName hagain _ name) fun name =>
      Keeps.bind (Balanced.onStore _) fun found => ?_
    split
    · next inner => exact hagain inner inner.body _
    · exact Keeps.pure ""
  | extend name overrides => exact balanced_parent hagain p name overrides indent
  | block name default =>
    refine Keeps.bind Keeps.get fun s => ?_
    split
    · exact balanced_overriding hagain _
    · exact balanced_instrs hagain p indent default

end

end Functions

/-- **Rendering leaves the context intact**, however deep places nest. -/
theorem balanced_code (e : Engine) (depth : Nat) (p : Program) (is : List Instr)
    (indent : String) : Balanced (code e depth p is indent) := by
  induction depth generalizing p is indent with
  | zero => exact Keeps.throw _
  | succ depth ih => exact balanced_instrs ih p indent is

/-! ## One list after another -/

/-- Running two lists as one is running the first and then the second. -/
theorem instrs_append (e : Engine) (again : Runner) (p : Program) (indent : String)
    (xs ys : List Instr) :
    instrs e again p indent (xs ++ ys) = do
      let first ← instrs e again p indent xs
      let second ← instrs e again p indent ys
      return first ++ second := by
  induction xs with
  | nil => simp only [List.nil_append, instrs, pure_bind, String.empty_append, bind_pure]
  | cons x xs ih =>
    simp only [List.cons_append, instrs, ih, bind_assoc, pure_bind, String.append_assoc]

/-- The same under a bound. A bound of nothing stops before either. -/
theorem code_append (e : Engine) (depth : Nat) (p : Program) (indent : String)
    (xs ys : List Instr) :
    code e depth p (xs ++ ys) indent = do
      let first ← code e depth p xs indent
      let second ← code e depth p ys indent
      return first ++ second := by
  cases depth with
  | zero => rfl
  | succ depth => exact instrs_append e (code e depth) p indent xs ys

/-- **Rendering is compositional and leaves the context intact.** For any
instructions, from any stacks and whatever comes of it, the context is
afterwards what it was. So a list is rendered part by part, each part
against the context that the list began with: the texts are put together
and the first part that stops decides. What a parent tag overrides is
gone by the next one. -/
theorem code_append_outcome (e : Engine) (depth : Nat) (p : Program) (indent : String)
    (xs ys : List Instr) (s : State) :
    (outcome (code e depth p xs indent) s).2.context = s.context ∧
      outcome (code e depth p (xs ++ ys) indent) s =
        match outcome (code e depth p xs indent) s with
        | (.error stop, after) => (.error stop, after)
        | (.ok first, after) =>
          let second := outcome (code e depth p ys indent) { s with store := after.store }
          (second.1.map (first ++ ·), second.2) := by
  have hcontext : (outcome (code e depth p xs indent) s).2.context = s.context :=
    balanced_code e depth p xs indent s
  refine ⟨hcontext, ?_⟩
  rw [code_append, outcome_bind]
  rcases hxs : outcome (code e depth p xs indent) s with ⟨stop | first, after⟩
  · rfl
  · rw [hxs] at hcontext
    have hafter : after = { s with store := after.store } := by rw [← hcontext]
    rw [andThen_ok, outcome_bind, hafter]
    dsimp only
    generalize outcome (code e depth p ys indent) { s with store := after.store } = second
    rcases second with ⟨_ | _, _⟩ <;> rfl

end Render

end Mustache
