import Mustache.Render
/-!
# Mustache — runs, one step at a time

Work on the store and runs of the renderer are both functions from a state
to a result and a state. `outcome` is that function; this file says what
it is for each way of building a run, so that nothing later has to open
the layers of the monad.

Two notions are built on it. `Keeps` is about one run: whatever comes of
it, the state it leaves is tied to the state it began with. `Matches` is
about two: begun in related states they end alike, in related states.
-/

namespace Mustache

variable {ε σ τ α β γ δ : Type}

/-- What comes of a run from a state, and the state it leaves. -/
def outcome (run : ExceptT ε (StateM σ) α) (s : σ) : Except ε α × σ := run.run.run s

/-- How an outcome goes on: a result is taken further, an error stays. -/
def andThen (before : Except ε α × σ) (next : α → σ → Except ε β × σ) : Except ε β × σ :=
  match before with
  | (.ok a, s) => next a s
  | (.error e, s) => (.error e, s)

@[simp] theorem andThen_ok (a : α) (s : σ) (next : α → σ → Except ε β × σ) :
    andThen (.ok a, s) next = next a s := rfl

@[simp] theorem andThen_error (e : ε) (s : σ) (next : α → σ → Except ε β × σ) :
    andThen (.error e, s) next = (.error e, s) := rfl

section Outcomes

variable (s : σ)

@[simp] theorem outcome_pure (a : α) :
    outcome (pure a : ExceptT ε (StateM σ) α) s = (.ok a, s) := rfl

@[simp] theorem outcome_throw (e : ε) :
    outcome (throw e : ExceptT ε (StateM σ) α) s = (.error e, s) := rfl

@[simp] theorem outcome_get : outcome (get : ExceptT ε (StateM σ) σ) s = (.ok s, s) := rfl

@[simp] theorem outcome_set (s' : σ) :
    outcome (set s' : ExceptT ε (StateM σ) PUnit) s = (.ok ⟨⟩, s') := rfl

@[simp] theorem outcome_modify (f : σ → σ) :
    outcome (modify f : ExceptT ε (StateM σ) PUnit) s = (.ok ⟨⟩, f s) := rfl

@[simp] theorem outcome_bind (run : ExceptT ε (StateM σ) α)
    (next : α → ExceptT ε (StateM σ) β) :
    outcome (run >>= next) s = andThen (outcome run s) fun a => outcome (next a) := by
  unfold outcome
  rw [ExceptT.run_bind, StateT.run_bind]
  rcases run.run.run s with ⟨e | a, s'⟩ <;> rfl

/-- A result that was had without the state. -/
@[simp] theorem outcome_liftM (result : Except ε α) :
    outcome (liftM result : ExceptT ε (StateM σ) α) s = (result, s) := by
  cases result <;> rfl

/-- An error that is caught goes on in the state it left. -/
@[simp] theorem outcome_tryCatch (run : ExceptT ε (StateM σ) α)
    (rescue : ε → ExceptT ε (StateM σ) α) :
    outcome (tryCatch run rescue) s =
      match outcome run s with
      | (.ok a, s') => (.ok a, s')
      | (.error e, s') => outcome (rescue e) s' := by
  unfold outcome ExceptT.run StateT.run
  simp only [tryCatch, tryCatchThe, MonadExceptOf.tryCatch, ExceptT.tryCatch, ExceptT.mk, bind,
    StateT.bind]
  rcases run s with ⟨e | a, s'⟩ <;> rfl

end Outcomes

/-! ## The building blocks of the renderer -/

namespace Render

variable (s : State)

@[simp] theorem outcome_fail (e : Error) :
    outcome (fail e : Render α) s = (.error (.failed e), s) := rfl

@[simp] theorem outcome_ofExcept (result : Except Error α) :
    outcome (ofExcept result) s = (result.mapError .failed, s) := by
  cases result <;> rfl

theorem outcome_ofExcept_ok (a : α) : outcome (ofExcept (.ok a)) s = (.ok a, s) := rfl

@[simp] theorem outcome_onStore (work : OnStore α) :
    outcome (onStore work) s =
      ((outcome work s.store).1.mapError .failed,
        { s with store := (outcome work s.store).2 }) := by
  unfold onStore
  rw [outcome_bind, outcome_get, andThen_ok]
  change outcome (do
    set { s with store := (outcome work s.store).2 }
    ofExcept (outcome work s.store).1) s = _
  rw [outcome_bind, outcome_set, andThen_ok, outcome_ofExcept]

/-- A run whose error is made a result stops only when it is exhausted. -/
@[simp] theorem outcome_attempt (run : Render α) :
    outcome (attempt run) s =
      match outcome run s with
      | (.ok a, s') => (.ok (.ok a), s')
      | (.error (.failed e), s') => (.ok (.error e), s')
      | (.error .exhausted, s') => (.error .exhausted, s') := by
  unfold attempt
  rw [outcome_tryCatch, outcome_bind]
  rcases outcome run s with ⟨(e | _) | a, s'⟩ <;> rfl

@[simp] theorem outcome_between (enter leave : Context → Context) (run : Render α) :
    outcome (between enter leave run) s =
      ((outcome run { s with context := enter s.context }).1,
        { (outcome run { s with context := enter s.context }).2 with
          context := leave (outcome run { s with context := enter s.context }).2.context }) :=
  rfl

/-- Looking up works on nothing. -/
theorem outcome_resolve (e : Engine) (lookup : Lookup) :
    outcome (resolve e lookup) s = ((s.context.resolve e.host lookup).mapError .failed, s) := by
  rw [resolve, outcome_bind, outcome_get, andThen_ok, outcome_ofExcept]

/-- The value that a section is about: what its tag looks up, put through its
filters. -/
def filtered (e : Engine) (strict : Bool) (lookup : Lookup) (filters : List Filter) :
    Render Value := do
  applyFilters e strict (← resolve e lookup) filters

theorem instr_enter (e : Engine) (again : Runner) (p : Program) (indent : String)
    (lookup : Lookup) (filters : List Filter) (key : String) :
    instr e again p indent (.enter lookup filters key) = (do
      let value ← filtered e p.strictCallables lookup filters
      match Entries.get? p.sections key with
      | some s => sectionText e again p s value indent
      | none => return "") := by
  rw [filtered, bind_assoc]
  rfl

theorem instr_inverted (e : Engine) (again : Runner) (p : Program) (indent : String)
    (lookup : Lookup) (filters : List Filter) (body : List Instr) :
    instr e again p indent (.inverted lookup filters body) = (do
      let value ← filtered e p.strictCallables lookup filters
      if value.isEmpty then instrs e again p indent body else return "") := by
  rw [instr, filtered, bind_assoc]

end Render

theorem Engine.outcome_working (work : OnStore α) (s : Store) :
    outcome (working work) s = ((outcome work s).1.mapError .failed, (outcome work s).2) := by
  change (match outcome work s with
    | (.ok a, store) => (Except.ok a, store)
    | (.error e, store) => (Except.error (Stop.failed e), store)) = _
  rcases outcome work s with ⟨e | a, s'⟩ <;> rfl

/-! ## What a run leaves alone -/

/-- Whatever comes of the run, it leaves a part of its state as it was. -/
def Keeps (part : σ → τ) (run : ExceptT ε (StateM σ) α) : Prop :=
  ∀ s, part (outcome run s).2 = part s

namespace Keeps

variable {part : σ → τ} {run : ExceptT ε (StateM σ) α}

theorem pure (a : α) : Keeps part (Pure.pure a : ExceptT ε (StateM σ) α) := fun _ => rfl

theorem throw (e : ε) : Keeps part (MonadExcept.throw e : ExceptT ε (StateM σ) α) := fun _ => rfl

theorem get : Keeps part (MonadState.get : ExceptT ε (StateM σ) σ) := fun _ => rfl

/-- What each step leaves alone the whole run leaves alone. -/
theorem bind {next : α → ExceptT ε (StateM σ) β} (hrun : Keeps part run)
    (hnext : ∀ a, Keeps part (next a)) : Keeps part (run >>= next) := by
  intro s
  have hfirst := hrun s
  rw [outcome_bind]
  rcases h : outcome run s with ⟨e | a, s'⟩ <;> rw [h] at hfirst
  · exact hfirst
  · exact (hnext a s').trans hfirst

/-- What a run and the rescue leave alone stays if the run is rescued. -/
theorem tryCatch {rescue : ε → ExceptT ε (StateM σ) α} (hrun : Keeps part run)
    (hrescue : ∀ e, Keeps part (rescue e)) : Keeps part (MonadExcept.tryCatch run rescue) := by
  intro s
  have hfirst := hrun s
  rw [outcome_tryCatch]
  rcases h : outcome run s with ⟨e | a, s'⟩ <;> rw [h] at hfirst
  · exact (hrescue e s').trans hfirst
  · exact hfirst

theorem ofExcept (result : Except ε α) :
    Keeps part (liftM result : ExceptT ε (StateM σ) α) := by
  intro s
  rw [outcome_liftM]

end Keeps

/-! ## Two runs side by side -/

/-- Two results that are related: both runs have one, or both end with the
same error. -/
inductive Alike (V : α → β → Prop) : Except ε α → Except ε β → Prop
  | ok {a : α} {b : β} : V a b → Alike V (.ok a) (.ok b)
  | error (e : ε) : Alike V (.error e) (.error e)

/-- A result is alike itself. -/
theorem Alike.refl {V : α → α → Prop} (hV : ∀ a, V a a) (x : Except ε α) : Alike V x x := by
  cases x with
  | error e => exact .error e
  | ok a => exact .ok (hV a)

/-- What is made of alike results is alike. -/
theorem Alike.bind {V : α → β → Prop} {W : γ → δ → Prop} {x : Except ε α} {y : Except ε β}
    {f : α → Except ε γ} {g : β → Except ε δ} (h : Alike V x y)
    (hnext : ∀ a b, V a b → Alike W (f a) (g b)) : Alike W (x >>= f) (y >>= g) := by
  cases h with
  | error e => exact .error e
  | ok hab => exact hnext _ _ hab

/-- **Two runs match**: begun in related states they have related results
and leave related states. -/
def Matches (R : σ → τ → Prop) (V : α → β → Prop) (run : ExceptT ε (StateM σ) α)
    (run' : ExceptT ε (StateM τ) β) : Prop :=
  ∀ s t, R s t →
    Alike V (outcome run s).1 (outcome run' t).1 ∧ R (outcome run s).2 (outcome run' t).2

namespace Matches

variable {R : σ → τ → Prop} {V : α → β → Prop} {W : γ → δ → Prop}
variable {run : ExceptT ε (StateM σ) α} {run' : ExceptT ε (StateM τ) β}

theorem pure {a : α} {b : β} (h : V a b) :
    Matches R V (Pure.pure a : ExceptT ε (StateM σ) α) (Pure.pure b) :=
  fun _ _ hR => ⟨.ok h, hR⟩

theorem throw (e : ε) :
    Matches R V (MonadExcept.throw e : ExceptT ε (StateM σ) α) (MonadExcept.throw e) :=
  fun _ _ hR => ⟨.error e, hR⟩

theorem bind {next : α → ExceptT ε (StateM σ) γ} {next' : β → ExceptT ε (StateM τ) δ}
    (hrun : Matches R V run run') (hnext : ∀ a b, V a b → Matches R W (next a) (next' b)) :
    Matches R W (run >>= next) (run' >>= next') := by
  intro s t hR
  obtain ⟨hV, hR'⟩ := hrun s t hR
  rw [outcome_bind, outcome_bind]
  rcases h : outcome run s with ⟨x, s'⟩
  rcases h' : outcome run' t with ⟨y, t'⟩
  rw [h, h'] at hV hR'
  cases hV with
  | ok hab => exact hnext _ _ hab s' t' hR'
  | error e => exact ⟨.error e, hR'⟩

/-- Both go on with the same value. -/
theorem bind_same {run : ExceptT ε (StateM σ) α} {run' : ExceptT ε (StateM τ) α}
    {next : α → ExceptT ε (StateM σ) γ} {next' : α → ExceptT ε (StateM τ) δ}
    (hrun : Matches R Eq run run') (hnext : ∀ a, Matches R W (next a) (next' a)) :
    Matches R W (run >>= next) (run' >>= next') := by
  refine hrun.bind ?_
  rintro a _ rfl
  exact hnext a

/-- Texts that match, one after the other. -/
theorem append {first more : ExceptT ε (StateM σ) String}
    {first' more' : ExceptT ε (StateM τ) String} (hfirst : Matches R Eq first first')
    (hmore : Matches R Eq more more') :
    Matches R Eq (do return (← first) ++ (← more)) (do return (← first') ++ (← more')) := by
  refine hfirst.bind_same fun a => ?_
  refine hmore.bind_same fun b => ?_
  exact .pure rfl

/-- A run matches itself. -/
theorem refl {V : α → α → Prop} (hV : ∀ a, V a a) (run : ExceptT ε (StateM σ) α) :
    Matches Eq V run run := by
  rintro s _ rfl
  exact ⟨Alike.refl hV _, rfl⟩

/-- Runs that match with equal results have the same one. -/
theorem result_eq {run₁ : ExceptT ε (StateM σ) α} {run₂ : ExceptT ε (StateM τ) α}
    (hrun : Matches R Eq run₁ run₂) {s : σ} {t : τ} (hR : R s t) :
    (outcome run₁ s).1 = (outcome run₂ t).1 ∧ R (outcome run₁ s).2 (outcome run₂ t).2 := by
  obtain ⟨hresult, hafter⟩ := hrun s t hR
  refine ⟨?_, hafter⟩
  generalize (outcome run₁ s).1 = x at hresult
  generalize (outcome run₂ t).1 = y at hresult
  cases hresult with
  | ok heq => rw [heq]
  | error e => rfl

theorem mono {V' : α → β → Prop} (hrun : Matches R V run run') (h : ∀ a b, V a b → V' a b) :
    Matches R V' run run' := by
  intro s t hR
  obtain ⟨hV, hR'⟩ := hrun s t hR
  refine ⟨?_, hR'⟩
  generalize (outcome run s).1 = x at hV
  generalize (outcome run' t).1 = y at hV
  cases hV with
  | ok hab => exact .ok (h _ _ hab)
  | error e => exact .error e

theorem tryCatch {rescue : ε → ExceptT ε (StateM σ) α} {rescue' : ε → ExceptT ε (StateM τ) β}
    (hrun : Matches R V run run') (hrescue : ∀ e, Matches R V (rescue e) (rescue' e)) :
    Matches R V (MonadExcept.tryCatch run rescue) (MonadExcept.tryCatch run' rescue') := by
  intro s t hR
  obtain ⟨hV, hR'⟩ := hrun s t hR
  rw [outcome_tryCatch, outcome_tryCatch]
  rcases h : outcome run s with ⟨x, s'⟩
  rcases h' : outcome run' t with ⟨y, t'⟩
  rw [h, h'] at hV hR'
  cases hV with
  | ok hab => exact ⟨.ok hab, hR'⟩
  | error e => exact hrescue e s' t' hR'

end Matches

/-! ## A run beside itself -/

/-- Twice the same, with a property. -/
def Both (P : α → Prop) (a b : α) : Prop := b = a ∧ P a

/-- What a run leaves alone keeps its properties. -/
theorem matches_of_keeps {part : σ → τ} {run : ExceptT ε (StateM σ) α} (h : Keeps part run)
    {I : σ → Prop} (hI : ∀ s s', part s' = part s → I s → I s') :
    Matches (Both I) Eq run run := by
  rintro _ s ⟨rfl, hs⟩
  refine ⟨?_, rfl, hI s _ (h s) hs⟩
  cases (outcome run s).1 with
  | error e => exact .error e
  | ok a => exact .ok rfl

/-- Side by side from one state, the outcome is the same. -/
theorem Matches.outcome_eq {I : σ → Prop} {run run' : ExceptT ε (StateM σ) α}
    (h : Matches (Both I) Eq run run') {s : σ} (hs : I s) :
    outcome run' s = outcome run s ∧ I (outcome run s).2 := by
  obtain ⟨hresult, hstate, hafter⟩ := h.result_eq (t := s) ⟨rfl, hs⟩
  exact ⟨Prod.ext hresult.symm hstate, hafter⟩

end Mustache
