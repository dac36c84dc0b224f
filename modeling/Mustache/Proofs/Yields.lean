import Mustache.Proofs.Run
/-!
# Mustache — what runs yield

`Yields` says of a run which values it gives and which errors it stops with, as
long as the states it is begun in are of one kind, and that it leaves such a
state. There is one lemma for each way of building a run. So a claim about all
the errors of a run comes down to the places where one is thrown.
-/

namespace Mustache

section Yields

variable {ε σ τ α β : Type}

/-- A result that is a value of one kind or an error of another. -/
inductive EndsIn (V : α → Prop) (E : ε → Prop) : Except ε α → Prop
  | ok {a : α} : V a → EndsIn V E (.ok a)
  | error {e : ε} : E e → EndsIn V E (.error e)

/-- **What a run yields**: begun in a state of one kind it leaves such a state,
and gives a value of one kind or stops with an error of another. -/
def Yields (I : σ → Prop) (V : α → Prop) (E : ε → Prop) (run : ExceptT ε (StateM σ) α) : Prop :=
  ∀ s, I s → EndsIn V E (outcome run s).1 ∧ I (outcome run s).2

namespace Yields

variable {I J : σ → Prop} {V : α → Prop} {W : β → Prop} {E : ε → Prop}
variable {run : ExceptT ε (StateM σ) α}

theorem pure {a : α} (h : V a) : Yields I V E (Pure.pure a : ExceptT ε (StateM σ) α) :=
  fun _ hs => ⟨.ok h, hs⟩

theorem throw {e : ε} (h : E e) : Yields I V E (MonadExcept.throw e : ExceptT ε (StateM σ) α) :=
  fun _ hs => ⟨.error h, hs⟩

theorem get : Yields I I E (MonadState.get : ExceptT ε (StateM σ) σ) := fun _ hs => ⟨.ok hs, hs⟩

theorem bind {next : α → ExceptT ε (StateM σ) β} (hrun : Yields I V E run)
    (hnext : ∀ a, V a → Yields I W E (next a)) : Yields I W E (run >>= next) := by
  intro s hs
  obtain ⟨hends, hafter⟩ := hrun s hs
  rw [outcome_bind]
  rcases h : outcome run s with ⟨x, s'⟩
  rw [h] at hends hafter
  cases hends with
  | ok ha => exact hnext _ ha s' hafter
  | error he => exact ⟨.error he, hafter⟩

/-- Work that was had without the state. -/
theorem liftM {result : Except ε α} (h : EndsIn V E result) :
    Yields I V E (MonadLift.monadLift result : ExceptT ε (StateM σ) α) := by
  intro s hs
  exact ⟨by cases h <;> constructor <;> assumption, hs⟩

/-- What matches itself yields values of that kind. -/
theorem of_matches (h : Matches (Both I) (Both V) run run) : Yields I V (fun _ => True) run := by
  intro s hs
  obtain ⟨hresult, -, hafter⟩ := h s s ⟨rfl, hs⟩
  refine ⟨?_, hafter⟩
  generalize (outcome run s).1 = x at hresult
  cases hresult with
  | ok hboth => exact .ok hboth.2
  | error e => exact .error trivial

/-- The values by one argument, the errors by another. -/
theorem and (h : Yields I V (fun _ => True) run) (h' : Yields J (fun _ => True) E run) :
    Yields (fun s => I s ∧ J s) V E run := by
  intro s hs
  obtain ⟨hvalue, hI⟩ := h s hs.1
  obtain ⟨herror, hJ⟩ := h' s hs.2
  refine ⟨?_, hI, hJ⟩
  generalize (outcome run s).1 = x at hvalue herror
  cases hvalue with
  | ok ha => exact .ok ha
  | error _ =>
    cases herror with
    | error he => exact .error he

/-- A run that leaves a part of its state alone. -/
theorem of_keeps {part : σ → τ} {x : τ} (hkeeps : Keeps part run)
    (h : ∀ s e, part s = x → (outcome run s).1 = .error e → E e) :
    Yields (fun s => part s = x) (fun _ => True) E run := by
  intro s hs
  refine ⟨?_, (hkeeps s).trans hs⟩
  cases hresult : (outcome run s).1 with
  | ok a => exact .ok trivial
  | error e => exact .error (h s e hs hresult)

end Yields

end Yields

/-! ## The building blocks of the renderer -/

/-- A run stops with an error of one kind, or is exhausted. -/
inductive Stop.In (E : Error → Prop) : Stop → Prop
  | failed {err : Error} : E err → In E (.failed err)
  | exhausted : In E .exhausted

namespace Render

section

variable {α : Type} {I : State → Prop} {V : α → Prop} {E : Error → Prop}

theorem yields_ofExcept {result : Except Error α} (h : EndsIn V E result) :
    Yields I V (Stop.In E) (ofExcept result) := by
  intro s hs
  rw [outcome_ofExcept]
  refine ⟨?_, hs⟩
  cases h with
  | ok ha => exact .ok ha
  | error he => exact .error (.failed he)

theorem yields_onStore {J : Store → Prop} {work : OnStore α} (h : Yields J V E work)
    (hstore : ∀ s, I s → J s.store)
    (hafter : ∀ s store, I s → J store → I { s with store := store }) :
    Yields I V (Stop.In E) (onStore work) := by
  intro s hs
  obtain ⟨hends, hJ⟩ := h s.store (hstore s hs)
  rw [outcome_onStore]
  refine ⟨?_, hafter s _ hs hJ⟩
  generalize (outcome work s.store).1 = x at hends
  cases hends with
  | ok ha => exact .ok ha
  | error he => exact .error (.failed he)

theorem yields_between {enter leave : Context → Context} {run : Render α}
    (henter : ∀ s, I s → I { s with context := enter s.context })
    (hleave : ∀ s, I s → I { s with context := leave s.context })
    (h : Yields I V (Stop.In E) run) : Yields I V (Stop.In E) (between enter leave run) := by
  intro s hs
  obtain ⟨hends, hafter⟩ := h _ (henter s hs)
  rw [outcome_between]
  exact ⟨hends, hleave _ hafter⟩

end

end Render

end Mustache
