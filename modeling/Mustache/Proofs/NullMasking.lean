import Mustache.Context
/-!
# Mustache — names that hold null

A name that holds null in a frame masks what lower frames have under it,
unless null is passed over. What a lookup finds either way is told here by the
entries of each frame, in the order in which they are tried: what the method
gives, the property, what stands under the key.

Passing null over changes nothing where the lookup finds something else
(`Value.lookup_true_of_found`, `Context.findIn_true_of_found`). Where it finds
null, the lookup goes on to the first entry that is not null — but what a method
gives is taken as it is, so a method that gives null ends the search all the
same (`Context.findIn_true_eq`).
-/

namespace Mustache

namespace Value

variable (host : Host) (key : String)

/-! ## The entries of a value -/

/-- What the method of an object gives, if it has one and the method does not
fail. -/
def methodResult? (o : HostObject) : Option Value :=
  (o.method key).bind fun ref => (host.call ref []).toOption

/-- The property of an object, if templates see it. -/
def visibleProperty? (o : HostObject) : Option Value :=
  match o.property key with
  | .visible v => some v
  | .hidden | .undefined => none

/-- All that stands under a key in a value, in the order in which it is
tried. -/
def entriesUnder : Value → List Value
  | .map entries | .helpers entries => (Entries.get? entries key).toList
  | .list items => ((positionOf? key).bind fun i => items[i]?).toList
  | .object ref =>
    (methodResult? host key (host.object ref)).toList ++
      ((visibleProperty? key (host.object ref)).toList ++ ((host.object ref).offset key).toList)
  | _ => []

/-- The value has a method under the key, and the method gives null. -/
def hasNullMethod : Value → Bool
  | .object ref => (methodResult? host key (host.object ref)).any isNull
  | _ => false

/-- The first entry that is not null. -/
def firstPresent? (entries : List Value) : Option Value := entries.find? fun v => !v.isNull

variable {host key}

theorem isNull_iff {v : Value} : v.isNull = true ↔ v = .null := by
  cases v <;> simp [isNull]

theorem keep_true (found : Option Value) : keep true found = firstPresent? found.toList := by
  cases found with
  | none => rfl
  | some v => cases v <;> rfl

theorem keep_true_of_ne {found : Option Value} (h : found ≠ some .null) :
    keep true found = found := by
  cases found with
  | none => rfl
  | some v =>
    have hnull : v.isNull = false := by
      rw [Bool.eq_false_iff, Ne, isNull_iff]
      exact fun heq => h (congrArg some heq)
    simp [keep, hnull]

theorem keep_false (found : Option Value) : keep false found = found := by
  cases found <;> rfl

theorem firstPresent?_append (before after : List Value) :
    firstPresent? (before ++ after) = (firstPresent? before).or (firstPresent? after) :=
  List.find?_append

theorem firstPresent?_ne_null {entries : List Value} {v : Value}
    (h : firstPresent? entries = some v) : v ≠ .null := by
  rintro rfl
  simpa [isNull] using List.find?_some h

/-! ## Looking inside a value -/

/-- An object without a method under a key has its property there, and behind it
what stands under the key, where null is nothing. -/
theorem lookupObject_of_no_method {o : HostObject} (h : o.method key = none) (skipNull : Bool) :
    lookupObject host o key skipNull =
      .ok ((keep skipNull (visibleProperty? key o)).or (keep true (o.offset key))) := by
  rw [lookupObject, h, visibleProperty?]
  cases o.property key with
  | visible v => rfl
  | hidden | undefined => rfl

/-- What a method gives is taken as it is, null included. -/
theorem lookupObject_of_method {o : HostObject} {ref : Nat} (h : o.method key = some ref)
    (skipNull : Bool) : lookupObject host o key skipNull = (host.call ref []).map some := by
  rw [lookupObject, h]

/-- **Passing null over changes nothing where something else is found**, or
nothing at all. -/
theorem lookup_true_of_found {v : Value} {found : Option Value}
    (h : v.lookup host key false = .ok found) (hne : found ≠ some .null) :
    v.lookup host key true = .ok found := by
  have kept {entry : Option Value}
      (h : (.ok (keep false entry) : Except Error (Option Value)) = .ok found) :
      (.ok (keep true entry) : Except Error (Option Value)) = .ok found := by
    rw [keep_false] at h
    cases h
    rw [keep_true_of_ne hne]
  cases v with
  | map entries => exact kept h
  | helpers entries => exact kept h
  | list items => exact kept h
  | null | bool | int | float | str | lambda => exact h
  | object ref =>
    rw [lookup] at h ⊢
    cases hmethod : (host.object ref).method key with
    | some called => rwa [lookupObject_of_method hmethod] at h ⊢
    | none =>
      rw [lookupObject_of_no_method hmethod, keep_false] at h
      rw [lookupObject_of_no_method hmethod, keep_true_of_ne]
      · exact h
      · intro hproperty
        rw [hproperty] at h
        exact hne (Except.ok.inj h).symm

/-- **Looking inside a value with null passed over** finds the first entry that
is not null, unless a method gives null. -/
theorem lookup_true_eq {v : Value} {found : Option Value}
    (h : v.lookup host key false = .ok found) :
    v.lookup host key true =
      .ok (if v.hasNullMethod host key then some .null
        else firstPresent? (v.entriesUnder host key)) := by
  cases v with
  | map entries => exact congrArg Except.ok (keep_true _)
  | helpers entries => exact congrArg Except.ok (keep_true _)
  | list items => exact congrArg Except.ok (keep_true _)
  | null | bool | int | float | str | lambda => rfl
  | object ref =>
    rw [lookup] at h ⊢
    cases hmethod : (host.object ref).method key with
    | some called =>
      rw [lookupObject_of_method hmethod] at h ⊢
      cases hcall : host.call called [] with
      | error err =>
        rw [hcall] at h
        cases h
      | ok result =>
        have hentry : methodResult? host key (host.object ref) = some result := by
          rw [methodResult?, hmethod, Option.bind_some, hcall]
          rfl
        rw [hasNullMethod, entriesUnder, hentry]
        cases result <;> rfl
    | none =>
      have hentry : methodResult? host key (host.object ref) = none := by
        rw [methodResult?, hmethod]
        rfl
      rw [lookupObject_of_no_method hmethod, hasNullMethod, entriesUnder, hentry, keep_true,
        keep_true, ← firstPresent?_append]
      rfl

end Value

namespace Context

open Value (entriesUnder firstPresent? hasNullMethod lookup_true_of_found lookup_true_eq)

variable (host : Host) (name : String)

/-- The first entry under a name in some frames that is not null, or the empty
text. -/
def firstEntry (frames : List Value) : Value :=
  (firstPresent? (frames.flatMap (entriesUnder host name))).getD .missing

/-- From the top down, a method that gives null is met before any entry that is
not null. -/
def meetsNullMethod : List Value → Bool
  | [] => false
  | frame :: frames =>
    frame.hasNullMethod host name ||
      ((firstPresent? (frame.entriesUnder host name)).isNone && meetsNullMethod frames)

/-- Looking the name up fails in none of the frames. -/
def Answers (frames : List Value) : Prop :=
  ∀ frame ∈ frames, ∃ found, frame.lookup host name false = .ok found

variable {host name}

/-- **A name that holds something else than null** holds the same with null
passed over. -/
theorem findIn_true_of_found {frames : List Value} {v : Value}
    (h : findIn host false name frames = .ok v) (hne : v ≠ .null) :
    findIn host true name frames = .ok v := by
  induction frames with
  | nil => exact h
  | cons frame frames ih =>
    rw [findIn] at h ⊢
    cases hlookup : frame.lookup host name false with
    | error err =>
      rw [hlookup] at h
      cases h
    | ok found =>
      rw [hlookup] at h
      cases found with
      | none =>
        rw [lookup_true_of_found hlookup nofun]
        exact ih h
      | some u =>
        cases h
        rw [lookup_true_of_found hlookup fun heq => hne (Option.some.inj heq)]
        rfl

/-- A frame that has nothing under the name is passed. -/
theorem findIn_append_of_absent {above : List Value} {skipNull : Bool}
    (h : ∀ frame ∈ above, frame.lookup host name skipNull = .ok none) (below : List Value) :
    findIn host skipNull name (above ++ below) = findIn host skipNull name below := by
  induction above with
  | nil => rfl
  | cons frame above ih =>
    obtain ⟨hframe, habove⟩ := List.forall_mem_cons.1 h
    rw [List.cons_append, findIn, hframe]
    exact ih habove

/-- **What is found with null passed over**: the first entry that is not null,
unless a method that gives null is met before it. -/
theorem findIn_true_eq {frames : List Value} (h : Answers host name frames) :
    findIn host true name frames =
      .ok (if meetsNullMethod host name frames then .null else firstEntry host name frames) := by
  induction frames with
  | nil => rfl
  | cons frame frames ih =>
    obtain ⟨⟨found, hlookup⟩, hframes⟩ := List.forall_mem_cons.1 h
    rw [findIn, lookup_true_eq hlookup, meetsNullMethod, firstEntry, List.flatMap_cons,
      Value.firstPresent?_append]
    cases hmethod : frame.hasNullMethod host name with
    | true => rfl
    | false =>
      cases hpresent : firstPresent? (frame.entriesUnder host name) with
      | some v => rfl
      | none => exact ih hframes

/-- A name that holds null does so in some frame, and in none above it is
anything under the name. -/
theorem exists_of_findIn_null {frames : List Value}
    (h : findIn host false name frames = .ok .null) :
    ∃ above frame below, frames = above ++ frame :: below ∧
      (∀ f ∈ above, f.lookup host name false = .ok none) ∧
      frame.lookup host name false = .ok (some .null) := by
  induction frames with
  | nil => cases h
  | cons frame frames ih =>
    rw [findIn] at h
    cases hlookup : frame.lookup host name false with
    | error err =>
      rw [hlookup] at h
      cases h
    | ok found =>
      rw [hlookup] at h
      cases found with
      | none =>
        obtain ⟨above, holder, below, rfl, habove, hholder⟩ := ih h
        refine ⟨frame :: above, holder, below, rfl, ?_, hholder⟩
        exact List.forall_mem_cons.2 ⟨hlookup, habove⟩
      | some u =>
        cases h
        exact ⟨[], frame, frames, rfl, nofun, hlookup⟩

/-- The first entry is not null. -/
theorem firstEntry_ne_null (frames : List Value) : firstEntry host name frames ≠ .null := by
  rw [firstEntry]
  cases hpresent : firstPresent? (frames.flatMap (entriesUnder host name)) with
  | none => exact nofun
  | some v => exact Value.firstPresent?_ne_null hpresent

/-- **Null is passed over exactly where no method gives it.** A name that holds
something else than null holds it with null passed over as well. Where it holds
null, in a frame, it then holds the first entry at or below that frame that is
not null, or the empty text, if and only if no method that gives null is met
before. And so it holds null after all if and only if such a method is met. -/
theorem find_skipping_null (c : Context) (h : Answers host name c.frames) :
    (∀ v, { c with skipNull := false }.find host name = .ok v → v ≠ .null →
      { c with skipNull := true }.find host name = .ok v) ∧
    ({ c with skipNull := false }.find host name = .ok .null →
      ∃ above frame below, c.frames = above ++ frame :: below ∧
        (∀ f ∈ above, f.lookup host name false = .ok none) ∧
        frame.lookup host name false = .ok (some .null) ∧
        ({ c with skipNull := true }.find host name = .ok (firstEntry host name (frame :: below)) ↔
          meetsNullMethod host name (frame :: below) = false)) ∧
    ({ c with skipNull := true }.find host name ≠ .ok .null ↔
      meetsNullMethod host name c.frames = false) := by
  refine ⟨fun v hfind hne => findIn_true_of_found hfind hne, fun hfind => ?_, ?_⟩
  · obtain ⟨above, frame, below, hframes, habove, hframe⟩ := exists_of_findIn_null hfind
    have hskipped : ∀ f ∈ above, f.lookup host name true = .ok none :=
      fun f hf => lookup_true_of_found (habove f hf) nofun
    have hbelow : Answers host name (frame :: below) :=
      fun f hf => h f (hframes ▸ List.mem_append_right above hf)
    refine ⟨above, frame, below, hframes, habove, hframe, ?_⟩
    rw [find, hframes, findIn_append_of_absent hskipped, findIn_true_eq hbelow]
    have hne : firstEntry host name (frame :: below) ≠ .null := firstEntry_ne_null _
    cases meetsNullMethod host name (frame :: below) with
    | true => simpa using hne.symm
    | false => simp
  · rw [find, findIn_true_eq h]
    have hne : firstEntry host name c.frames ≠ .null := firstEntry_ne_null _
    cases meetsNullMethod host name c.frames with
    | true => simp
    | false => simpa using hne

/-- Null as a property and as an entry, above a text. -/
theorem find_skipping_null_of_property :
    let o := { HostObject.inert with property := fun _ => .visible .null }
    let host := { Host.inert with object := fun _ => o }
    let c : Context :=
      ⟨[.list [], .object 0, .map [("name", .null)], .map [("name", .str "low")]], [], false⟩
    Answers host "name" c.frames ∧ c.find host "name" = .ok .null ∧
      { c with skipNull := true }.find host "name" = .ok (.str "low") ∧
      { c with skipNull := true }.find host "name" ≠ .ok .null := by
  intro o host c
  have hanswers : Answers host "name" c.frames := by
    intro frame hframe
    simp only [c, List.mem_cons, List.not_mem_nil, or_false] at hframe
    rcases hframe with rfl | rfl | rfl | rfl <;> exact ⟨_, rfl⟩
  obtain ⟨-, -, hnever⟩ := find_skipping_null c hanswers
  exact ⟨hanswers, rfl, rfl, hnever.2 rfl⟩

/-- **A method that gives null masks**, though null is passed over and a lower
frame has a text under the name. -/
theorem nullMethod_masks :
    let o := { HostObject.inert with method := fun _ => some 0 }
    let host := { Host.inert with object := fun _ => o }
    let c : Context := ⟨[.object 0, .map [("name", .str "low")]], [], true⟩
    Answers host "name" c.frames ∧ { c with skipNull := false }.find host "name" = .ok .null ∧
      firstEntry host "name" c.frames = .str "low" ∧ c.find host "name" = .ok .null := by
  intro o host c
  have hanswers : Answers host "name" c.frames := by
    intro frame hframe
    simp only [c, List.mem_cons, List.not_mem_nil, or_false] at hframe
    rcases hframe with rfl | rfl <;> exact ⟨_, rfl⟩
  exact ⟨hanswers, rfl, rfl, rfl⟩

end Context

end Mustache
