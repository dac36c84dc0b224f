import Mustache.Context
import Mustache.Proofs.Basic
/-!
# Mustache — plain data

Data is plain if no object and no procedure of the host is in it, however
deep. Whatever a name leads to in plain data is then a part of the data,
or null, or the empty text that stands for nothing: nothing that can be
called, and nothing that the host has a say in.

`Context.DrawnFrom` is the invariant of a context: each frame is such a
value. Every lookup keeps to it, and so does every value that a section
puts on top.
-/

namespace Mustache

namespace Value

/-- A value is part of another: the value itself, or part of an item or an
entry. -/
inductive HasPart : Value → Value → Prop
  | self (v : Value) : HasPart v v
  | item {items : List Value} {item v : Value} :
      item ∈ items → HasPart item v → HasPart (.list items) v
  | entry {entries : List (String × Value)} {entry : String × Value} {v : Value} :
      entry ∈ entries → HasPart entry.2 v → HasPart (.map entries) v
  | helper {entries : List (String × Value)} {entry : String × Value} {v : Value} :
      entry ∈ entries → HasPart entry.2 v → HasPart (.helpers entries) v

theorem HasPart.trans {u v w : Value} (h : HasPart u v) (hvw : HasPart v w) : HasPart u w := by
  induction h with
  | self => exact hvw
  | item hmem _ ih => exact .item hmem (ih hvw)
  | entry hmem _ ih => exact .entry hmem (ih hvw)
  | helper hmem _ ih => exact .helper hmem (ih hvw)

/-- An object or a procedure of the host. -/
def isForeign : Value → Bool
  | .object _ | .lambda _ => true
  | _ => false

/-- **Plain data**: no part of it belongs to the host. -/
def Plain (v : Value) : Prop := ∀ part, v.HasPart part → part.isForeign = false

namespace Plain

variable {v : Value}

theorem part {u : Value} (h : v.Plain) (hpart : v.HasPart u) : u.Plain :=
  fun w hw => h w (hpart.trans hw)

/-- A value without items and entries is plain unless it is foreign
itself. -/
theorem of_leaf (hleaf : ∀ part, v.HasPart part → part = v) (h : v.isForeign = false) : v.Plain :=
  fun part hpart => hleaf part hpart ▸ h

theorem null : Plain .null := of_leaf (fun _ h => by cases h; rfl) rfl

theorem str (text : String) : Plain (.str text) := of_leaf (fun _ h => by cases h; rfl) rfl

theorem missing : Plain .missing := str ""

theorem list {items : List Value} (h : ∀ item ∈ items, item.Plain) : Plain (.list items) := by
  intro part hpart
  cases hpart with
  | self => rfl
  | item hmem hpart => exact h _ hmem part hpart

theorem map {entries : List (String × Value)} (h : ∀ entry ∈ entries, entry.2.Plain) :
    Plain (.map entries) := by
  intro part hpart
  cases hpart with
  | self => rfl
  | entry hmem hpart => exact h _ hmem part hpart

theorem helpers {entries : List (String × Value)} (h : ∀ entry ∈ entries, entry.2.Plain) :
    Plain (.helpers entries) := by
  intro part hpart
  cases hpart with
  | self => rfl
  | helper hmem hpart => exact h _ hmem part hpart

/-- Nothing that is plain can be called, with callables strict or not. -/
theorem callable?_eq_none (h : v.Plain) (host : Host) (strict : Bool) :
    v.callable? host strict = none := by
  unfold callable?
  split
  · cases h _ (.self _)
  · cases h _ (.self _)
  · cases h _ (.item List.mem_cons_self (.self _))
  · rfl

end Plain

/-! ## What can be found -/

/-- What a name may lead to when everything begins with some values: a part
of one of them, or what stands for nothing. -/
def FoundIn (roots : List Value) (v : Value) : Prop :=
  v = .null ∨ v = .missing ∨ ∃ root ∈ roots, root.HasPart v

namespace FoundIn

variable {roots : List Value} {v : Value}

theorem root (h : v ∈ roots) : v.FoundIn roots := .inr (.inr ⟨v, h, .self v⟩)

theorem missing : FoundIn roots .missing := .inr (.inl rfl)

/-- A part of what was found can be found. -/
theorem part {u : Value} (h : v.FoundIn roots) (hpart : v.HasPart u) : u.FoundIn roots := by
  rcases h with rfl | rfl | ⟨root, hroot, hv⟩
  · cases hpart
    exact .inl rfl
  · cases hpart
    exact .missing
  · exact .inr (.inr ⟨root, hroot, hv.trans hpart⟩)

theorem plain (h : v.FoundIn roots) (hroots : ∀ root ∈ roots, root.Plain) : v.Plain := by
  rcases h with rfl | rfl | ⟨root, hroot, hv⟩
  · exact .null
  · exact .missing
  · exact (hroots root hroot).part hv

end FoundIn

/-! ## Looking up -/

theorem eq_some_of_keep {skipNull : Bool} {found : Option Value} {v : Value}
    (h : keep skipNull found = some v) : found = some v := (Option.filter_eq_some_iff.1 h).1

/-- Looking inside plain data succeeds, and what is there is a part. -/
theorem Plain.lookup {v : Value} (h : v.Plain) (host : Host) (key : String) (skipNull : Bool) :
    ∃ found, v.lookup host key skipNull = .ok found ∧ ∀ u ∈ found, v.HasPart u := by
  cases v with
  | map entries =>
    exact ⟨_, rfl, fun u hu => .entry (Entries.mem_of_get? (eq_some_of_keep hu)) (.self u)⟩
  | helpers entries =>
    exact ⟨_, rfl, fun u hu => .helper (Entries.mem_of_get? (eq_some_of_keep hu)) (.self u)⟩
  | list items =>
    refine ⟨_, rfl, fun u hu => ?_⟩
    obtain ⟨i, -, hi⟩ := Option.bind_eq_some_iff.1 (eq_some_of_keep hu)
    exact .item (List.mem_of_getElem? hi) (.self u)
  | object ref => cases h _ (.self _)
  | lambda ref => cases h _ (.self _)
  | null | bool | int | float | str => exact ⟨none, rfl, nofun⟩

/-- A section runs through parts of the value, or through the value. -/
theorem Plain.hasPart_of_mem_elements {v u : Value} (h : v.Plain) (host : Host)
    (hu : u ∈ (v.elements? host).getD [v]) : v.HasPart u := by
  cases v with
  | list items => exact .item hu (.self u)
  | object ref => cases h _ (.self _)
  | null | bool | int | float | str | map | lambda | helpers =>
    rw [List.mem_singleton.1 hu]
    exact .self _

end Value

namespace Context

/-- **The frames are drawn from some values**: each is a part of one of
them, or what stands for nothing. -/
def DrawnFrom (roots : List Value) (c : Context) : Prop := ∀ frame ∈ c.frames, frame.FoundIn roots

variable {roots : List Value} {c : Context} {host : Host}

theorem DrawnFrom.push {value : Value} (h : c.DrawnFrom roots) (hvalue : value.FoundIn roots) :
    (c.push value).DrawnFrom roots := List.forall_mem_cons.2 ⟨hvalue, h⟩

theorem DrawnFrom.pop (h : c.DrawnFrom roots) : c.pop.DrawnFrom roots :=
  fun frame hframe => h frame (List.mem_of_mem_tail hframe)

section Lookups

variable (hroots : ∀ root ∈ roots, root.Plain)

include hroots

theorem findIn_foundIn (skipNull : Bool) (name : String) {frames : List Value}
    (h : ∀ frame ∈ frames, frame.FoundIn roots) :
    ∃ v, findIn host skipNull name frames = .ok v ∧ v.FoundIn roots := by
  induction frames with
  | nil => exact ⟨_, rfl, .missing⟩
  | cons frame frames ih =>
    obtain ⟨hframe, hframes⟩ := List.forall_mem_cons.1 h
    obtain ⟨found, hlookup, hpart⟩ := (hframe.plain hroots).lookup host name skipNull
    rw [findIn, hlookup]
    cases found with
    | some v => exact ⟨v, rfl, hframe.part (hpart v rfl)⟩
    | none => exact ih hframes

theorem descend_foundIn (skipNull : Bool) {v : Value} (h : v.FoundIn roots) (names : List String) :
    ∃ u, descend host skipNull v names = .ok u ∧ u.FoundIn roots := by
  induction names generalizing v with
  | nil => exact ⟨v, rfl, h⟩
  | cons name names ih =>
    rw [descend]
    split
    · exact ⟨v, rfl, h⟩
    · obtain ⟨found, hlookup, hpart⟩ := (h.plain hroots).lookup host name skipNull
      rw [hlookup]
      cases found with
      | some u => exact ih (h.part (hpart u rfl))
      | none => exact ih .missing

theorem DrawnFrom.find (h : c.DrawnFrom roots) (name : String) :
    ∃ v, c.find host name = .ok v ∧ v.FoundIn roots := findIn_foundIn hroots c.skipNull name h

theorem DrawnFrom.findDotted (h : c.DrawnFrom roots) (id : String) :
    ∃ v, c.findDotted host id = .ok v ∧ v.FoundIn roots := by
  unfold Context.findDotted
  split
  · exact h.find hroots ""
  · next name names _ =>
    obtain ⟨v, hfind, hv⟩ : ∃ v, c.find host name = .ok v ∧ v.FoundIn roots := h.find hroots name
    rw [hfind]
    exact descend_foundIn hroots c.skipNull hv names

omit hroots in
theorem DrawnFrom.top (h : c.DrawnFrom roots) : (c.top?.getD .null).FoundIn roots := by
  unfold top?
  cases hframes : c.frames with
  | nil => exact .inl rfl
  | cons frame frames => exact h frame (hframes ▸ List.mem_cons_self)

/-- **What a tag finds is drawn from the same values.** -/
theorem DrawnFrom.resolve (h : c.DrawnFrom roots) {lookup : Lookup} {v : Value}
    (hresolve : c.resolve host lookup = .ok v) : v.FoundIn roots := by
  have of_exists {x : Except Error Value} (hx : ∃ u, x = .ok u ∧ u.FoundIn roots)
      (heq : x = .ok v) : v.FoundIn roots := by
    obtain ⟨u, hu, hfound⟩ := hx
    cases hu.symm.trans heq
    exact hfound
  cases lookup with
  | top =>
    cases hresolve
    exact h.top
  | find id => exact of_exists (h.find hroots id) hresolve
  | findDotted id => exact of_exists (h.findDotted hroots id) hresolve
  | findAnchored id =>
    change c.findAnchored host id = .ok v at hresolve
    unfold findAnchored at hresolve
    split at hresolve
    · next names _ =>
      split at hresolve
      · next top htop =>
        have hfound : top.FoundIn roots := h top (List.mem_of_mem_head? htop)
        exact of_exists (descend_foundIn hroots c.skipNull hfound names) hresolve
      · cases hresolve
        exact .missing
    · cases hresolve

end Lookups

end Context

end Mustache
