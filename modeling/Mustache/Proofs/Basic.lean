import Mustache.Entries
/-!
# Mustache — general facts

Facts about lists, results and tables that no part of the library owns.
-/

namespace Mustache

/-- Where two lists are the same, so are the parts before and after the
first place where an entry stands. -/
theorem cut_unique {α : Type} {a : α} {xs ys us vs : List α} (hx : a ∉ xs) (hy : a ∉ ys)
    (h : xs ++ a :: us = ys ++ a :: vs) : xs = ys ∧ us = vs := by
  induction xs generalizing ys with
  | nil =>
    cases ys with
    | nil => exact ⟨rfl, (List.cons.inj h).2⟩
    | cons y ys => exact absurd List.mem_cons_self ((List.cons.inj h).1 ▸ hy)
  | cons x xs ih =>
    cases ys with
    | nil => exact absurd List.mem_cons_self ((List.cons.inj h).1 ▸ hx)
    | cons y ys =>
      obtain ⟨hhead, htail⟩ := List.cons.inj h
      obtain ⟨heq, hrest⟩ := ih (List.not_mem_of_not_mem_cons hx)
        (List.not_mem_of_not_mem_cons hy) htail
      exact ⟨by rw [hhead, heq], hrest⟩

/-- Where entries are left out of a list, what stood around one that is left is
what is left around it, with what was left out. -/
theorem exists_of_filter_eq {α : Type} {p : α → Bool} {xs before after : List α} {a : α}
    (h : xs.filter p = before ++ a :: after) :
    ∃ us vs, xs = us ++ a :: vs ∧ us.filter p = before ∧ vs.filter p = after := by
  obtain ⟨us, rest, rfl, hbefore, hrest⟩ := List.filter_eq_append_iff.1 h
  obtain ⟨more, vs, rfl, hmore, -, hafter⟩ := List.filter_eq_cons_iff.1 hrest
  refine ⟨us ++ more, vs, by simp, ?_, hafter⟩
  rw [List.filter_append, hbefore, List.filter_eq_nil_iff.2 hmore, List.append_nil]

theorem exists_of_filter_eq_cons {α : Type} {p : α → Bool} {xs after : List α} {a : α}
    (h : xs.filter p = a :: after) :
    ∃ us vs, xs = us ++ a :: vs ∧ us.filter p = [] ∧ vs.filter p = after :=
  exists_of_filter_eq (List.nil_append _ ▸ h)

/-- What is computed in two steps has a result only if both have. -/
theorem exists_of_bind_eq_ok {ε α β : Type} {first : Except ε α} {next : α → Except ε β} {b : β}
    (h : (first >>= next) = .ok b) : ∃ a, first = .ok a ∧ next a = .ok b := by
  cases first with
  | error e => cases h
  | ok a => exact ⟨a, rfl, h⟩

theorem eq_ok_of_toOption {ε α : Type} {x : Except ε α} {a : α} (h : x.toOption = some a) :
    x = .ok a := by
  cases x with
  | error e => cases h
  | ok b => exact congrArg _ (Option.some.inj h)

/-- What is made of a result says that there is one. -/
theorem exists_of_toOption_bind {ε α β : Type} {x : Except ε α} {f : α → Option β} {b : β}
    (h : x.toOption.bind f = some b) : ∃ a, x = .ok a ∧ f a = some b := by
  obtain ⟨a, ha, hb⟩ := Option.bind_eq_some_iff.1 h
  exact ⟨a, eq_ok_of_toOption ha, hb⟩

theorem exists_of_toOption_map {ε α β : Type} {x : Except ε α} {f : α → β} {b : β}
    (h : x.toOption.map f = some b) : ∃ a, x = .ok a ∧ f a = b := by
  obtain ⟨a, ha, hb⟩ := Option.map_eq_some_iff.1 h
  exact ⟨a, eq_ok_of_toOption ha, hb⟩

namespace Entries

variable {α : Type}

/-- A new name comes at the end. -/
theorem insert_of_not_mem {m : Entries α} {name : String} (value : α) (h : name ∉ names m) :
    insert m name value = m ++ [(name, value)] := by
  induction m with
  | nil => rfl
  | cons entry m ih =>
    obtain ⟨k, v⟩ := entry
    simp only [names, List.map_cons, List.mem_cons, not_or] at h
    rw [insert, if_neg (Ne.symm h.1), ih h.2]
    rfl

theorem foldl_insert {acc pairs : Entries α} (h : (names (acc ++ pairs)).Nodup) :
    pairs.foldl (fun m p => insert m p.1 p.2) acc = acc ++ pairs := by
  induction pairs generalizing acc with
  | nil => simp
  | cons p pairs ih =>
    have hnew : p.1 ∉ names acc := by
      intro hmem
      rw [names, List.map_append, List.nodup_append] at h
      exact h.2.2 p.1 hmem p.1 (by simp) rfl
    rw [List.foldl_cons, insert_of_not_mem p.2 hnew, ih (by simpa using h)]
    simp

/-- A table without repeated names is the table of its pairs. -/
theorem ofPairs_eq_self {m : Entries α} (h : (names m).Nodup) : ofPairs m = m := by
  have hfold : ofPairs m = [] ++ m := foldl_insert h
  rw [hfold, List.nil_append]

/-- A known name stays where it is, and a new one comes last. -/
theorem names_insert (m : Entries α) (name : String) (value : α) :
    names (insert m name value) = if name ∈ names m then names m else names m ++ [name] := by
  induction m with
  | nil => rfl
  | cons entry m ih =>
    obtain ⟨k, v⟩ := entry
    unfold insert
    split
    · next heq => simp [names, heq]
    · next hne =>
      change k :: names (insert m name value) = _
      rw [ih]
      change _ = if name ∈ k :: names m then k :: names m else k :: names m ++ [name]
      by_cases hmem : name ∈ names m
      · rw [if_pos hmem, if_pos (List.mem_cons_of_mem k hmem)]
      · have hnot : name ∉ k :: names m := by
          intro h
          rcases List.mem_cons.1 h with h | h
          · exact hne h.symm
          · exact hmem h
        rw [if_neg hmem, if_neg hnot]
        rfl

theorem nodup_insert {m : Entries α} (h : (names m).Nodup) (name : String) (value : α) :
    (names (insert m name value)).Nodup := by
  rw [names_insert]
  split
  · exact h
  · next hnot =>
    refine List.nodup_append.2 ⟨h, by simp, ?_⟩
    rintro a ha b hb rfl
    rw [List.mem_singleton.1 hb] at ha
    exact hnot ha

theorem nodup_insertNew {m : Entries α} (h : (names m).Nodup) (name : String) (value : α) :
    (names (insertNew m name value)).Nodup := by
  unfold insertNew
  split
  · exact h
  · exact nodup_insert h name value

/-- What is found stands there. -/
theorem mem_of_get? {m : Entries α} {name : String} {found : α} (h : get? m name = some found) :
    (name, found) ∈ m := by
  induction m with
  | nil => cases h
  | cons entry m ih =>
    obtain ⟨k, v⟩ := entry
    rw [get?] at h
    split at h
    · next heq =>
      cases h
      exact heq ▸ List.mem_cons_self
    · exact List.mem_cons_of_mem _ (ih h)

theorem mem_names_iff {m : Entries α} {name : String} : name ∈ names m ↔ has m name = true := by
  induction m with
  | nil => simp [names, has]
  | cons entry m ih =>
    obtain ⟨k, v⟩ := entry
    change name ∈ k :: names m ↔ _
    rw [List.mem_cons, ih, has, has, get?]
    split
    · next heq => simp [heq]
    · next hne => exact or_iff_right (Ne.symm hne)

/-- What is found after putting is what was put or what was there. -/
theorem get?_insert {m : Entries α} {name other : String} {value found : α}
    (h : get? (insert m name value) other = some found) :
    (other = name ∧ found = value) ∨ (other ≠ name ∧ get? m other = some found) := by
  by_cases heq : other = name
  · rw [heq, get?_insert_self] at h
    exact .inl ⟨heq, (Option.some.inj h).symm⟩
  · rw [get?_insert_of_ne value heq] at h
    exact .inr ⟨heq, h⟩

theorem has_insert {m : Entries α} {name other : String} {value : α}
    (h : has (insert m name value) other = true) : other = name ∨ has m other = true := by
  obtain ⟨found, hfound⟩ := Option.isSome_iff_exists.1 h
  rcases get?_insert hfound with ⟨rfl, -⟩ | ⟨-, hold⟩
  · exact .inl rfl
  · exact .inr (Option.isSome_iff_exists.2 ⟨found, hold⟩)

@[simp] theorem has_insert_self (m : Entries α) (name : String) (value : α) :
    has (insert m name value) name = true := by
  rw [has, get?_insert_self]
  rfl

/-- Putting takes no name away. -/
theorem has_insert_of_has {m : Entries α} {other : String} (name : String) (value : α)
    (h : has m other = true) : has (insert m name value) other = true := by
  by_cases heq : other = name
  · rw [heq, has_insert_self]
  · rw [has, get?_insert_of_ne value heq]
    exact h

@[simp] theorem has_insertNew_self (m : Entries α) (name : String) (value : α) :
    has (insertNew m name value) name = true := by
  unfold insertNew
  split
  · next hknown => exact hknown
  · exact has_insert_self m name value

theorem has_insertNew_of_has {m : Entries α} {other : String} (name : String) (value : α)
    (h : has m other = true) : has (insertNew m name value) other = true := by
  unfold insertNew
  split
  · exact h
  · exact has_insert_of_has name value h

/-- What stands in a table after putting is what was put or stood there. -/
theorem mem_insert {m : Entries α} {name : String} {value : α} {entry : String × α}
    (h : entry ∈ insert m name value) : entry = (name, value) ∨ entry ∈ m := by
  induction m with
  | nil => exact .inl (List.mem_singleton.1 h)
  | cons first m ih =>
    obtain ⟨k, v⟩ := first
    rw [insert] at h
    split at h
    · next heq =>
      rcases List.mem_cons.1 h with rfl | h
      · exact .inl (by rw [heq])
      · exact .inr (List.mem_cons_of_mem _ h)
    · rcases List.mem_cons.1 h with rfl | h
      · exact .inr List.mem_cons_self
      · exact (ih h).imp_right (List.mem_cons_of_mem _)

theorem mem_insertNew {m : Entries α} {name : String} {value : α} {entry : String × α}
    (h : entry ∈ insertNew m name value) : entry = (name, value) ∨ entry ∈ m := by
  unfold insertNew at h
  split at h
  · exact .inr h
  · exact mem_insert h

/-- What stands in the table of some pairs is one of them. -/
theorem mem_ofPairs {pairs : List (String × α)} {entry : String × α} (h : entry ∈ ofPairs pairs) :
    entry ∈ pairs := by
  suffices hall : ∀ m : Entries α, entry ∈ pairs.foldl (fun m p => insert m p.1 p.2) m →
      entry ∈ m ∨ entry ∈ pairs from (hall [] h).resolve_left List.not_mem_nil
  clear h
  induction pairs with
  | nil => exact fun m h => .inl h
  | cons p pairs ih =>
    intro m h
    rcases ih _ h with hmem | hmem
    · rcases mem_insert hmem with rfl | hmem
      · exact .inr List.mem_cons_self
      · exact .inl hmem
    · exact .inr (List.mem_cons_of_mem p hmem)

/-- Of pairs with one name the last one counts. -/
theorem get?_ofPairs (pairs : List (String × α)) (name : String) :
    get? (ofPairs pairs) name = (pairs.reverse.find? fun p => p.1 = name).map (·.2) := by
  suffices hall : ∀ m : Entries α, get? (pairs.foldl (fun m p => insert m p.1 p.2) m) name =
      ((pairs.reverse.find? fun p => p.1 = name).map (·.2)).or (get? m name) from
    (hall []).trans (Option.or_none)
  induction pairs with
  | nil => exact fun m => rfl
  | cons p pairs ih =>
    intro m
    rw [List.foldl_cons, ih, List.reverse_cons, List.find?_append, Option.map_or, Option.or_assoc]
    congr 1
    by_cases hname : p.1 = name
    · rw [← hname, get?_insert_self]
      simp
    · rw [get?_insert_of_ne _ (Ne.symm hname)]
      simp [hname]

/-- A new name leaves what was there. -/
theorem get?_insert_of_new {m : Entries α} {name other : String} (value : α) {found : α}
    (hnew : has m name = false) (h : get? m other = some found) :
    get? (insert m name value) other = some found := by
  have hne : other ≠ name := by
    rintro rfl
    rw [has, h] at hnew
    cases hnew
  rw [get?_insert_of_ne value hne]
  exact h

end Entries

end Mustache
