import Mustache.FileTree
import Mustache.Proofs.Basic
/-!
# Mustache — files that are written

What a file is written with is what is read from it: the bytes of a text are
read as that text (`decode?_bytesOf`).

Paths lead down names and up again over `..`. The tree decides whether a path
leads somewhere, but not where to: that is its goal (`walk_eq_ok`). Folders
that are made on the way to a file may let other paths through. So files are
spoken of here by what stands at the goals of paths (`ReadsAt`), open or not.
Making folders changes no file, and writing puts its content into one and
leaves the others (`gains_makeFolders`, `gains_write`).
-/

namespace Mustache

/-! ## Texts as bytes -/

namespace Text

open String (utf8EncodeChar)

/-- A byte inside a character adds six bits. -/
theorem following_cons {count low high bits taken n : Nat} {r : List UInt8}
    (hlow : low ≤ n % 64 + 128) (hhigh : n % 64 + 128 ≤ high) :
    following (count + 1) low high bits taken (UInt8.ofNat (n % 64 + 128) :: r) =
      following count 0x80 0xBF (bits * 64 + n % 64) (taken + 1) r := by
  have hbyte : (UInt8.ofNat (n % 64 + 128)).toNat = n % 64 + 128 := by
    rw [UInt8.toNat_ofNat']
    omega
  rw [following, hbyte, if_pos ⟨hlow, hhigh⟩, Nat.add_sub_cancel]

theorem following_tail {count bits taken n : Nat} {r : List UInt8} :
    following (count + 1) 0x80 0xBF bits taken (UInt8.ofNat (n % 64 + 128) :: r) =
      following count 0x80 0xBF (bits * 64 + n % 64) (taken + 1) r :=
  following_cons (by omega) (by omega)

/-! What the first byte of a character announces: how many bytes follow, with
bounds for the next one that it keeps. -/

theorem lead?_two {v : Nat} (hlow : 0x7F < v) (hhigh : v ≤ 0x7FF) :
    lead? (v / 64 + 192) = some ⟨v / 64, 1, 0x80, 0xBF⟩ := by
  unfold lead?
  grind

theorem exists_lead?_three {v : Nat} (hlow : 0x7FF < v) (hhigh : v ≤ 0xFFFF)
    (hvalid : v < 0xD800 ∨ 0xDFFF < v) :
    ∃ low high, lead? (v / 4096 + 224) = some ⟨v / 4096, 2, low, high⟩ ∧
      low ≤ v / 64 % 64 + 128 ∧ v / 64 % 64 + 128 ≤ high := by
  by_cases hfirst : v / 4096 = 0
  · rw [hfirst]
    exact ⟨0xA0, 0xBF, rfl, by omega, by omega⟩
  by_cases hlast : v / 4096 = 0xD
  · rw [hlast]
    exact ⟨0x80, 0x9F, rfl, by omega, by omega⟩
  · refine ⟨0x80, 0xBF, ?_, by omega, by omega⟩
    unfold lead?
    grind

theorem exists_lead?_four {v : Nat} (hlow : 0xFFFF < v) (hvalid : v < 0x110000) :
    ∃ low high, lead? (v / 262144 + 240) = some ⟨v / 262144, 3, low, high⟩ ∧
      low ≤ v / 4096 % 64 + 128 ∧ v / 4096 % 64 + 128 ≤ high := by
  by_cases hfirst : v / 262144 = 0
  · rw [hfirst]
    exact ⟨0x90, 0xBF, rfl, by omega, by omega⟩
  by_cases hlast : v / 262144 = 4
  · rw [hlast]
    exact ⟨0x80, 0x8F, rfl, by omega, by omega⟩
  · refine ⟨0x80, 0xBF, ?_, by omega, by omega⟩
    unfold lead?
    grind

theorem firstChar_of_lead {b : UInt8} {n bits : Nat} {lead : Lead} {r : List UInt8}
    (hb : b = UInt8.ofNat n) (hn : n < 256) (hlead : lead? n = some lead)
    (hrest : following lead.following lead.low lead.high lead.bits 0 r = .ok bits) :
    firstChar b r = .ok (Char.ofNat bits, 1 + lead.following) := by
  have hbyte : b.toNat = n := by
    rw [hb, UInt8.toNat_ofNat']
    omega
  simp only [firstChar, hbyte, hlead, hrest]

/-- **The bytes of a character are read as that character**, whatever comes
after. -/
theorem exists_firstChar (c : Char) (r : List UInt8) :
    ∃ b bs, utf8EncodeChar c = b :: bs ∧ firstChar b (bs ++ r) = .ok (c, 1 + bs.length) := by
  have hvalid := c.valid
  have hchar : Char.ofNat c.val.toNat = c := Char.ofNat_toNat c
  unfold UInt32.isValidChar Nat.isValidChar at hvalid
  unfold utf8EncodeChar
  generalize c.val.toNat = v at *
  dsimp only
  rw [← hchar]
  -- one case for each number of bytes
  split
  · exact ⟨_, [], rfl, firstChar_of_lead rfl (by omega) (if_pos (by omega)) rfl⟩
  split
  · have hlead : lead? (v / 64 + 192) = some ⟨v / 64, 1, 0x80, 0xBF⟩ :=
      lead?_two (by omega) (by omega)
    refine ⟨_, _, rfl, firstChar_of_lead (by congr 1; omega) (by omega) hlead ?_⟩
    dsimp only [List.cons_append]
    rw [following_tail, following]
    congr 1
    omega
  split
  · obtain ⟨low, high, hlead, hlow, hhigh⟩ :=
      exists_lead?_three (Nat.not_le.1 ‹_›) ‹_› (by omega)
    refine ⟨_, _, rfl, firstChar_of_lead (by congr 1; omega) (by omega) hlead ?_⟩
    dsimp only [List.cons_append]
    rw [following_cons hlow hhigh, following_tail, following]
    congr 1
    omega
  · obtain ⟨low, high, hlead, hlow, hhigh⟩ := exists_lead?_four (Nat.not_le.1 ‹_›) (by omega)
    refine ⟨_, _, rfl, firstChar_of_lead (by congr 1; omega) (by omega) hlead ?_⟩
    dsimp only [List.cons_append]
    rw [following_cons hlow hhigh, following_tail, following_tail, following]
    congr 1
    omega

theorem decodeWith_flatMap (broken : Option Char) (cs : List Char) :
    decodeWith broken (cs.flatMap utf8EncodeChar) = some cs := by
  induction cs with
  | nil => rw [List.flatMap_nil, decodeWith]
  | cons c cs ih =>
    obtain ⟨b, bs, hencode, hfirst⟩ := exists_firstChar c (cs.flatMap utf8EncodeChar)
    rw [List.flatMap_cons, hencode, List.cons_append, decodeWith, hfirst]
    dsimp only
    rw [Nat.add_sub_cancel_left, List.drop_left, ih, Option.map_some]

theorem toList_loop (bytes : ByteArray) (place : Nat) (done : List UInt8) :
    ByteArray.toList.loop bytes place done = done.reverse ++ bytes.data.toList.drop place := by
  fun_induction ByteArray.toList.loop bytes place done with
  | case1 place done hlt ih =>
    have hlength : place < bytes.data.toList.length := hlt
    have hbyte : bytes.get! place = bytes.data.toList[place] := by simp [ByteArray.get!, hlt]
    rw [ih, List.reverse_cons, List.append_assoc, List.singleton_append, hbyte,
      ← List.drop_eq_getElem_cons hlength]
  | case2 place done hge =>
    have hlength : bytes.data.toList.length ≤ place := Nat.not_lt.1 hge
    rw [List.drop_eq_nil_of_le hlength, List.append_nil]

theorem bytesOf_eq (text : String) : bytesOf text = text.toList.flatMap utf8EncodeChar := by
  have hbytes : text.toByteArray = text.toList.utf8Encode := by
    rw [← String.toByteArray_ofList, String.ofList_toList]
  rw [bytesOf, String.toUTF8, hbytes, List.utf8Encode, ByteArray.toList, toList_loop,
    List.toList_data_toByteArray]
  rfl

/-- **The bytes of a text are read as that text.** -/
theorem decode?_bytesOf (text : String) : decode? (bytesOf text) = some text := by
  rw [decode?, bytesOf_eq, decodeWith_flatMap, Option.map_some, String.ofList_toList]

end Text

/-! ## Files in a tree -/

namespace FileTree

/-- The goal of names: where they lead to from a place, if they lead
anywhere. -/
def goal : (place : List String) → List String → List String
  | place, [] => place
  | place, step :: steps =>
    if step = ".." then goal place.dropLast steps else goal (place ++ [step]) steps

variable {tree tree' tree'' : FileTree}

/-- **The tree does not decide where names lead to**, only whether they
do. -/
theorem walk_eq_ok {steps place found : List String} (h : tree.walk place steps = .ok found) :
    found = goal place steps := by
  induction steps generalizing place with
  | nil =>
    cases h
    rfl
  | cons step steps ih =>
    rw [walk] at h
    rw [goal]
    split at h
    · cases h
    · cases h
    · split at h
      · next hup =>
        rw [if_pos hup]
        split at h
        · cases h
        · exact ih h
      · next hdown =>
        rw [if_neg hdown]
        split at h
        · cases h
        · exact ih h

/-- A text stands in the file at the goal of a path. -/
def ReadsAt (tree : FileTree) (path text : String) : Prop :=
  ∃ content mode modified, Text.decode? content = some text ∧
    tree.entryAt? (goal [] (tree.stepsOf path)) = some (.file content mode modified)

/-- What is read at a path stands at its goal. -/
theorem readsAt_of_readText {path text : String} (h : tree.readText path = .ok text) :
    tree.ReadsAt path text := by
  unfold readText stat at h
  obtain ⟨entry, hstat, h⟩ := exists_of_bind_eq_ok h
  obtain ⟨place, hplace, hstat⟩ := exists_of_bind_eq_ok hstat
  have hgoal : place = goal [] (tree.stepsOf path) := by
    unfold resolve at hplace
    split at hplace
    · cases hplace
    · split at hplace
      · cases hplace
      · exact walk_eq_ok hplace
  split at hstat
  · cases hstat
  · cases hstat
    cases h
  · next content mode modified hentry =>
    split at hstat <;> cases hstat
    dsimp only at h
    split at h <;> cases h
    next hdecode => exact ⟨content, mode, modified, hdecode, hgoal ▸ hentry⟩

/-- **A tree has got nothing new but files with some content**: every file was
there before, or it has that content. -/
structure Gains (content : Option (List UInt8)) (tree tree' : FileTree) : Prop where
  root : tree'.root = tree.root
  working : tree'.working = tree.working
  files : ∀ place bytes mode modified, tree'.entryAt? place = some (.file bytes mode modified) →
    some bytes = content ∨ tree.entryAt? place = some (.file bytes mode modified)

namespace Gains

variable {content : Option (List UInt8)}

theorem refl (tree : FileTree) : Gains content tree tree := ⟨rfl, rfl, fun _ _ _ _ => .inr⟩

theorem trans (h : Gains content tree tree') (h' : Gains content tree' tree'') :
    Gains content tree tree'' := by
  refine ⟨h'.root.trans h.root, h'.working.trans h.working, ?_⟩
  intro place bytes mode modified hfile
  rcases h'.files place bytes mode modified hfile with hnew | hold
  · exact .inl hnew
  · exact h.files place bytes mode modified hold

/-- What is read afterwards was read before, or stands in the content. -/
theorem readsAt (h : Gains content tree tree') {path text : String}
    (hreads : tree'.ReadsAt path text) :
    (∃ bytes ∈ content, Text.decode? bytes = some text) ∨ tree.ReadsAt path text := by
  obtain ⟨bytes, mode, modified, hdecode, hfile⟩ := hreads
  have hsteps : tree'.stepsOf path = tree.stepsOf path := by
    unfold stepsOf
    rw [h.root, h.working]
  rw [hsteps] at hfile
  rcases h.files _ _ _ _ hfile with hnew | hold
  · exact .inl ⟨bytes, hnew.symm, hdecode⟩
  · exact .inr ⟨bytes, mode, modified, hdecode, hold⟩

end Gains

/-- What stands somewhere without what stood elsewhere stood there before. -/
theorem lookup_of_lookup_filter {entries : List (List String × FileEntry)}
    {place other : List String} {found : FileEntry} (hne : other ≠ place)
    (h : (entries.filter fun e => e.1 ≠ place).lookup other = some found) :
    entries.lookup other = some found := by
  induction entries with
  | nil => cases h
  | cons e entries ih =>
    rw [List.lookup_cons]
    by_cases hplace : e.1 = place
    · rw [List.filter_cons_of_neg (by simpa using hplace)] at h
      rw [beq_false_of_ne (hplace ▸ hne)]
      exact ih h
    · rw [List.filter_cons_of_pos (by simpa using hplace), List.lookup_cons] at h
      split at h
      · exact h
      · exact ih h

/-- What stands somewhere after an entry was put is that entry or stood there
before. -/
theorem entryAt?_put {place other : List String} {entry found : FileEntry}
    (h : (tree.put place entry).entryAt? other = some found) :
    found = entry ∨ tree.entryAt? other = some found := by
  unfold entryAt? at h ⊢
  by_cases hroot : other.isEmpty = true
  · rw [if_pos hroot] at h ⊢
    exact .inr h
  rw [if_neg hroot] at h ⊢
  by_cases heq : other = place
  · left
    rw [heq, put, List.lookup_cons_self] at h
    exact (Option.some.inj h).symm
  · right
    rw [put, List.lookup_cons, beq_false_of_ne heq] at h
    exact lookup_of_lookup_filter heq h

theorem gains_put_folder (place : List String) : Gains none tree (tree.put place .folder) := by
  refine ⟨rfl, rfl, fun other bytes mode modified hfile => ?_⟩
  rcases entryAt?_put hfile with hnew | hold
  · cases hnew
  · exact .inr hold

theorem gains_makeFolderAt {steps : List String} (h : tree.makeFolderAt steps = .ok tree') :
    Gains none tree tree' := by
  unfold makeFolderAt at h
  obtain ⟨place, -, h⟩ := exists_of_bind_eq_ok h
  split at h <;> cases h
  exact gains_put_folder place

theorem gains_makeFoldersBack {back : List String} (h : tree.makeFoldersBack back = .ok tree') :
    Gains none tree tree' := by
  induction back generalizing tree' with
  | nil =>
    cases h
    exact .refl tree
  | cons step back ih =>
    rw [makeFoldersBack] at h
    split at h
    · next hmade =>
      cases h
      exact gains_makeFolderAt hmade
    · -- a folder on the way is missing, so those are made first
      obtain ⟨between, hbetween, h⟩ := exists_of_bind_eq_ok h
      have hgains := ih hbetween
      split at h
      · next hmade =>
        cases h
        exact hgains.trans (gains_makeFolderAt hmade)
      · split at h <;> cases h
        exact hgains
    · split at h <;> cases h
      exact .refl tree

/-- **Making folders changes no file.** -/
theorem gains_makeFolders {path : String} (h : tree.makeFolders path = .ok tree') :
    Gains none tree tree' := by
  unfold makeFolders at h
  split at h
  · cases h
  · exact gains_makeFoldersBack h

/-- **Writing puts the content into one file** and changes no other. -/
theorem gains_write {path : String} {content : List UInt8} {mode : Nat} {modified : Int}
    (h : tree.write path content mode modified = .ok tree') :
    Gains (some content) tree tree' := by
  unfold write at h
  obtain ⟨place, -, h⟩ := exists_of_bind_eq_ok h
  split at h
  · cases h
  · split at h <;> cases h
    refine ⟨rfl, rfl, fun other bytes mode' modified' hfile => ?_⟩
    rcases entryAt?_put hfile with hnew | hold
    · cases hnew
      exact .inl rfl
    · exact .inr hold

end FileTree

end Mustache
