import Mathlib.Data.List.Basic
import Mustache.Proofs.Written
import Mustache.Sha256
/-!
# Mustache — digests

Programs, sections and overrides are filed under digests of their texts, so
texts that meet must have different digests. Where one template is compiled
and rendered these are few, and their digests can be worked out. Where engines
share what they have cached through any calls, no list of texts will do:
`CollisionFree` says that no two texts at all have the same digest, and for
class names, where a prefix of any length stands before it, a little more.

That is an idealisation: SHA-256, like all digests of one length, must have
collisions somewhere, and none is known. `standInDigest` has none, and is
SHA-256 on one text, that of a template which two engines share.
-/

namespace Mustache

/-- **Digests that do not collide**, whatever stands before them. All
digests of SHA-256 have the same length, so for them this says that no
two texts have the same one. -/
def CollisionFree (digest : String → String) : Prop :=
  ∀ ⦃a b before before' : String⦄, before ++ digest a = before' ++ digest b →
    before = before' ∧ a = b

/-- A digest without collisions: SHA-256 on one text, and a text between
quotes read backwards on all others. -/
def standInDigest (known s : String) : String :=
  if s = known then Sha256.ofText s else String.ofList (Json.quoted s).toList.reverse

/-- **All digests of SHA-256 have one length.** -/
theorem length_sha256 (s : String) : (Sha256.ofText s).length = 64 := by
  have hword (w : UInt32) : (Sha256.hexWord w).length = 8 := rfl
  unfold Sha256.ofText Sha256.digest
  dsimp only
  rw [← String.length_toList, String.toList_ofList]
  simp only [List.flatMap_cons, List.flatMap_nil, List.length_append, hword, List.length_nil]

theorem getLast?_sha256 (s : String) :
    ∃ c, (Sha256.ofText s).toList.getLast? = some c ∧ c ≠ '"' := by
  have hdigit : ∀ k < 16, Nat.digitChar k ≠ '"' := by decide
  have hword (w : UInt32) :
      (Sha256.hexWord w).getLast? = some (Nat.digitChar (w.toNat / Nat.pow 16 0 % 16)) := rfl
  unfold Sha256.ofText Sha256.digest
  dsimp only
  generalize Sha256.absorb _ _ _ = r
  rw [String.toList_ofList]
  simp only [List.flatMap_cons, List.flatMap_nil, List.append_nil, List.getLast?_append, hword,
    Option.some_or]
  exact ⟨_, rfl, hdigit _ (Nat.mod_lt _ (by decide))⟩

theorem getLast?_reverse_quoted (s : String) :
    (String.ofList (Json.quoted s).toList.reverse).toList.getLast? = some '"' := by
  rw [String.toList_ofList, List.getLast?_reverse]
  simp [Json.quoted]

theorem collisionFree_standInDigest (known : String) : CollisionFree (standInDigest known) := by
  have hlast {before before' d d' : String} {c c' : Char} (h : before ++ d = before' ++ d')
      (hd : d.toList.getLast? = some c) (hd' : d'.toList.getLast? = some c') : c = c' := by
    have hlists := congrArg (fun s => s.toList.getLast?) h
    simp only [String.toList_append, List.getLast?_append, hd, hd', Option.some_or] at hlists
    exact Option.some.inj hlists
  intro a b before before' h
  unfold standInDigest at h
  split at h <;> split at h
  · next ha hb =>
    rw [ha, hb] at h ⊢
    exact ⟨(String.append_left_inj _).1 h, rfl⟩
  · obtain ⟨c, hc, hne⟩ := getLast?_sha256 a
    exact absurd (hlast h hc (getLast?_reverse_quoted b)) hne
  · obtain ⟨c, hc, hne⟩ := getLast?_sha256 b
    exact absurd (hlast h (getLast?_reverse_quoted a) hc).symm hne
  · have hlists := congrArg (fun s => s.toList.reverse) h
    simp only [String.toList_append, String.toList_ofList, List.reverse_append,
      List.reverse_reverse] at hlists
    obtain ⟨hcs, hread⟩ := Json.stringBody?_quoted a before.toList.reverse
    obtain ⟨hcs', hread'⟩ := Json.stringBody?_quoted b before'.toList.reverse
    rw [hcs, hcs'] at hlists
    rw [(List.cons.inj hlists).2, hread'] at hread
    obtain ⟨hab, hbefore⟩ := Prod.mk.inj (Option.some.inj hread)
    exact ⟨String.toList_inj.1 (List.reverse_injective hbefore).symm, (Option.some.inj hab).symm⟩

end Mustache
