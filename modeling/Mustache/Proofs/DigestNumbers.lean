import Mustache.Proofs.Files
import Mustache.Sha256
/-!
# Mustache — SHA-256 worked out over numbers

Whether the digests of some texts collide can be found out by working them
out. For words of a machine that is slow where every step is checked, for
numbers it is not. So here is SHA-256 once more, over numbers below `2 ^ 32`,
and the two are the same (`ofText_eq_numbers`).
-/

namespace Mustache

namespace Sha256

/-- The eight words between blocks, as numbers. -/
structure Numbers where
  a : Nat
  b : Nat
  c : Nat
  d : Nat
  e : Nat
  f : Nat
  g : Nat
  h : Nat

def Registers.numbers (r : Registers) : Numbers :=
  ⟨r.a.toNat, r.b.toNat, r.c.toNat, r.d.toNat, r.e.toNat, r.f.toNat, r.g.toNat, r.h.toNat⟩

namespace Numbers

def sum (x y : Nat) : Nat := (x + y) % UInt32.size

def shiftLeft (x n : Nat) : Nat := x <<< n % UInt32.size

def rotateRight (x n : Nat) : Nat := x >>> n ||| shiftLeft x (32 - n)

def toWords : List Nat → List Nat
  | a :: b :: c :: d :: r =>
    (shiftLeft a 24 ||| shiftLeft b 16 ||| shiftLeft c 8 ||| d) :: toWords r
  | _ => []

/-- The next word of the schedule, from the words so far, the last one first. -/
def nextWord (words : List Nat) : Nat :=
  let x := words.getD 14 0
  let y := words.getD 1 0
  let s0 := rotateRight x 7 ^^^ rotateRight x 18 ^^^ (x >>> 3)
  let s1 := rotateRight y 17 ^^^ rotateRight y 19 ^^^ (y >>> 10)
  sum (sum (sum (words.getD 15 0) s0) (words.getD 6 0)) s1

def schedule (block : List Nat) : List Nat :=
  ((List.range 48).foldl (fun words _ => nextWord words :: words) block.reverse).reverse

def round (r : Numbers) (input : Nat × Nat) : Numbers :=
  let s1 := rotateRight r.e 6 ^^^ rotateRight r.e 11 ^^^ rotateRight r.e 25
  let choice := (r.e &&& r.f) ^^^ ((UInt32.size - 1 - r.e) &&& r.g)
  let t1 := sum (sum (sum (sum r.h s1) choice) input.1) input.2
  let s0 := rotateRight r.a 2 ^^^ rotateRight r.a 13 ^^^ rotateRight r.a 22
  let majority := (r.a &&& r.b) ^^^ (r.a &&& r.c) ^^^ (r.b &&& r.c)
  ⟨sum t1 (sum s0 majority), r.a, r.b, r.c, sum r.d t1, r.e, r.f, r.g⟩

def compress (r : Numbers) (block : List Nat) : Numbers :=
  let s := ((roundConstants.map UInt32.toNat).zip (schedule block)).foldl round r
  ⟨sum r.a s.a, sum r.b s.b, sum r.c s.c, sum r.d s.d, sum r.e s.e, sum r.f s.f, sum r.g s.g,
    sum r.h s.h⟩

def absorb : (blocks : Nat) → Numbers → List Nat → Numbers
  | 0, r, _ => r
  | n + 1, r, words => absorb n (compress r (words.take 16)) (words.drop 16)

def hexWord (w : Nat) : List Char :=
  (List.range 8).map fun i => Nat.digitChar (w / Nat.pow 16 (7 - i) % 16)

/-- The digest of a text. -/
def ofText (text : String) : String :=
  let words := toWords ((pad text.toUTF8.data.toList).map UInt8.toNat)
  let r := absorb (words.length / 16) start.numbers words
  String.ofList ([r.a, r.b, r.c, r.d, r.e, r.f, r.g, r.h].flatMap hexWord)

end Numbers

/-! ## The same steps -/

theorem toNat_rotateRight (x : UInt32) {n : UInt32} (hpos : 0 < n.toNat) (hlt : n.toNat < 32) :
    (rotateRight x n).toNat = Numbers.rotateRight x.toNat n.toNat := by
  have hle : n ≤ 32 := UInt32.le_iff_toNat_le.2 (Nat.le_of_lt hlt)
  have hback : (32 - n).toNat = 32 - n.toNat := UInt32.toNat_sub_of_le 32 n hle
  have hsmall : 32 - n.toNat < 32 := by omega
  rw [rotateRight, UInt32.toNat_or, UInt32.toNat_shiftRight, UInt32.toNat_shiftLeft, hback,
    Nat.mod_eq_of_lt hlt, Nat.mod_eq_of_lt hsmall]
  rfl

theorem toWords_numbers (bytes : List UInt8) :
    (toWords bytes).map UInt32.toNat = Numbers.toWords (bytes.map UInt8.toNat) := by
  fun_induction toWords bytes with
  | case1 a b c d r ih =>
    rw [List.map_cons, ih]
    simp only [List.map_cons, Numbers.toWords, UInt32.toNat_or, UInt32.toNat_shiftLeft,
      UInt8.toNat_toUInt32, Numbers.shiftLeft]
    rfl
  | case2 bytes hshort =>
    match bytes with
    | [] | [_] | [_, _] | [_, _, _] => rfl
    | a :: b :: c :: d :: r => exact absurd rfl (hshort a b c d r)

/-- The word that was pushed some words ago. -/
theorem getD_size_sub {words : Array UInt32} {n : Nat} (hn : n < words.size) :
    (words.getD (words.size - (n + 1)) 0).toNat =
      (words.toList.reverse.map UInt32.toNat).getD n 0 := by
  have hback : words.size - (n + 1) < words.size := by omega
  rw [Array.getD_eq_getD_getElem?, Array.getElem?_eq_getElem hback, Option.getD_some,
    List.getD_eq_getElem?_getD, List.getElem?_map, List.getElem?_reverse hn, Array.length_toList,
    Nat.sub_sub, Nat.add_comm 1, Array.getElem?_toList, Array.getElem?_eq_getElem hback]
  rfl

theorem nextWord_numbers {words : Array UInt32} (h : 16 ≤ words.size) :
    (nextWord words).toNat = Numbers.nextWord (words.toList.reverse.map UInt32.toNat) := by
  unfold nextWord Numbers.nextWord
  dsimp only
  rw [← getD_size_sub (n := 14) (by omega), ← getD_size_sub (n := 1) (by omega),
    ← getD_size_sub (n := 15) (by omega), ← getD_size_sub (n := 6) (by omega)]
  simp only [UInt32.toNat_add, UInt32.toNat_xor, UInt32.toNat_shiftRight]
  rw [toNat_rotateRight _ (by decide) (by decide), toNat_rotateRight _ (by decide) (by decide),
    toNat_rotateRight _ (by decide) (by decide), toNat_rotateRight _ (by decide) (by decide)]
  rfl

theorem schedule_numbers {block : List UInt32} (h : block.length = 16) :
    (schedule block).map UInt32.toNat = Numbers.schedule (block.map UInt32.toNat) := by
  have hfold (steps : List Nat) (words : Array UInt32) (hsize : 16 ≤ words.size) :
      (steps.foldl (fun words _ => words.push (nextWord words)) words).toList.map UInt32.toNat =
        (steps.foldl (fun words _ => Numbers.nextWord words :: words)
          (words.toList.reverse.map UInt32.toNat)).reverse := by
    induction steps generalizing words with
    | nil => rw [List.foldl_nil, List.foldl_nil, ← List.map_reverse, List.reverse_reverse]
    | cons _ steps ih =>
      rw [List.foldl_cons, List.foldl_cons, ih _ (by rw [Array.size_push]; omega),
        Array.toList_push, List.reverse_append, ← nextWord_numbers hsize]
      rfl
  unfold schedule Numbers.schedule
  rw [hfold _ _ (by simp [h]), List.map_reverse]

theorem round_numbers (r : Registers) (input : UInt32 × UInt32) :
    (round r input).numbers = r.numbers.round (input.1.toNat, input.2.toNat) := by
  unfold round Numbers.round Registers.numbers
  dsimp only
  simp only [UInt32.toNat_add, UInt32.toNat_xor, UInt32.toNat_and, UInt32.toNat_not]
  rw [toNat_rotateRight _ (by decide) (by decide), toNat_rotateRight _ (by decide) (by decide),
    toNat_rotateRight _ (by decide) (by decide), toNat_rotateRight _ (by decide) (by decide),
    toNat_rotateRight _ (by decide) (by decide), toNat_rotateRight _ (by decide) (by decide)]
  rfl

theorem compress_numbers (r : Registers) {block : List UInt32} (h : block.length = 16) :
    (compress r block).numbers = r.numbers.compress (block.map UInt32.toNat) := by
  have hrounds (inputs : List (UInt32 × UInt32)) (r : Registers) :
      (inputs.foldl round r).numbers =
        (inputs.map (Prod.map UInt32.toNat UInt32.toNat)).foldl Numbers.round r.numbers := by
    rw [List.foldl_map]
    exact (List.foldl_hom Registers.numbers fun r input => (round_numbers r input).symm).symm
  unfold compress Numbers.compress
  dsimp only
  rw [← schedule_numbers h, List.zip_map, ← hrounds]
  simp only [Registers.numbers, UInt32.toNat_add, Numbers.sum]

theorem absorb_numbers {blocks : Nat} (r : Registers) {words : List UInt32}
    (h : 16 * blocks ≤ words.length) :
    (absorb blocks r words).numbers =
      Numbers.absorb blocks r.numbers (words.map UInt32.toNat) := by
  induction blocks generalizing r words with
  | zero => rfl
  | succ n ih =>
    have hblock : (words.take 16).length = 16 := by
      rw [List.length_take]
      omega
    rw [absorb, Numbers.absorb, ih _ (by rw [List.length_drop]; omega), compress_numbers r hblock,
      List.map_take, List.map_drop]

/-- **SHA-256 over numbers is SHA-256.** -/
theorem ofText_eq_numbers : ofText = Numbers.ofText := by
  funext text
  have hbytes : Text.bytesOf text = text.toUTF8.data.toList := Text.toList_loop _ 0 []
  unfold ofText digest Numbers.ofText
  dsimp only
  rw [hbytes, ← toWords_numbers, List.length_map, ← absorb_numbers]
  · rfl
  · exact Nat.mul_div_le _ 16

end Sha256

end Mustache
