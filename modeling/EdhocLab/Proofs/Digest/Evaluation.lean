import EdhocLab.Digest.Hkdf

/-! # Digests that evaluate

The hash without random access: the schedule grows from its latest word, and each block is taken from
the front of what is left.  The kernel evaluates this form of a closed digest in little time, and the
keyed hash and short expansions with it.
-/
namespace EdhocLab.Digest

namespace Sha256

/-- One more word of the schedule, the latest words first. -/
def nextWord (latest : List UInt32) : UInt32 :=
  let x := latest.getD 14 0
  let y := latest.getD 1 0
  let s0 := rotr x 7 ^^^ rotr x 18 ^^^ (x >>> 3)
  let s1 := rotr y 17 ^^^ rotr y 19 ^^^ (y >>> 10)
  latest.getD 15 0 + s0 + latest.getD 6 0 + s1

def scheduleList (block : List UInt32) : List UInt32 :=
  ((List.range 48).foldl (fun latest _ => nextWord latest :: latest) block.reverse).reverse

def compressList (s : State) (block : List UInt32) : State :=
  let t := (roundConstants.toList.zip (scheduleList block)).foldl (fun t kw => round t kw.1 kw.2) s
  { a := s.a + t.a, b := s.b + t.b, c := s.c + t.c, d := s.d + t.d,
    e := s.e + t.e, f := s.f + t.f, g := s.g + t.g, h := s.h + t.h }

/-- Folds the first `count` blocks of the words into the chaining state. -/
def absorb : (count : Nat) → State → List UInt32 → State
  | 0, s, _ => s
  | count + 1, s, ws => absorb count (compressList s (ws.take 16)) (ws.drop 16)

def digestList (message : Bytes) : Bytes :=
  let ws := words (pad message)
  (absorb (ws.length / 16) initial ws).toBytes

section Schedule

variable {w block : Array UInt32}

theorem getD_toList (i : Nat) : w.toList.getD i 0 = w.getD i 0 := by
  rw [List.getD_eq_getElem?_getD, Array.getD_eq_getD_getElem?, Array.getElem?_toList]

/-- Counted from the back, a word has the place that is left before it. -/
theorem getD_latest {i j : Nat} (h : w.size = i + 1 + j) :
    w.toList.reverse.getD i 0 = w.getD j 0 := by
  rw [← getD_toList, List.getD_eq_getElem?_getD, List.getD_eq_getElem?_getD,
    List.getElem?_reverse (by rw [Array.length_toList]; omega), Array.length_toList]
  congr 2
  omega

/-- Growing an array at its end is growing the list of its latest elements at the front. -/
theorem foldl_push {f : Array UInt32 → Nat → UInt32} {g : List UInt32 → UInt32}
    (hblock : block.size = 16) (h : ∀ w t, w.size = t + 16 → f w t = g w.toList.reverse) (n : Nat) :
    ((List.range n).foldl (fun w t => w.push (f w t)) block).size = n + 16 ∧
      ((List.range n).foldl (fun w t => w.push (f w t)) block).toList.reverse =
        (List.range n).foldl (fun latest _ => g latest :: latest) block.toList.reverse := by
  induction n with
  | zero => simpa using hblock
  | succ n ih =>
    obtain ⟨hsize, hlist⟩ := ih
    rw [List.range_succ, List.foldl_append, List.foldl_append]
    constructor
    · simp only [List.foldl_cons, List.foldl_nil, Array.size_push, hsize]
    · simp only [List.foldl_cons, List.foldl_nil, Array.toList_push, List.reverse_append,
        List.reverse_cons, List.reverse_nil, List.nil_append, List.cons_append]
      rw [h _ n hsize, hlist]

theorem schedule_eq (hblock : block.size = 16) :
    (schedule block).size = 64 ∧ (schedule block).toList = scheduleList block.toList := by
  have hword : ∀ (w : Array UInt32) (t : Nat), w.size = t + 16 →
      (let x := w.getD (t + 1) 0
       let y := w.getD (t + 14) 0
       let s0 := rotr x 7 ^^^ rotr x 18 ^^^ (x >>> 3)
       let s1 := rotr y 17 ^^^ rotr y 19 ^^^ (y >>> 10)
       w.getD t 0 + s0 + w.getD (t + 9) 0 + s1) = nextWord w.toList.reverse := by
    intro w t hsize
    simp only [nextWord]
    rw [getD_latest (j := t) (by omega), getD_latest (j := t + 1) (by omega),
      getD_latest (j := t + 9) (by omega), getD_latest (j := t + 14) (by omega)]
  obtain ⟨hsize, hlist⟩ := foldl_push hblock hword 48
  refine ⟨hsize, ?_⟩
  rw [scheduleList, ← hlist, List.reverse_reverse]
  rfl

end Schedule

section Rounds

/-- Walking along two lists by index is walking along their pairs. -/
theorem foldl_getD {α : Type} (f : α → UInt32 → UInt32 → α) {ks ws : List UInt32}
    (h : ks.length = ws.length) (a : α) :
    (List.range ks.length).foldl (fun a i => f a (ks.getD i 0) (ws.getD i 0)) a =
      (ks.zip ws).foldl (fun a kw => f a kw.1 kw.2) a := by
  induction ks generalizing ws a with
  | nil => rfl
  | cons k ks ih =>
    cases ws with
    | nil => cases h
    | cons w ws =>
      rw [List.length_cons, List.range_succ_eq_map, List.foldl_cons, List.foldl_map,
        List.zip_cons_cons, List.foldl_cons]
      exact ih (Nat.succ.inj h) _

theorem compress_eq (s : State) {block : Array UInt32} (hblock : block.size = 16) :
    compress s block = compressList s block.toList := by
  obtain ⟨hsize, hlist⟩ := schedule_eq hblock
  have hconstants : roundConstants.toList.length = 64 := rfl
  have hrounds := foldl_getD round
    (hconstants.trans (by rw [Array.length_toList, hsize]) :
      roundConstants.toList.length = (schedule block).toList.length) s
  simp only [getD_toList, hconstants] at hrounds
  rw [hlist] at hrounds
  simp only [compress, compressList, hrounds]

end Rounds

theorem foldl_compress (ws : List UInt32) (n : Nat) (h : 16 * n ≤ ws.length) (s : State) :
    (List.range n).foldl (fun s i => compress s (ws.toArray.extract (16 * i) (16 * i + 16))) s =
      absorb n s ws := by
  induction n generalizing ws s with
  | zero => rfl
  | succ n ih =>
    have hfirst : (ws.toArray.extract 0 16).toList = ws.take 16 := by simp
    have hsize : (ws.toArray.extract 0 16).size = 16 := by
      rw [Array.size_extract, List.size_toArray]
      omega
    have hrest (i : Nat) : ws.toArray.extract (16 * (i + 1)) (16 * (i + 1) + 16) =
        (ws.drop 16).toArray.extract (16 * i) (16 * i + 16) := by
      apply Array.toList_inj.mp
      simp only [Array.toList_extract, List.extract_eq_take_drop, List.drop_drop,
        Nat.add_sub_cancel_left]
      rw [Nat.mul_succ, Nat.add_comm]
    rw [List.range_succ_eq_map, List.foldl_cons, List.foldl_map, absorb, ← hfirst,
      ← compress_eq s hsize]
    simp only [Nat.succ_eq_add_one, hrest]
    exact ih (ws.drop 16) (by rw [List.length_drop]; omega) _

/-- The digest, in the form that is evaluated. -/
theorem digest_eq (message : Bytes) : digest message = digestList message := by
  simp only [digest, digestList, List.size_toArray]
  rw [foldl_compress _ _ (Nat.mul_div_le _ _)]

end Sha256

def hmacList (key message : Bytes) : Bytes :=
  let short := if key.length > blockLength then Sha256.digestList key else key
  let block := short ++ Bytes.zeros (blockLength - short.length)
  let inner := Sha256.digestList (block.map (· ^^^ 0x36) ++ message)
  Sha256.digestList (block.map (· ^^^ 0x5c) ++ inner)

theorem hmac_eq (key message : Bytes) : hmac key message = hmacList key message := by
  simp only [hmac, hmacList, blockKey, Sha256.digest_eq]

/-- An expansion that needs one block only. -/
theorem Hkdf.expand_short {prk info : Bytes} {length : Nat} (hpos : 0 < length)
    (hle : length ≤ hashLength) :
    expand prk info length = some ((hmacList prk (info ++ [1])).take length) := by
  have hmax : ¬length > maxLength := by
    simp only [maxLength, hashLength] at hle ⊢
    omega
  have hone : (length + 31) / 32 = 1 := by
    simp only [hashLength] at hle
    omega
  rw [expand, if_neg hmax, hone, ← hmac_eq]
  simp [blocks]

end EdhocLab.Digest
