import Mathlib.Data.Nat.Basic
import Mathlib.Algebra.Order.Ring.Nat
import Mathlib.Data.List.Basic

/-!
# Byte buffers

Buffers as the list of their bytes, with reads and writes at an offset that are `none` outside
the buffer: fixed-width integers least significant byte first, and strings that end with a NUL.
Two loops are derived, over consecutive fields of one width and over consecutive strings; on
what was written field by field they give the fields back.
-/

namespace Buffer

/-- The `size` low bytes of `n`, least significant first. -/
def encode : (size n : ℕ) → List UInt8
  | 0, _ => []
  | size + 1, n => UInt8.ofNat n :: encode size (n / 256)

def decode : List UInt8 → ℕ
  | [] => 0
  | b :: bs => b.toNat + 256 * decode bs

def resize (buffer : List UInt8) (size : ℕ) : List UInt8 :=
  buffer.take size ++ List.replicate (size - buffer.length) 0

def write (buffer : List UInt8) (dest : ℕ) (src : List UInt8) : Option (List UInt8) :=
  if dest + src.length ≤ buffer.length then
    some (buffer.take dest ++ src ++ buffer.drop (dest + src.length))
  else none

def read (buffer : List UInt8) (src size : ℕ) : Option (List UInt8) :=
  if src + size ≤ buffer.length then some ((buffer.drop src).take size) else none

/-- The bytes from `src` up to the next NUL, which has to be in the buffer. -/
def readString (buffer : List UInt8) (src : ℕ) : Option (List UInt8) :=
  if 0 ∈ buffer.drop src then some ((buffer.drop src).takeWhile (· ≠ 0)) else none

/-- Consecutive fields of `width` bytes from `i` to the end of the buffer. -/
def readFields (buffer : List UInt8) (width : ℕ) : (fuel i : ℕ) → Option (List (List UInt8))
  | 0, i => if i < buffer.length then none else some []
  | fuel + 1, i =>
    if i < buffer.length then do
      let field ← read buffer i width
      let fields ← readFields buffer width fuel (i + width)
      return field :: fields
    else some []

/-- Consecutive strings from `i` to the end of the buffer, each followed by its NUL. -/
def readStrings (buffer : List UInt8) : (fuel i : ℕ) → Option (List (List UInt8))
  | 0, i => if i < buffer.length then none else some []
  | fuel + 1, i =>
    if i < buffer.length then do
      let s ← readString buffer i
      let strings ← readStrings buffer fuel (i + (s.length + 1))
      return s :: strings
    else some []

@[simp] theorem length_encode (size n : ℕ) : (encode size n).length = size := by
  induction size generalizing n with
  | zero => rfl
  | succ size ih => simp [encode, ih]

theorem decode_encode (size n : ℕ) : decode (encode size n) = n % 256 ^ size := by
  induction size generalizing n with
  | zero => simp [encode, decode, Nat.mod_one]
  | succ size ih =>
    have hb : (UInt8.ofNat n).toNat = n % 256 := UInt8.toNat_ofNat' ..
    unfold encode decode
    rw [ih, hb, Nat.pow_succ, Nat.mul_comm (256 ^ size), Nat.mod_mul]

theorem decode_encode_of_lt {size n : ℕ} (h : n < 256 ^ size) : decode (encode size n) = n := by
  rw [decode_encode, Nat.mod_eq_of_lt h]

@[simp] theorem length_resize (buffer : List UInt8) (size : ℕ) :
    (resize buffer size).length = size := by
  unfold resize
  simp only [List.length_append, List.length_take, List.length_replicate]
  omega

/-- A write replaces the bytes it covers. -/
theorem write_append {pre mid post src : List UInt8} (h : src.length = mid.length) :
    write (pre ++ mid ++ post) pre.length src = some (pre ++ src ++ post) := by
  unfold write
  rw [if_pos (by simp only [List.length_append]; omega)]
  have htake : (pre ++ mid ++ post).take pre.length = pre := by
    rw [List.append_assoc, List.take_left]
  have hdrop : (pre ++ mid ++ post).drop (pre.length + src.length) = post := by
    rw [h, ← List.length_append, List.drop_left]
  rw [htake, hdrop]

theorem read_append (pre mid post : List UInt8) :
    read (pre ++ mid ++ post) pre.length mid.length = some mid := by
  unfold read
  rw [if_pos (by simp only [List.length_append]; omega), List.append_assoc, List.drop_left,
    List.take_left]

theorem readString_append {s : List UInt8} (hs : 0 ∉ s) (pre post : List UInt8) :
    readString (pre ++ s ++ 0 :: post) pre.length = some s := by
  unfold readString
  have hdrop : (pre ++ s ++ 0 :: post).drop pre.length = s ++ 0 :: post := by
    rw [List.append_assoc, List.drop_left]
  rw [hdrop, if_pos (by simp), List.takeWhile_append_of_pos]
  · simp
  · intro x hx
    have : x ≠ 0 := fun h => hs (h ▸ hx)
    simpa using this

/-- The fields written one after another are read back. -/
theorem readFields_flatten {width : ℕ} (hwidth : 0 < width) {fields : List (List UInt8)}
    (hfields : ∀ field ∈ fields, field.length = width) {fuel : ℕ} (hfuel : fields.length ≤ fuel)
    (pre : List UInt8) :
    readFields (pre ++ fields.flatten) width fuel pre.length = some fields := by
  induction fields generalizing fuel pre with
  | nil => cases fuel <;> simp [readFields]
  | cons field fields ih =>
    have hfield : field.length = width := hfields field (by simp)
    cases fuel with
    | zero => simp at hfuel
    | succ fuel =>
      have hread := read_append pre field fields.flatten
      have hrest := ih (fun f hf => hfields f (by simp [hf])) (by simpa using hfuel)
        (pre ++ field)
      rw [List.append_assoc] at hread
      rw [List.append_assoc, List.length_append] at hrest
      rw [hfield] at hread hrest
      unfold readFields
      rw [List.flatten_cons, if_pos (by simp only [List.length_append]; omega), hread]
      simp only [Option.bind_eq_bind, Option.bind_some]
      rw [hrest]
      rfl

/-- The strings written one after another, each with its NUL, are read back. -/
theorem readStrings_flatten {strings : List (List UInt8)} (hs : ∀ s ∈ strings, 0 ∉ s)
    {fuel : ℕ} (hfuel : strings.length ≤ fuel) (pre : List UInt8) :
    readStrings (pre ++ (strings.map (· ++ [0])).flatten) fuel pre.length = some strings := by
  induction strings generalizing fuel pre with
  | nil => cases fuel <;> simp [readStrings]
  | cons s strings ih =>
    cases fuel with
    | zero => simp at hfuel
    | succ fuel =>
      have hread := readString_append (hs s (by simp)) pre
        (strings.map (· ++ [0])).flatten
      have hrest := ih (fun t ht => hs t (by simp [ht])) (by simpa using hfuel)
        (pre ++ (s ++ [0]))
      rw [List.append_assoc, List.length_append, List.length_append] at hrest
      have hbuffer : pre ++ ((s :: strings).map (· ++ [0])).flatten =
          pre ++ s ++ 0 :: (strings.map (· ++ [0])).flatten := by simp
      have hbuffer' : pre ++ (s ++ [0] ++ (strings.map (· ++ [0])).flatten) =
          pre ++ s ++ 0 :: (strings.map (· ++ [0])).flatten := by simp
      rw [hbuffer'] at hrest
      unfold readStrings
      rw [hbuffer, if_pos (by simp only [List.length_append, List.length_cons]; omega), hread]
      simp only [Option.bind_eq_bind, Option.bind_some]
      simp only [List.length_singleton] at hrest
      rw [hrest]
      rfl

end Buffer
