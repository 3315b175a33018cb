import SasLayout.Byte

set_option autoImplicit false

/-!
A program text is its UTF-8 bytes, and every offset into it counts bytes. The view of a text is
its list of bytes.
-/
namespace SasLayout

structure Text where
  bytes : ByteArray
deriving Inhabited

instance : DecidableEq Text
  | ⟨⟨a⟩⟩, ⟨⟨b⟩⟩ => if same : a = b then .isTrue (same ▸ rfl) else .isFalse (by simpa using same)

/-- A half-open range of offsets. -/
structure Extent where
  start : Nat
  stop : Nat
deriving DecidableEq, Repr, Inhabited

namespace Text

def ofString (s : String) : Text :=
  ⟨s.toUTF8⟩

def toString (t : Text) : String :=
  (String.fromUTF8? t.bytes).getD ""

def toList (t : Text) : List UInt8 :=
  t.bytes.data.toList

def size (t : Text) : Nat :=
  t.bytes.size

def byte? (t : Text) (i : Nat) : Option UInt8 :=
  if h : i < t.bytes.size then some t.bytes[i] else none

/-- Whether a byte stands at `i` and `p` holds of it. -/
@[inline] def byteIs (t : Text) (i : Nat) (p : UInt8 → Bool) : Bool :=
  if h : i < t.bytes.size then p t.bytes[i] else false

def slice (t : Text) (start stop : Nat) : Text :=
  ⟨t.bytes.extract start stop⟩

def append (t u : Text) : Text :=
  ⟨t.bytes ++ u.bytes⟩

/-- ASCII letters in lower case. -/
def lower (t : Text) : Text :=
  ⟨⟨t.bytes.data.map Byte.lower⟩⟩

/-- The first offset from `i` on whose byte satisfies `p`, or the end of the text. -/
@[specialize] def seek (t : Text) (p : UInt8 → Bool) (i : Nat) : Nat :=
  if i < t.size then
    if t.byteIs i p then i else t.seek p (i + 1)
  else t.size
termination_by t.size - i

/-- The least offset from which no byte before `i` satisfies `p`. -/
@[specialize] def seekBack (t : Text) (p : UInt8 → Bool) : Nat → Nat
  | 0 => 0
  | i + 1 => if t.byteIs i p then i + 1 else t.seekBack p i

/-- Whether `p` holds of every byte from `start` to `stop`. -/
def allBetween (t : Text) (p : UInt8 → Bool) (start stop : Nat) : Bool :=
  (List.range' start (stop - start)).all fun i => t.byteIs i p

/-- Whether the bytes `word` stand at `i`. -/
def startsWith (t : Text) (i : Nat) : List UInt8 → Bool
  | [] => true
  | b :: rest => t.byteIs i (· == b) && t.startsWith (i + 1) rest

/-- Whether the bytes `word` stand at `i` once ASCII letters are read in lower case. -/
def startsWithLower (t : Text) (i : Nat) : List UInt8 → Bool
  | [] => true
  | b :: rest => t.byteIs i (Byte.lower · == b) && t.startsWithLower (i + 1) rest

/-- A character starts at `i`, or the text ends there. -/
def isBoundary (t : Text) (i : Nat) : Bool :=
  i == 0 || i == t.size || t.byteIs i (!Byte.isContinuation ·)

/-- The last character boundary at or before `i`. -/
def floor (t : Text) (i : Nat) : Nat :=
  if t.size ≤ i then t.size else back i
where
  back : Nat → Nat
  | 0 => 0
  | i + 1 => if t.isBoundary (i + 1) then i + 1 else back i

/-- The boundary after the character at `i`. -/
def next (t : Text) (i : Nat) : Nat :=
  t.seek (!Byte.isContinuation ·) (i + 1)

/-- The character that starts at `i`. -/
def char? (t : Text) (i : Nat) : Option Char :=
  t.bytes.utf8DecodeChar? i

/-- The character that ends at `i`. -/
def charBefore? (t : Text) (i : Nat) : Option Char :=
  if i = 0 || !t.isBoundary i then none else t.char? (t.floor (i - 1))

theorem lt_size_of_byteIs {t : Text} {i : Nat} {p : UInt8 → Bool} (holds : t.byteIs i p = true) :
    i < t.size := by
  unfold byteIs at holds
  split at holds
  · assumption
  · simp at holds

theorem seek_le_size (t : Text) (p : UInt8 → Bool) (i : Nat) : t.seek p i ≤ t.size := by
  fun_induction seek t p i <;> omega

theorem le_seek (t : Text) (p : UInt8 → Bool) (i : Nat) (within : i ≤ t.size) :
    i ≤ t.seek p i := by
  fun_induction seek t p i <;> omega

theorem lt_next (t : Text) (i : Nat) (within : i < t.size) : i < t.next i :=
  t.le_seek _ (i + 1) within

theorem seekBack_le (t : Text) (p : UInt8 → Bool) (i : Nat) : t.seekBack p i ≤ i := by
  fun_induction seekBack t p i <;> omega

@[simp] theorem floor_zero (t : Text) : t.floor 0 = 0 := by
  unfold floor
  split
  · omega
  · rfl

theorem floor_le (t : Text) (i : Nat) : t.floor i ≤ i := by
  have back_le : ∀ j, floor.back t j ≤ j := fun j => by
    fun_induction floor.back t j <;> omega
  unfold floor
  split
  · assumption
  · exact back_le i

end Text
end SasLayout
