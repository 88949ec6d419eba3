import Pseudocode.Span
import Pseudocode.Text.Blank

set_option autoImplicit false

namespace Pseudocode

abbrev Text := List Char

namespace Text

/-- Number of bytes of the UTF-8 form. -/
def bytes : Text → Nat
  | [] => 0
  | c :: t => c.utf8Size + bytes t

@[simp] theorem bytes_nil : bytes [] = 0 := rfl

@[simp] theorem bytes_cons (c : Char) (t : Text) : bytes (c :: t) = c.utf8Size + bytes t := rfl

@[simp] theorem bytes_append (s t : Text) : bytes (s ++ t) = bytes s + bytes t := by
  induction s with
  | nil => simp
  | cons c s ih => simp [ih, Nat.add_assoc]

theorem length_le_bytes (t : Text) : t.length ≤ bytes t := by
  induction t with
  | nil => simp
  | cons c t ih =>
      have := c.utf8Size_pos
      simp only [List.length_cons, bytes_cons]
      omega

/-- Whether a text does not come after another in the order of code points. -/
def precedes : Text → Text → Bool
  | [], _ => true
  | _ :: _, [] => false
  | c :: s, d :: t => c.toNat < d.toNat || (c == d && precedes s t)

/-- What is left after the first `n` bytes; a character is never split. -/
def dropBytes : Nat → Text → Text
  | 0, t => t
  | _ + 1, [] => []
  | n + 1, c :: t => dropBytes (n + 1 - c.utf8Size) t

/-- The first `n` bytes; a character is never split. -/
def takeBytes : Nat → Text → Text
  | 0, _ => []
  | _ + 1, [] => []
  | n + 1, c :: t => c :: takeBytes (n + 1 - c.utf8Size) t

/-- The part of `t` that a span names. -/
def slice (t : Text) (s : Span) : Text :=
  takeBytes (s.stop - s.start) (dropBytes s.start t)

theorem length_dropBytes_le (n : Nat) (t : Text) : (dropBytes n t).length ≤ t.length := by
  induction t generalizing n with
  | nil => cases n <;> simp [dropBytes]
  | cons c t ih =>
      cases n with
      | zero => simp [dropBytes]
      | succ n =>
          have := ih (n + 1 - c.utf8Size)
          simp only [dropBytes, List.length_cons]
          omega

theorem length_takeBytes_le (n : Nat) (t : Text) : (takeBytes n t).length ≤ t.length := by
  induction t generalizing n with
  | nil => cases n <;> simp [takeBytes]
  | cons c t ih =>
      cases n with
      | zero => simp [takeBytes]
      | succ n =>
          have := ih (n + 1 - c.utf8Size)
          simp only [takeBytes, List.length_cons]
          omega

theorem length_dropBytes_lt (n : Nat) (t : Text) (positive : 0 < n) (nonempty : t ≠ []) :
    (dropBytes n t).length < t.length := by
  cases t with
  | nil => exact absurd rfl nonempty
  | cons c t =>
      cases n with
      | zero => omega
      | succ n =>
          have := length_dropBytes_le (n + 1 - c.utf8Size) t
          simp only [dropBytes, List.length_cons]
          omega

theorem length_slice_lt (t : Text) (s : Span) (positive : 0 < s.start) (nonempty : t ≠ []) :
    (slice t s).length < t.length := by
  have := length_takeBytes_le (s.stop - s.start) (dropBytes s.start t)
  have := length_dropBytes_lt s.start t positive nonempty
  unfold slice
  omega

def trimStart (t : Text) : Text :=
  t.dropWhile isBlank

def trimEnd (t : Text) : Text :=
  (t.reverse.dropWhile isBlank).reverse

def trim (t : Text) : Text :=
  trimEnd (trimStart t)

/-- The trimmed text with its place, where `t` begins at byte `base`. -/
def trimmed (base : Nat) (t : Text) : Spanned Text :=
  let start := base + bytes (t.takeWhile isBlank)
  ⟨trim t, ⟨start, start + bytes (trim t)⟩⟩

/-- Without the line feeds and carriage returns at the end. -/
def trimLineEnd (t : Text) : Text :=
  (t.reverse.dropWhile fun c => c == '\n' || c == '\r').reverse

/-- Without the line feed at the end and the carriage return before it. -/
def dropLineEnd (t : Text) : Text :=
  match t.reverse with
  | '\n' :: '\r' :: rest => rest.reverse
  | '\n' :: rest => rest.reverse
  | _ => t

def splitOn (sep : Char) : Text → List Text
  | [] => [[]]
  | c :: t =>
      if c = sep then [] :: splitOn sep t
      else
        match splitOn sep t with
        | [] => [[c]]
        | part :: rest => (c :: part) :: rest

def encode (t : Text) : List UInt8 :=
  t.flatMap String.utf8EncodeChar

def decode (b : List UInt8) : Option Text :=
  (ByteArray.utf8Decode? ⟨b.toArray⟩).map Array.toList

@[simp] theorem encode_nil : encode [] = [] := rfl

@[simp] theorem encode_append (s t : Text) : encode (s ++ t) = encode s ++ encode t := by
  simp [encode]

theorem length_encode (t : Text) : (encode t).length = bytes t := by
  induction t with
  | nil => rfl
  | cons c t ih =>
      have split : encode (c :: t) = String.utf8EncodeChar c ++ encode t := by simp [encode]
      simp [split, ih]

theorem decode_encode (t : Text) : decode (encode t) = some t := by
  have same : (⟨(encode t).toArray⟩ : ByteArray) = List.utf8Encode t := by
    apply ByteArray.ext
    simp [List.utf8Encode, encode, List.data_toByteArray]
  simp [decode, same, List.utf8Decode?_utf8Encode]

end Text

end Pseudocode
