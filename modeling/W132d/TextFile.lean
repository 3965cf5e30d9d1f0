import Mathlib.Tactic

/-!
# Files in text mode

A program that opens a file as text sees the characters of its bytes in UTF-8, with each end of a
line as a line feed, whichever of `\n`, `\r` and `\r\n` the file has. What it writes has line feeds
only.

* `readText`, `encode`: the text of a file and the bytes of a text;
* `take_encode_universalNewlines`: the first bytes of what is written back are those that were read
  if and only if these have no carriage return and are all taken.
-/

namespace W132d.TextFile

/-- The bytes of a text. -/
def encode (t : List Char) : List UInt8 := t.flatMap String.utf8EncodeChar

/-- The characters of bytes in UTF-8. -/
def decode (b : List UInt8) : Option (List Char) :=
  (ByteArray.mk b.toArray).utf8Decode?.map Array.toList

/-- Every end of a line is a line feed. -/
def universalNewlines : List Char → List Char
  | [] => []
  | '\r' :: '\n' :: cs => '\n' :: universalNewlines cs
  | '\r' :: cs => '\n' :: universalNewlines cs
  | c :: cs => c :: universalNewlines cs

/-- The text of a file. -/
def readText (b : List UInt8) : Option (List Char) := (decode b).map universalNewlines

variable {t t' : List Char} {b : List UInt8} {n : ℕ}

/-! ## Bytes -/

/-- The bytes are those of UTF-8. -/
theorem toByteArray_encode (t : List Char) : ByteArray.mk (encode t).toArray = t.utf8Encode := by
  rw [List.utf8Encode, encode, ← List.data_toByteArray]

/-- The bytes of a string. -/
theorem encode_toList (s : String) : encode s.toList = s.toByteArray.data.toList := by
  have h : ByteArray.mk (encode s.toList).toArray = s.toByteArray := by
    rw [toByteArray_encode, String.utf8Encode_toList]
  rw [← h]

/-- A text that was encoded is decoded. -/
theorem decode_encode (t : List Char) : decode (encode t) = some t := by
  rw [decode, toByteArray_encode, List.utf8Decode?_utf8Encode]
  rfl

theorem encode_of_decode (h : decode b = some t) : encode t = b := by
  obtain ⟨a, ha, rfl⟩ := Option.map_eq_some_iff.1 h
  have hsome : (ByteArray.mk b.toArray).utf8Decode?.isSome := by rw [ha]; rfl
  have hget : (ByteArray.mk b.toArray).utf8Decode?.get hsome = a := by
    simp only [ha, Option.get_some]
  have hbytes := ByteArray.utf8Encode_get_utf8Decode? (h := hsome)
  rw [hget, ← toByteArray_encode] at hbytes
  exact Array.toList_inj.2 (congrArg ByteArray.data hbytes)

/-- Reading it makes the ends of lines one. -/
theorem readText_encode (t : List Char) : readText (encode t) = some (universalNewlines t) := by
  rw [readText, decode_encode, Option.map_some]

/-- Different texts have different bytes. -/
theorem encode_injective : Function.Injective encode := by
  intro t t' h
  have hdecode := congrArg decode h
  rwa [decode_encode, decode_encode, Option.some_inj] at hdecode

/-- The bytes of a text tell it. -/
@[simp] theorem encode_inj : encode t = encode t' ↔ t = t' := encode_injective.eq_iff

/-- The empty text has no bytes. -/
@[simp] theorem encode_nil : encode [] = [] := rfl

@[simp] theorem encode_append (t t' : List Char) : encode (t ++ t') = encode t ++ encode t' :=
  List.flatMap_append

/-! ## Ends of lines -/

/-- No carriage return is left. -/
theorem not_mem_universalNewlines (t : List Char) : '\r' ∉ universalNewlines t := by
  fun_induction universalNewlines t <;> grind

theorem universalNewlines_cons {c : Char} (hc : c ≠ '\r') (t : List Char) :
    universalNewlines (c :: t) = c :: universalNewlines t := by
  rw [universalNewlines]
  · rintro cs rfl
    exact absurd rfl hc
  · exact fun h => absurd h hc

theorem universalNewlines_eq_self : universalNewlines t = t ↔ '\r' ∉ t := by
  constructor
  · intro h
    rw [← h]
    exact not_mem_universalNewlines t
  · intro h
    fun_induction universalNewlines t <;> grind

/-- Both ends of a line that are not a line feed take as many bytes as one, or more. -/
theorem length_encode_universalNewlines_le (t : List Char) :
    (encode (universalNewlines t)).length ≤ (encode t).length := by
  have hcons : ∀ (c : Char) (cs : List Char),
      (encode (c :: cs)).length = (String.utf8EncodeChar c).length + (encode cs).length := by
    intro c cs
    rw [encode, List.flatMap_cons, List.length_append, encode]
  have hlf : (String.utf8EncodeChar '\n').length = 1 := by decide
  have hcr : (String.utf8EncodeChar '\r').length = 1 := by decide
  fun_induction universalNewlines t with
  | case1 => rfl
  | case2 cs ih =>
    rw [hcons '\n', hcons '\r', hcons '\n']
    omega
  | case3 cs _ ih =>
    rw [hcons '\n', hcons '\r']
    omega
  | case4 c cs _ _ ih =>
    rw [hcons c, hcons c]
    omega

/-- A text that was read and written is there if it had none, and was not cut off. -/
theorem take_encode_universalNewlines :
    (encode (universalNewlines t)).take n = encode t ↔ '\r' ∉ t ∧ (encode t).length ≤ n := by
  constructor
  · intro h
    have hlength := congrArg List.length h
    rw [List.length_take] at hlength
    have hle := length_encode_universalNewlines_le t
    rw [List.take_of_length_le (by omega), encode_inj] at h
    exact ⟨universalNewlines_eq_self.1 h, by omega⟩
  · rintro ⟨hcr, hn⟩
    rw [universalNewlines_eq_self.2 hcr, List.take_of_length_le hn]

end W132d.TextFile
