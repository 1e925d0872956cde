/-!
# UTF-8

Byte strings, the UTF-8 form of text, and the two ways back: `decode?` refuses bytes that are not
UTF-8, `decodeLossy` puts a replacement character wherever a piece cannot be read.

`decode?_eq_some_iff` says that `decode?` reads exactly what `encode` writes.
-/

namespace Stencil

/-- A string of octets. -/
abbrev Bytes := List UInt8

namespace Utf8

/-- The UTF-8 form of a list of characters. -/
def encodeChars (cs : List Char) : Bytes := cs.flatMap String.utf8EncodeChar

/-- The UTF-8 form of a text. -/
def encode (s : String) : Bytes := encodeChars s.toList

/-- How many octets the UTF-8 form of a list of characters takes. -/
def size (cs : List Char) : Nat := cs.foldr (fun c n => c.utf8Size + n) 0

/-- The text whose UTF-8 form the octets are, if there is one. -/
def decode? (bytes : Bytes) : Option String := String.fromUTF8? bytes.toByteArray

@[simp] theorem encodeChars_nil : encodeChars [] = [] := rfl

@[simp] theorem encodeChars_cons (c : Char) (cs : List Char) :
    encodeChars (c :: cs) = String.utf8EncodeChar c ++ encodeChars cs := by
  simp [encodeChars]

@[simp] theorem encodeChars_append (cs ds : List Char) :
    encodeChars (cs ++ ds) = encodeChars cs ++ encodeChars ds := by
  simp [encodeChars]

@[simp] theorem length_encodeChars (cs : List Char) : (encodeChars cs).length = size cs := by
  induction cs with
  | nil => rfl
  | cons c cs ih => simp [ih, size]

theorem size_append (cs ds : List Char) : size (cs ++ ds) = size cs + size ds := by
  rw [← length_encodeChars, encodeChars_append, List.length_append, length_encodeChars,
    length_encodeChars]

@[simp] theorem encode_ofList (cs : List Char) : encode (String.ofList cs) = encodeChars cs := by
  simp [encode]

theorem toByteArray_encode (s : String) : (encode s).toByteArray = s.toByteArray := by
  rw [encode, encodeChars, ← List.utf8Encode, String.utf8Encode_toList]

theorem toByteArray_inj {a b : Bytes} (h : a.toByteArray = b.toByteArray) : a = b := by
  have := congrArg (fun x => x.data.toList) h
  simpa using this

/-- Reading back accepts exactly the UTF-8 form of a text. -/
theorem decode?_eq_some_iff {bytes : Bytes} {s : String} :
    decode? bytes = some s ↔ bytes = encode s := by
  unfold decode? String.fromUTF8?
  constructor
  · intro h
    split at h
    · rename_i valid
      apply toByteArray_inj
      rw [toByteArray_encode, ← Option.some.inj h]
      rfl
    · cases h
  · rintro rfl
    have valid : (encode s).toByteArray.IsValidUTF8 := by
      rw [toByteArray_encode]
      exact s.isValidUTF8
    rw [dif_pos valid]
    congr 1
    exact String.toByteArray_inj.1 (toByteArray_encode s)

/-- Characters are determined by their UTF-8 form. -/
theorem encodeChars_inj {cs ds : List Char} : encodeChars cs = encodeChars ds ↔ cs = ds := by
  constructor
  · intro h
    have hcs : decode? (encodeChars cs) = some (String.ofList cs) := by
      rw [decode?_eq_some_iff, encode_ofList]
    have hds : decode? (encodeChars ds) = some (String.ofList ds) := by
      rw [decode?_eq_some_iff, encode_ofList]
    rw [h, hds] at hcs
    exact (String.ofList_injective (Option.some.inj hcs)).symm
  · rintro rfl
    rfl

/-- A character of which some octets are still owed: the value of the bits read so far, and the
range that each further octet has to lie in. -/
structure Pending where
  value : Nat
  owed : List (UInt8 × UInt8)
  deriving DecidableEq, Repr

/-- The range of an unrestricted continuation octet. -/
def continuation : UInt8 × UInt8 := (0x80, 0xBF)

/-- What the first octet of a character announces, if a character can start with it. The octet
after `E0`, `ED`, `F0` or `F4` has a narrower range, which keeps out overlong forms, surrogates
and values beyond the last code point. -/
def Pending.ofLead? (b : UInt8) : Option Pending :=
  if b < 0x80 then some ⟨b.toNat, []⟩
  else if b < 0xC2 then none
  else if b < 0xE0 then some ⟨b.toNat - 0xC0, [continuation]⟩
  else if b < 0xF0 then
    let second := if b = 0xE0 then (0xA0, 0xBF) else if b = 0xED then (0x80, 0x9F) else continuation
    some ⟨b.toNat - 0xE0, [second, continuation]⟩
  else if b < 0xF5 then
    let second := if b = 0xF0 then (0x90, 0xBF) else if b = 0xF4 then (0x80, 0x8F) else continuation
    some ⟨b.toNat - 0xF0, [second, continuation, continuation]⟩
  else none

/-- The replacement character, which stands for a piece that is not UTF-8. -/
def replacement : Char := '\uFFFD'

/-- The characters that octet `b` completes between characters, and the character it begins. -/
def beginChar (b : UInt8) : List Char × Option Pending :=
  match Pending.ofLead? b with
  | none => ([replacement], none)
  | some ⟨value, []⟩ => ([Char.ofNat value], none)
  | some pending => ([], some pending)

/-- The characters that octet `b` completes, and the character of which octets are then owed. An
octet that cannot continue the pending character ends it with a replacement and is read anew. -/
def pushOctet : Option Pending → UInt8 → List Char × Option Pending
  | none, b => beginChar b
  | some ⟨_, []⟩, b => beginChar b
  | some ⟨value, (low, high) :: owed⟩, b =>
    if low ≤ b ∧ b ≤ high then
      let value := value * 64 + (b.toNat - 0x80)
      if owed.isEmpty then ([Char.ofNat value], none) else ([], some ⟨value, owed⟩)
    else
      let (cs, pending) := beginChar b
      (replacement :: cs, pending)

/-- The characters of octets that may not be UTF-8, from a character begun before them. -/
def decodeLossyFrom : Option Pending → Bytes → List Char
  | none, [] => []
  | some _, [] => [replacement]
  | pending, b :: bytes =>
    let (cs, pending) := pushOctet pending b
    cs ++ decodeLossyFrom pending bytes

/-- The characters of octets that may not be UTF-8. Each longest piece that begins a character but
does not complete it, and each octet that begins none, becomes one replacement character. -/
def decodeLossy (bytes : Bytes) : List Char := decodeLossyFrom none bytes

end Utf8

end Stencil
