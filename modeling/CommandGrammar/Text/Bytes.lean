/-!
# Texts as bytes

Bytes that encode a text in UTF-8, and texts that spell bytes in base 64.

UTF-8 is decoded strictly: overlong forms, surrogates, code points beyond the last one and truncated
sequences are refused. In base 64, bytes are written four characters for three. Characters outside the
alphabet do not count, and padding ends the text as soon as it completes a group of four.
-/

namespace CommandGrammar.Text

/-! ## UTF-8 -/

/-- The six payload bits of a continuation byte. -/
def continuation? (b : UInt8) : Option Nat :=
  if 0x80 ≤ b.toNat ∧ b.toNat < 0xC0 then some (b.toNat - 0x80) else none

/-- The character with a code point of at least `least`, unless there is none. -/
def scalar? (least code : Nat) : Option Char :=
  if least ≤ code ∧ code.isValidChar then some (Char.ofNat code) else none

/-- The characters that the bytes encode. -/
def decodeUtf8? : List UInt8 → Option (List Char)
  | [] => some []
  | a :: rest =>
    if a.toNat < 0x80 then (decodeUtf8? rest).map (Char.ofNat a.toNat :: ·)
    else if a.toNat < 0xC0 then none
    else if a.toNat < 0xE0 then
      match rest with
      | b :: rest => do
        let c ← scalar? 0x80 ((a.toNat - 0xC0) * 0x40 + (← continuation? b))
        return c :: (← decodeUtf8? rest)
      | _ => none
    else if a.toNat < 0xF0 then
      match rest with
      | b :: b' :: rest => do
        let c ← scalar? 0x800
          (((a.toNat - 0xE0) * 0x40 + (← continuation? b)) * 0x40 + (← continuation? b'))
        return c :: (← decodeUtf8? rest)
      | _ => none
    else if a.toNat < 0xF8 then
      match rest with
      | b :: b' :: b'' :: rest => do
        let c ← scalar? 0x10000
          ((((a.toNat - 0xF0) * 0x40 + (← continuation? b)) * 0x40 + (← continuation? b')) * 0x40
            + (← continuation? b''))
        return c :: (← decodeUtf8? rest)
      | _ => none
    else none

/-- The text that the bytes encode. -/
def ofUtf8? (content : List UInt8) : Option String := (decodeUtf8? content).map String.ofList

/-! ## Base 64 -/

namespace Base64

/-- The value of a character of the alphabet. -/
def value? (c : Char) : Option Nat :=
  if 'A' ≤ c ∧ c ≤ 'Z' then some (c.toNat - 0x41)
  else if 'a' ≤ c ∧ c ≤ 'z' then some (c.toNat - 0x61 + 26)
  else if c.isDigit then some (c.toNat - 0x30 + 52)
  else if c = '+' then some 62
  else if c = '/' then some 63
  else none

/--
The bytes of a text. Of the group at hand, `filled` characters were read, `bits` is what they left over,
and `pads` is the number of paddings since.
-/
def bytesFrom (filled bits pads : Nat) : List Char → Option (List UInt8)
  | [] => if filled = 0 then some [] else none
  | c :: rest =>
    if c = '=' then
      if 2 ≤ filled ∧ 4 ≤ filled + pads + 1 then some []
      else bytesFrom filled bits (if 2 ≤ filled then pads + 1 else pads) rest
    else
      match value? c with
      | none => bytesFrom filled bits pads rest
      | some v =>
        match filled with
        | 0 => bytesFrom 1 v 0 rest
        | 1 => (bytesFrom 2 (v % 16) 0 rest).map (UInt8.ofNat (bits * 4 + v / 16) :: ·)
        | 2 => (bytesFrom 3 (v % 4) 0 rest).map (UInt8.ofNat (bits * 16 + v / 4) :: ·)
        | _ => (bytesFrom 0 0 0 rest).map (UInt8.ofNat (bits * 64 + v) :: ·)

/-- The bytes that a text stands for. -/
def decode? (cs : List Char) : Option (List UInt8) := bytesFrom 0 0 0 cs

end Base64

end CommandGrammar.Text
