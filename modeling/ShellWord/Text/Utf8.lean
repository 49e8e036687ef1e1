import ShellWord.Text.Basic

/-!
# UTF-8

What programs write is bytes, and what the shell handles is characters.  Bytes that are no UTF-8 are
decoded as well: a replacement character stands for every longest beginning of a character that is
broken off, and for every byte that begins none.

## Main definitions

* `Utf8.encode`: the bytes of a text
* `Utf8.decode`: the text of any bytes
* `Utf8.decode?`: the text of bytes that are UTF-8
-/

namespace ShellWord.Utf8

/-- The bytes of a character. -/
def encodeChar (c : Char) : List UInt8 :=
  let n := c.toNat
  let tail (shift : Nat) : UInt8 := UInt8.ofNat (0x80 + (n >>> shift) % 64)
  if n < 0x80 then [UInt8.ofNat n]
  else if n < 0x800 then [UInt8.ofNat (0xC0 + n / 0x40), tail 0]
  else if n < 0x10000 then [UInt8.ofNat (0xE0 + n / 0x1000), tail 6, tail 0]
  else [UInt8.ofNat (0xF0 + n / 0x40000), tail 12, tail 6, tail 0]

/-- The bytes of a text. -/
def encode (t : Text) : List UInt8 :=
  t.flatMap encodeChar

/-- A character that has begun: how many bytes are missing, the range of the next one, and the bits so
far. -/
structure Pending where
  missing : Nat
  low : Nat
  high : Nat
  bits : Nat
  deriving DecidableEq, Repr

/-- The character that stands for bytes that are no UTF-8. -/
def replacement : Char := '�'

/-- A byte between two characters: what it adds to the text, and the character it begins. -/
def start (b : Nat) : Text × Option Pending :=
  if b < 0x80 then ([Char.ofNat b], none)
  else if b < 0xC2 then ([replacement], none)
  else if b < 0xE0 then ([], some ⟨1, 0x80, 0xBF, b - 0xC0⟩)
  else if b < 0xF0 then
    ([], some ⟨2, if b == 0xE0 then 0xA0 else 0x80, if b == 0xED then 0x9F else 0xBF, b - 0xE0⟩)
  else if b < 0xF5 then
    ([], some ⟨3, if b == 0xF0 then 0x90 else 0x80, if b == 0xF4 then 0x8F else 0xBF, b - 0xF0⟩)
  else ([replacement], none)

/-- A byte within a character: what it adds to the text, and what is pending after it. -/
def next (p : Pending) (b : Nat) : Text × Option Pending :=
  if p.low ≤ b && b ≤ p.high then
    let bits := p.bits * 64 + (b - 0x80)
    if p.missing ≤ 1 then ([Char.ofNat bits], none)
    else ([], some ⟨p.missing - 1, 0x80, 0xBF, bits⟩)
  else
    let (text, pending) := start b
    (replacement :: text, pending)

/-- The text of bytes, with a character that may be pending. -/
def decodeFrom : Option Pending → List UInt8 → Text
  | none, [] => []
  | some _, [] => [replacement]
  | none, b :: bytes =>
    let (text, pending) := start b.toNat
    text ++ decodeFrom pending bytes
  | some p, b :: bytes =>
    let (text, pending) := next p b.toNat
    text ++ decodeFrom pending bytes

/-- The text of bytes. -/
def decode (bytes : List UInt8) : Text :=
  decodeFrom none bytes

/-- The text whose bytes these are, if they are UTF-8. -/
def decode? (bytes : List UInt8) : Option Text :=
  let t := decode bytes
  if encode t == bytes then some t else none

end ShellWord.Utf8
