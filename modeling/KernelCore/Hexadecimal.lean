/-!
# Written numbers

Hexadecimal text of a number, plain or padded to the sixteen digits of a word, the way back, and the
padding of a short text on its left. Decimal text is `toString`. Bytes are written and read as pairs
of digits.
-/
namespace KernelCore

/-- The lower-case hexadecimal digits of `n`, without leading zeros; zero is one digit. -/
def hexDigits (n : Nat) : List Char := Nat.toDigits 16 n

/-- `0x` and the digits of `n`. -/
def hex (n : Nat) : String := String.ofList ('0' :: 'x' :: hexDigits n)

/-- Fills `text` up on the left with `pad` until it has `width` characters. -/
def padLeft (pad : Char) (width : Nat) (text : List Char) : List Char :=
  List.replicate (width - text.length) pad ++ text

/-- `0x` and the digits of `n`, padded with zeros to the sixteen digits of a word. -/
def wordHex (n : Nat) : String := String.ofList ('0' :: 'x' :: padLeft '0' 16 (hexDigits n))

def byteHex (b : UInt8) : List Char := padLeft '0' 2 (hexDigits b.toNat)

/-- The value of a hexadecimal digit, in either case. -/
def digitValue? (c : Char) : Option Nat :=
  if '0' ≤ c ∧ c ≤ '9' then some (c.toNat - '0'.toNat)
  else if 'a' ≤ c ∧ c ≤ 'f' then some (c.toNat - 'a'.toNat + 10)
  else if 'A' ≤ c ∧ c ≤ 'F' then some (c.toNat - 'A'.toNat + 10)
  else none

def parseHex? (digits : List Char) : Option Nat :=
  digits.foldlM (fun n c => (digitValue? c).map (16 * n + ·)) 0

/-- The bytes that pairs of hexadecimal digits spell, added to those in `bytes`. -/
def parseHexBytes? : List Char → (bytes : Array UInt8) → Option (Array UInt8)
  | [], bytes => some bytes
  | [_], _ => none
  | c :: d :: rest, bytes =>
    match digitValue? c, digitValue? d with
    | some upper, some lower => parseHexBytes? rest (bytes.push (UInt8.ofNat (16 * upper + lower)))
    | _, _ => none

@[simp] theorem length_padLeft (pad : Char) (width : Nat) (text : List Char) :
    (padLeft pad width text).length = max width text.length := by
  simp [padLeft]; omega

end KernelCore
