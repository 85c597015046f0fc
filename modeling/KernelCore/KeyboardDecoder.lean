import KernelCore.InputRing
import KernelCore.Notice

/-!
# The keyboard decoder

Turns the scancodes of a keyboard (set 1, US layout) into characters. A code below 0x80 is a key
pressed, the same code with that bit set is the key released, and two codes announce that the next
one is from another table. The decoder remembers the shift keys, caps lock and num lock.
-/
namespace KernelCore

/-- What a key does. -/
inductive Key where
  /-- The same character always. -/
  | plain (c : Char)
  /-- Two characters, with shift released and held. -/
  | shifting (c shifted : Char)
  /-- A letter, which caps lock and shift capitalize. -/
  | letter (lower upper : Char)
  /-- A key of the number pad: with num lock, and without. -/
  | pad (c : Char) (off : Option Char)
  | leftShift
  | rightShift
  | capsLock
  | numLock
  /-- A key that is held while num lock stands for another key. -/
  | pauseControl
  | silent
  deriving DecidableEq, Repr

namespace Key

def ofCode : Nat → Key
  | 0x01 => .plain '\x1b'
  | 0x02 => .shifting '1' '!'
  | 0x03 => .shifting '2' '@'
  | 0x04 => .shifting '3' '#'
  | 0x05 => .shifting '4' '$'
  | 0x06 => .shifting '5' '%'
  | 0x07 => .shifting '6' '^'
  | 0x08 => .shifting '7' '&'
  | 0x09 => .shifting '8' '*'
  | 0x0a => .shifting '9' '('
  | 0x0b => .shifting '0' ')'
  | 0x0c => .shifting '-' '_'
  | 0x0d => .shifting '=' '+'
  | 0x0e => .plain '\x08'
  | 0x0f => .plain '\t'
  | 0x10 => .letter 'q' 'Q'
  | 0x11 => .letter 'w' 'W'
  | 0x12 => .letter 'e' 'E'
  | 0x13 => .letter 'r' 'R'
  | 0x14 => .letter 't' 'T'
  | 0x15 => .letter 'y' 'Y'
  | 0x16 => .letter 'u' 'U'
  | 0x17 => .letter 'i' 'I'
  | 0x18 => .letter 'o' 'O'
  | 0x19 => .letter 'p' 'P'
  | 0x1a => .shifting '[' '\x7b'
  | 0x1b => .shifting ']' '\x7d'
  | 0x1c => .plain '\n'
  | 0x1e => .letter 'a' 'A'
  | 0x1f => .letter 's' 'S'
  | 0x20 => .letter 'd' 'D'
  | 0x21 => .letter 'f' 'F'
  | 0x22 => .letter 'g' 'G'
  | 0x23 => .letter 'h' 'H'
  | 0x24 => .letter 'j' 'J'
  | 0x25 => .letter 'k' 'K'
  | 0x26 => .letter 'l' 'L'
  | 0x27 => .shifting ';' ':'
  | 0x28 => .shifting '\x27' '\x22'
  | 0x29 => .shifting '\x60' '~'
  | 0x2a => .leftShift
  | 0x2c => .letter 'z' 'Z'
  | 0x2d => .letter 'x' 'X'
  | 0x2e => .letter 'c' 'C'
  | 0x2f => .letter 'v' 'V'
  | 0x30 => .letter 'b' 'B'
  | 0x31 => .letter 'n' 'N'
  | 0x32 => .letter 'm' 'M'
  | 0x33 => .shifting ',' '<'
  | 0x34 => .shifting '.' '>'
  | 0x35 => .shifting '/' '?'
  | 0x36 => .rightShift
  | 0x37 => .plain '*'
  | 0x39 => .plain ' '
  | 0x3a => .capsLock
  | 0x45 => .numLock
  | 0x47 => .pad '7' none
  | 0x48 => .pad '8' none
  | 0x49 => .pad '9' none
  | 0x4a => .plain '-'
  | 0x4b => .pad '4' none
  | 0x4c => .plain '5'
  | 0x4d => .pad '6' none
  | 0x4e => .plain '+'
  | 0x4f => .pad '1' none
  | 0x50 => .pad '2' none
  | 0x51 => .pad '3' none
  | 0x52 => .pad '0' none
  | 0x53 => .pad '.' (some '\x7f')
  | 0x56 => .shifting '\\' '|'
  | _ => .silent

/-- The key with a code of the second table. -/
def ofExtendedCode : Nat → Key
  | 0x1c => .plain '\n'
  | 0x35 => .plain '/'
  | 0x53 => .plain '\x7f'
  | _ => .silent

/-- The key with a code of the third table. -/
def ofPauseCode : Nat → Key
  | 0x1d => .pauseControl
  | _ => .silent

end Key

/-- The table that the next scancode is from. -/
inductive ScancodeTable where
  | main
  | extended
  | pause
  deriving DecidableEq, Repr

def ScancodeTable.key : ScancodeTable → Nat → Key
  | .main => Key.ofCode
  | .extended => Key.ofExtendedCode
  | .pause => Key.ofPauseCode

structure KeyboardDecoder where
  table : ScancodeTable := .main
  leftShift : Bool := false
  rightShift : Bool := false
  capsLock : Bool := false
  numLock : Bool := true
  pauseControl : Bool := false
  deriving DecidableEq, Repr

namespace KeyboardDecoder

/-- A shift key is held. -/
def shifted (d : KeyboardDecoder) : Bool := d.leftShift || d.rightShift

/-- The character that a key writes. -/
def character (d : KeyboardDecoder) : Key → Option Char
  | .plain c => some c
  | .shifting c shifted => some (if d.shifted then shifted else c)
  | .letter lower upper => some (if d.shifted != d.capsLock then upper else lower)
  | .pad c off => if d.numLock then some c else off
  | _ => none

def press (d : KeyboardDecoder) (k : Key) : KeyboardDecoder :=
  match k with
  | .leftShift => { d with leftShift := true }
  | .rightShift => { d with rightShift := true }
  | .capsLock => { d with capsLock := !d.capsLock }
  | .numLock => if d.pauseControl then d else { d with numLock := !d.numLock }
  | .pauseControl => { d with pauseControl := true }
  | _ => d

def release (d : KeyboardDecoder) (k : Key) : KeyboardDecoder :=
  match k with
  | .leftShift => { d with leftShift := false }
  | .rightShift => { d with rightShift := false }
  | .pauseControl => { d with pauseControl := false }
  | _ => d

/-- Takes one scancode. Answers with the character that it writes, if it writes one. -/
def feed (d : KeyboardDecoder) (scancode : UInt8) : Option Char × KeyboardDecoder :=
  let code := scancode.toNat
  if d.table = .main ∧ code = 0xe0 then (none, { d with table := .extended })
  else if d.table = .main ∧ code = 0xe1 then (none, { d with table := .pause })
  else
    let d' := { d with table := .main }
    if code < 0x80 then (d.character (d.table.key code), d'.press (d.table.key code))
    else (none, d'.release (d.table.key (code - 0x80)))

/-- The bytes that a character is queued as. -/
def encode (c : Char) : List UInt8 := String.utf8EncodeChar c

/-- Takes one scancode and queues the character that it writes. Answers with the number of bytes
queued. -/
def feedInto {n : Nat} {σ : Type} [Journal σ] (d : KeyboardDecoder) (scancode : UInt8)
    (r : InputRing n) (journal : σ) : Nat × KeyboardDecoder × InputRing n × σ :=
  match d.feed scancode with
  | (none, d) => (0, d, r, journal)
  | (some c, d) =>
    let (count, r) := r.pushAll (encode c)
    (count, d, r, if count < (encode c).length
      then Journal.note (.warn "keyboard: console input full, dropping input") journal
      else journal)

/-- Takes scancodes in order. Answers with the character of each. -/
def feedAll (d : KeyboardDecoder) : List UInt8 → List (Option Char) × KeyboardDecoder
  | [] => ([], d)
  | scancode :: rest =>
    let (c, d) := d.feed scancode
    let (cs, d) := d.feedAll rest
    (c :: cs, d)

/-- Takes scancodes in order and queues their characters. Answers with the number of bytes queued
for each. -/
def feedAllInto {n : Nat} {σ : Type} [Journal σ] (d : KeyboardDecoder)
    (scancodes : List UInt8) (r : InputRing n) (journal : σ) :
    List Nat × KeyboardDecoder × InputRing n × σ :=
  match scancodes with
  | [] => ([], d, r, journal)
  | scancode :: rest =>
    let (count, d, r, journal) := d.feedInto scancode r journal
    let (counts, d, r, journal) := d.feedAllInto rest r journal
    (count :: counts, d, r, journal)

end KeyboardDecoder
end KernelCore
