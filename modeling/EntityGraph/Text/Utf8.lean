/-!
# Bytes read as UTF-8

A source is a sequence of bytes, and a concrete tree speaks of it by byte offsets.

* `decode?` reads bytes as UTF-8, and fails on any sequence that is not well formed;
* `decodeLossy` reads them always: each maximal ill-formed piece gives one replacement character;
* `slice` is the text of a byte range, empty if the range does not hold whole characters.
-/

namespace EntityGraph.Text

def decode? (bytes : ByteArray) : Option String :=
  String.fromUTF8? bytes

/-- The text of the bytes from `start` up to `stop`. -/
def slice (source : ByteArray) (start stop : Nat) : String :=
  if start ≤ stop ∧ stop ≤ source.size then (decode? (source.extract start stop)).getD "" else ""

/-! ## Lossy reading -/

/-- What a lead byte asks for: how many bytes follow it, the range of the first of them, and the
bits that the lead byte adds to the code point. -/
structure Lead where
  following : Nat
  lowest : Nat
  highest : Nat
  bits : Nat

/-- The well-formed lead bytes. The narrower ranges exclude overlong forms, surrogates and code
points above `10FFFF`. -/
def lead? (b : Nat) : Option Lead :=
  if b < 0x80 then some ⟨0, 0, 0, b⟩
  else if b < 0xC2 then none
  else if b < 0xE0 then some ⟨1, 0x80, 0xBF, b - 0xC0⟩
  else if b = 0xE0 then some ⟨2, 0xA0, 0xBF, 0⟩
  else if b = 0xED then some ⟨2, 0x80, 0x9F, 0xD⟩
  else if b < 0xF0 then some ⟨2, 0x80, 0xBF, b - 0xE0⟩
  else if b = 0xF0 then some ⟨3, 0x90, 0xBF, 0⟩
  else if b < 0xF4 then some ⟨3, 0x80, 0xBF, b - 0xF0⟩
  else if b = 0xF4 then some ⟨3, 0x80, 0x8F, 4⟩
  else none

/-- A character being read: its bits so far, how many bytes are missing and the range of the next. -/
structure Pending where
  bits : Nat
  missing : Nat
  lowest : Nat
  highest : Nat

/-- The replacement character. -/
def replacement : Char := '\uFFFD'

/-- Begins a character at `b`: what is complete with `b` alone, and what is pending after it. -/
def begin (b : Nat) : List Char × Option Pending :=
  match lead? b with
  | none => ([replacement], none)
  | some ⟨0, _, _, bits⟩ => ([Char.ofNat bits], none)
  | some ⟨n + 1, lowest, highest, bits⟩ => ([], some ⟨bits, n + 1, lowest, highest⟩)

/-- Reads one byte: the characters it completes, and what is pending after it. A byte that does not
continue the pending character ends that piece, and begins a character of its own. -/
def readByte (pending : Option Pending) (b : Nat) : List Char × Option Pending :=
  match pending with
  | none => begin b
  | some p =>
    if p.lowest ≤ b ∧ b ≤ p.highest then
      let bits := p.bits * 64 + (b - 0x80)
      if p.missing ≤ 1 then ([Char.ofNat bits], none) else ([], some ⟨bits, p.missing - 1, 0x80, 0xBF⟩)
    else
      let (done, next) := begin b
      (replacement :: done, next)

def decodeLossyFrom : Option Pending → List UInt8 → List Char
  | none, [] => []
  | some _, [] => [replacement]
  | pending, b :: rest =>
    let (done, next) := readByte pending b.toNat
    done ++ decodeLossyFrom next rest

/-- The text of the bytes, with one replacement character for each maximal ill-formed piece. -/
def decodeLossy (bytes : List UInt8) : String :=
  String.ofList (decodeLossyFrom none bytes)

end EntityGraph.Text
