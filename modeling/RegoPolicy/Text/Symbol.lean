/-!
A text arrives as bytes. Reading goes symbol by symbol, where a symbol is a character or a
byte that is part of no character. Places in a text are counted in bytes.
-/
namespace RegoPolicy.Text

inductive Symbol where
  | char (c : Char)
  | stray (byte : UInt8)
  deriving DecidableEq

def Symbol.width : Symbol → Nat
  | .char c => c.utf8Size
  | .stray _ => 1

def Symbol.char? : Symbol → Option Char
  | .char c => some c
  | .stray _ => none

def width (input : List Symbol) : Nat :=
  input.foldl (fun total s => total + s.width) 0

def ofString (s : String) : List Symbol := s.toList.map .char

def toString? (input : List Symbol) : Option String :=
  (input.mapM Symbol.char?).map String.ofList

def encode (s : String) : List UInt8 := s.toList.flatMap String.utf8EncodeChar

/-- A scalar value that is not less than `least`, the smallest one its form may hold. -/
def scalar? (least n : Nat) : Option Char :=
  if least ≤ n ∧ n.isValidChar then some (Char.ofNat n) else none

def continuation? (b : UInt8) : Option Nat :=
  if 0x80 ≤ b.toNat ∧ b.toNat < 0xC0 then some (b.toNat - 0x80) else none

def leading? : List UInt8 → Option Char
  | [] => none
  | a :: rest =>
    let lead := a.toNat
    if lead < 0x80 then scalar? 0 lead
    else if lead < 0xC0 then none
    else if lead < 0xE0 then
      match rest with
      | b :: _ => do
        let x ← continuation? b
        scalar? 0x80 ((lead - 0xC0) * 64 + x)
      | _ => none
    else if lead < 0xF0 then
      match rest with
      | b :: c :: _ => do
        let x ← continuation? b
        let y ← continuation? c
        scalar? 0x800 (((lead - 0xE0) * 64 + x) * 64 + y)
      | _ => none
    else if lead < 0xF8 then
      match rest with
      | b :: c :: d :: _ => do
        let x ← continuation? b
        let y ← continuation? c
        let z ← continuation? d
        scalar? 0x10000 ((((lead - 0xF0) * 64 + x) * 64 + y) * 64 + z)
      | _ => none
    else none

/-- Reads bytes onto the symbols already found, which stand in reverse. The first `skip` bytes
    belong to the symbol found last. -/
def decodeOnto : List Symbol → Nat → List UInt8 → List Symbol
  | found, _, [] => found.reverse
  | found, skip + 1, _ :: rest => decodeOnto found skip rest
  | found, 0, b :: rest =>
    match leading? (b :: rest) with
    | some c => decodeOnto (.char c :: found) (c.utf8Size - 1) rest
    | none => decodeOnto (.stray b :: found) 0 rest

def decode (bytes : List UInt8) : List Symbol := decodeOnto [] 0 bytes

/-- Lines count from one, columns count the bytes since the last line feed. -/
structure Position where
  line : Nat
  column : Nat
  deriving DecidableEq

def Position.advance : List Symbol → Nat → Position → Position
  | [], _, p => p
  | s :: rest, offset, p =>
    if offset < s.width then ⟨p.line, p.column + offset⟩
    else if s = .char '\n' then advance rest (offset - 1) ⟨p.line + 1, 0⟩
    else advance rest (offset - s.width) ⟨p.line, p.column + s.width⟩

def Position.after (input : List Symbol) (offset : Nat) : Position :=
  Position.advance input offset ⟨1, 0⟩

end RegoPolicy.Text
