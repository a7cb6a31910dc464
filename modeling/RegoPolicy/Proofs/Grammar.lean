import RegoPolicy.Json.Scan

/-!
The grammar of JSON texts, over the symbols of a text and apart from any scanner. A string may hold
every symbol that is no control character, and what its escapes stand for is left open. Nesting
has no limit.
-/
namespace RegoPolicy.Json

open Text

def Blank (input : List Symbol) : Prop := ∀ s ∈ input, isSpace s = true

inductive Escape : List Symbol → Prop where
  | letter (c : Char) (known : (simpleEscape? c).isSome = true) : Escape [.char c]
  | code (digits : List Symbol) (four : digits.length = 4)
      (hex : ∀ s ∈ digits, (hexDigit? s).isSome = true) : Escape (.char 'u' :: digits)

inductive Content : List Symbol → Prop where
  | nil : Content []
  | plain {s : Symbol} {rest : List Symbol} (inside : s ≠ .char '"') (bare : s ≠ .char '\\')
      (printable : isControl s = false) (tail : Content rest) : Content (s :: rest)
  | escaped {e rest : List Symbol} (escape : Escape e) (tail : Content rest) :
      Content (.char '\\' :: (e ++ rest))

def Digits (ds : List Symbol) : Prop := ds ≠ [] ∧ ∀ s ∈ ds, (digit? s).isSome = true

/-- Whole digits start with a zero only if they are that zero. -/
inductive Whole : List Symbol → Prop where
  | zero (s : Symbol) (value : digit? s = some 0) : Whole [s]
  | digits (s : Symbol) (rest : List Symbol) (d : Nat) (value : digit? s = some d)
      (positive : d ≠ 0) (more : ∀ t ∈ rest, (digit? t).isSome = true) : Whole (s :: rest)

inductive Fraction : List Symbol → Prop where
  | none : Fraction []
  | some {ds : List Symbol} (digits : Digits ds) : Fraction (.char '.' :: ds)

inductive Sign : List Symbol → Prop where
  | none : Sign []
  | plus : Sign [.char '+']
  | minus : Sign [.char '-']

inductive Exponent : List Symbol → Prop where
  | none : Exponent []
  | some {s : Symbol} {sign ds : List Symbol} (mark : s = .char 'e' ∨ s = .char 'E')
      (signed : Sign sign) (digits : Digits ds) : Exponent (s :: (sign ++ ds))

inductive Unsigned : List Symbol → Prop where
  | parts {w f e : List Symbol} (whole : Whole w) (fraction : Fraction f) (exponent : Exponent e) :
      Unsigned (w ++ (f ++ e))

inductive Scalar : List Symbol → Prop where
  | null : Scalar (ofString "null")
  | true : Scalar (ofString "true")
  | false : Scalar (ofString "false")
  | string {c : List Symbol} (content : Content c) : Scalar (.char '"' :: (c ++ [.char '"']))
  | positive {n : List Symbol} (number : Unsigned n) : Scalar n
  | negative {n : List Symbol} (number : Unsigned n) : Scalar (.char '-' :: n)

def Bracket.opening : Bracket → Symbol
  | .list => .char '['
  | .object => .char '{'

/-- The parts of a text: a value, an entry of a list or an object with the space in front of it,
    and what may follow an entry up to the closing bracket. -/
inductive Part where
  | value
  | entry (b : Bracket)
  | more (b : Bracket)
  deriving DecidableEq

inductive Derives : Part → List Symbol → Prop where
  | scalar {v : List Symbol} (scalar : Scalar v) : Derives .value v
  | empty (b : Bracket) {space : List Symbol} (blank : Blank space) :
      Derives .value (b.opening :: (space ++ [b.closing]))
  | filled (b : Bracket) {e m : List Symbol} (first : Derives (.entry b) e)
      (rest : Derives (.more b) m) : Derives .value (b.opening :: (e ++ (m ++ [b.closing])))
  | item {space v : List Symbol} (blank : Blank space) (value : Derives .value v) :
      Derives (.entry .list) (space ++ v)
  | member {space c gap e : List Symbol} (blank : Blank space) (name : Content c)
      (apart : Blank gap) (value : Derives (.entry .list) e) :
      Derives (.entry .object) (space ++ .char '"' :: (c ++ .char '"' :: (gap ++ .char ':' :: e)))
  | last (b : Bracket) {space : List Symbol} (blank : Blank space) : Derives (.more b) space
  | next (b : Bracket) {space e m : List Symbol} (blank : Blank space)
      (entry : Derives (.entry b) e) (rest : Derives (.more b) m) :
      Derives (.more b) (space ++ .char ',' :: (e ++ m))

def IsText (input : List Symbol) : Prop :=
  ∃ e space, Derives (.entry .list) e ∧ Blank space ∧ input = e ++ space

end RegoPolicy.Json
