import Mathlib.Data.String.Basic
import AetherForge.Library.GoJson

/-!
# The text of a JSON value

The syntax that `encoding/json` accepts, on bytes: a grammar that says which texts spell a value,
and the reader.  Values nest to a bounded depth, which is what the reader recurses on.  A string's
bytes are scanned first and unquoted then; bytes that are not UTF-8 become U+FFFD.

* `Spells` — the texts of a value;
* `readValue` — the reader of a value;
* `parseText` — the value of a whole text, and `parseFirst` the value that a text begins with.
-/

namespace GoJson

abbrev Bytes := List UInt8

/-- A part of a text, read off its front. -/
abbrev Reader (α : Type) := Bytes → Option (α × Bytes)

/-! ### Bytes -/

def quotationMark : UInt8 := 0x22
def plusSign : UInt8 := 0x2b
def comma : UInt8 := 0x2c
def minusSign : UInt8 := 0x2d
def fullStop : UInt8 := 0x2e
def zeroDigit : UInt8 := 0x30
def colon : UInt8 := 0x3a
def openBracket : UInt8 := 0x5b
def backslash : UInt8 := 0x5c
def closeBracket : UInt8 := 0x5d
def openBrace : UInt8 := 0x7b
def closeBrace : UInt8 := 0x7d

/-- The bytes of ASCII characters. -/
def ascii (s : String) : Bytes := s.toList.map fun c => c.toNat.toUInt8

def isSpace (b : UInt8) : Bool := b = 0x20 || b = 0x09 || b = 0x0a || b = 0x0d

def isDigit (b : UInt8) : Bool := 0x30 ≤ b && b ≤ 0x39

def isHexDigit (b : UInt8) : Bool :=
  isDigit b || (0x61 ≤ b && b ≤ 0x66) || (0x41 ≤ b && b ≤ 0x46)

def skipSpace : Bytes → Bytes := List.dropWhile isSpace

/-- A run of spaces. -/
def Spaces (u : Bytes) : Prop := ∀ b ∈ u, isSpace b = true

instance (u : Bytes) : Decidable (Spaces u) := inferInstanceAs (Decidable (∀ b ∈ u, _))

/-! ### Numbers -/

/-- A number literal: its sign, the digits before and after the point, and the exponent with its
mark. -/
structure Numeral where
  negative : Bool
  whole : Bytes
  fraction : Bytes
  exponent : Option (Bytes × Bytes)

/-- The number that digits write. -/
def natOf (ds : Bytes) : ℕ := ds.foldl (fun n b => 10 * n + (b.toNat - 48)) 0

/-- The marks of an exponent. -/
def exponentMarks : List Bytes :=
  [ascii "e", ascii "E", ascii "e+", ascii "E+", ascii "e-", ascii "E-"]

/-- The text of an exponent. -/
def markedDigits : Option (Bytes × Bytes) → Bytes
  | none => []
  | some (mark, ds) => mark ++ ds

namespace Numeral

def signText (x : Numeral) : Bytes := if x.negative then [minusSign] else []

def fractionText (x : Numeral) : Bytes := if x.fraction = [] then [] else fullStop :: x.fraction

def exponentText (x : Numeral) : Bytes := markedDigits x.exponent

def text (x : Numeral) : Bytes := x.signText ++ x.whole ++ x.fractionText ++ x.exponentText

/-- No leading zero, and digits where there must be some. -/
structure Wf (x : Numeral) : Prop where
  whole : x.whole = [zeroDigit] ∨ (x.whole ≠ [] ∧ x.whole.head? ≠ some zeroDigit)
  whole_digits : ∀ b ∈ x.whole, isDigit b = true
  fraction : ∀ b ∈ x.fraction, isDigit b = true
  exponent : ∀ mark ds, x.exponent = some (mark, ds) →
    mark ∈ exponentMarks ∧ ds ≠ [] ∧ ∀ b ∈ ds, isDigit b = true

/-- The signed number that an exponent writes. -/
def scale (x : Numeral) : ℤ :=
  match x.exponent with
  | none => 0
  | some (mark, ds) => if minusSign ∈ mark then -natOf ds else natOf ds

def mantissa (x : Numeral) : ℤ :=
  if x.negative then -natOf (x.whole ++ x.fraction) else natOf (x.whole ++ x.fraction)

/-- An integer literal, or the exact value of another. -/
def value (x : Numeral) : Json :=
  if x.fraction = [] ∧ x.exponent = none then .int x.mantissa
  else .dec (x.mantissa * (10 : ℚ) ^ (x.scale - x.fraction.length))

end Numeral

def readSign (bs : Bytes) : Bool × Bytes :=
  match bs with
  | b :: rest => if b = minusSign then (true, rest) else (false, bs)
  | [] => (false, [])

/-- The digits at the front, of which there must be one. -/
def readDigits : Reader Bytes := fun bs =>
  if bs.takeWhile isDigit = [] then none
  else some (bs.takeWhile isDigit, bs.dropWhile isDigit)

def readWhole : Reader Bytes := fun bs =>
  if bs.head? = some zeroDigit then some ([zeroDigit], bs.tail) else readDigits bs

def readFraction : Reader Bytes := fun bs =>
  if bs.head? = some fullStop then readDigits bs.tail else some ([], bs)

/-- The mark of an exponent, if there is one. -/
def readMark (bs : Bytes) : Option (Bytes × Bytes) :=
  match bs with
  | [] => none
  | e :: rest =>
    if e = 0x65 ∨ e = 0x45 then
      match rest with
      | [] => some ([e], [])
      | s :: rest' =>
        if s = plusSign ∨ s = minusSign then some ([e, s], rest') else some ([e], rest)
    else none

def readExponent : Reader (Option (Bytes × Bytes)) := fun bs =>
  match readMark bs with
  | none => some (none, bs)
  | some (mark, rest) => (readDigits rest).map fun p => (some (mark, p.1), p.2)

def readNumeral : Reader Numeral := fun bs => do
  let (negative, bs) := readSign bs
  let (whole, bs) ← readWhole bs
  let (fraction, bs) ← readFraction bs
  let (exponent, bs) ← readExponent bs
  return (⟨negative, whole, fraction, exponent⟩, bs)

/-! ### Strings -/

/-- The bytes that may follow a backslash, other than `u`. -/
def escapes : Bytes := ascii "\"\\/bfnrt"

/-- What stands between the quotation marks. -/
inductive StringBody : Bytes → Prop
  | nil : StringBody []
  | plain {b : UInt8} {rest : Bytes} : b ≠ quotationMark → b ≠ backslash → 0x20 ≤ b →
      StringBody rest → StringBody (b :: rest)
  | escape {c : UInt8} {rest : Bytes} : c ∈ escapes → StringBody rest →
      StringBody (backslash :: c :: rest)
  | unicode {ds rest : Bytes} : ds.length = 4 → (∀ b ∈ ds, isHexDigit b = true) →
      StringBody rest → StringBody (backslash :: 0x75 :: ds ++ rest)

/-- Scan a string up to its closing quotation mark. -/
def scanString : Reader Bytes
  | [] => none
  | b :: rest =>
    if b = quotationMark then some ([], rest)
    else if b = backslash then
      match rest with
      | [] => none
      | c :: rest =>
        if c ∈ escapes then (scanString rest).map fun p => (backslash :: c :: p.1, p.2)
        else if c = 0x75 then
          match rest with
          | h₁ :: h₂ :: h₃ :: h₄ :: rest =>
            if isHexDigit h₁ ∧ isHexDigit h₂ ∧ isHexDigit h₃ ∧ isHexDigit h₄ then
              (scanString rest).map fun p => (backslash :: 0x75 :: h₁ :: h₂ :: h₃ :: h₄ :: p.1, p.2)
            else none
          | _ => none
        else none
    else if b < 0x20 then none
    else (scanString rest).map fun p => (b :: p.1, p.2)

def hexValue (b : UInt8) : ℕ :=
  if isDigit b then b.toNat - 0x30 else if 0x61 ≤ b then b.toNat - 0x57 else b.toNat - 0x37

/-- The number that hexadecimal digits write. -/
def hexOf (ds : Bytes) : ℕ := ds.foldl (fun n b => 16 * n + hexValue b) 0

/-- `unicode.ReplacementChar`. -/
def replacementChar : Char := '\ufffd'

/-- `utf8.DecodeRune`. -/
def decodeRune (bs : Bytes) : Char × Bytes :=
  match bs.toByteArray.utf8DecodeChar? 0 with
  | some c => (c, bs.drop c.utf8Size)
  | none => (replacementChar, bs.tail)

/-- What `\u` and the following digits mean, where a pair of surrogates is one character. -/
def unquoteUnicode (bs : Bytes) : Char × Bytes :=
  let r := hexOf (bs.take 4)
  let rest := bs.drop 4
  if 0xd800 ≤ r ∧ r < 0xe000 then
    let r₁ := hexOf ((rest.drop 2).take 4)
    if r < 0xdc00 ∧ rest.take 2 = ascii "\\u" ∧ 0xdc00 ≤ r₁ ∧ r₁ < 0xe000 then
      (Char.ofNat ((r - 0xd800) * 0x400 + (r₁ - 0xdc00) + 0x10000), rest.drop 6)
    else (replacementChar, rest)
  else (Char.ofNat r, rest)

/-- The character that an escape other than `\u` means. -/
def unescape (c : UInt8) : Char :=
  if c = 0x62 then '\x08'
  else if c = 0x66 then '\x0c'
  else if c = 0x6e then '\n'
  else if c = 0x72 then '\r'
  else if c = 0x74 then '\t'
  else Char.ofNat c.toNat

/-- The first character of a string's body, and what is left of it. -/
def unquoteChar (bs : Bytes) : Char × Bytes :=
  if bs.head? = some backslash then
    if bs.tail.head? = some 0x75 then unquoteUnicode (bs.drop 2)
    else (unescape (bs.tail.headD 0), bs.drop 2)
  else decodeRune bs

def unquoteChars : ℕ → Bytes → List Char
  | 0, _ => []
  | _ + 1, [] => []
  | n + 1, b :: bs => (unquoteChar (b :: bs)).1 :: unquoteChars n (unquoteChar (b :: bs)).2

/-- The string that a body writes. -/
def unquote (body : Bytes) : String := String.ofList (unquoteChars body.length body)

def readString : Reader String := fun bs =>
  if bs.head? = some quotationMark then (scanString bs.tail).map fun p => (unquote p.1, p.2)
  else none

/-- The texts of a string. -/
def SpellsString (s : String) (t : Bytes) : Prop :=
  ∃ body, StringBody body ∧ s = unquote body ∧ t = quotationMark :: (body ++ [quotationMark])

/-! ### Values -/

section Lists

variable {α : Type}

/-- One or more items, with commas between them and spaces around them. -/
inductive Items (R : α → Bytes → Prop) : List α → Bytes → Prop
  | last {a : α} {u t w : Bytes} : Spaces u → R a t → Spaces w → Items R [a] (u ++ t ++ w)
  | cons {a : α} {u t w rest : Bytes} {as : List α} : Spaces u → R a t → Spaces w →
      Items R as rest → Items R (a :: as) (u ++ t ++ w ++ comma :: rest)

/-- What stands between a pair of brackets. -/
inductive Listed (R : α → Bytes → Prop) : List α → Bytes → Prop
  | none {u : Bytes} : Spaces u → Listed R [] u
  | some {as : List α} {body : Bytes} : Items R as body → Listed R as body

/-- One or more items up to a closing bracket; at most as many as the first argument says. -/
def readItems (item : Reader α) (close : UInt8) : ℕ → Reader (List α)
  | 0, _ => none
  | n + 1, bs => do
    let (a, rest) ← item (skipSpace bs)
    match skipSpace rest with
    | [] => none
    | c :: rest =>
      if c = comma then (readItems item close n rest).map fun p => (a :: p.1, p.2)
      else if c = close then some ([a], rest)
      else none

/-- Items up to a closing bracket. -/
def readListed (item : Reader α) (close : UInt8) : Reader (List α) := fun bs =>
  if (skipSpace bs).head? = some close then some ([], (skipSpace bs).tail)
  else readItems item close bs.length bs

end Lists

/-- A member of an object. -/
def readMember (value : Reader Json) : Reader (String × Json) := fun bs => do
  let (k, rest) ← readString bs
  if (skipSpace rest).head? = some colon then
    (value (skipSpace (skipSpace rest).tail)).map fun p => ((k, p.1), p.2)
  else none

/-- The texts of a member. -/
def SpellsMember (R : Json → Bytes → Prop) (m : String × Json) (t : Bytes) : Prop :=
  ∃ k u w v, SpellsString m.1 k ∧ Spaces u ∧ Spaces w ∧ R m.2 v ∧ t = k ++ u ++ colon :: (w ++ v)

/-- The words that are values. -/
def readWord (bs : Bytes) : Option (Json × Bytes) :=
  if ascii "null" <+: bs then some (.null, bs.drop 4)
  else if ascii "true" <+: bs then some (.bool true, bs.drop 4)
  else if ascii "false" <+: bs then some (.bool false, bs.drop 5)
  else none

/-- A value without parts. -/
def readScalar : Reader Json := fun bs =>
  if bs.head? = some quotationMark then (readString bs).map fun p => (.str p.1, p.2)
  else match readWord bs with
    | some p => some p
    | none => (readNumeral bs).map fun p => (p.1.value, p.2)

/-- The texts of a value without parts. -/
inductive SpellsScalar : Json → Bytes → Prop
  | null : SpellsScalar .null (ascii "null")
  | true : SpellsScalar (.bool true) (ascii "true")
  | false : SpellsScalar (.bool false) (ascii "false")
  | str {s : String} {t : Bytes} : SpellsString s t → SpellsScalar (.str s) t
  | number {x : Numeral} : x.Wf → SpellsScalar x.value x.text

/-- A value, its parts nested to a depth. -/
def readValue : ℕ → Reader Json
  | 0, bs => readScalar bs
  | d + 1, bs =>
    if bs.head? = some openBracket then
      (readListed (readValue d) closeBracket bs.tail).map fun p => (.arr p.1, p.2)
    else if bs.head? = some openBrace then
      (readListed (readMember (readValue d)) closeBrace bs.tail).map fun p => (.obj p.1, p.2)
    else readScalar bs

/-- **The texts of a value**, its parts nested to a depth. -/
def Spells : ℕ → Json → Bytes → Prop
  | 0, v, t => SpellsScalar v t
  | d + 1, v, t => SpellsScalar v t ∨
      (∃ vs body, v = .arr vs ∧ Listed (Spells d) vs body ∧
        t = openBracket :: (body ++ [closeBracket])) ∨
      ∃ members body, v = .obj members ∧ Listed (SpellsMember (Spells d)) members body ∧
        t = openBrace :: (body ++ [closeBrace])

/-- `maxNestingDepth`. -/
def maxNestingDepth : ℕ := 10000

/-- The first value of a text: what a `json.Decoder` takes from it. -/
def parseFirst (data : Bytes) : Option (Json × Bytes) := readValue maxNestingDepth (skipSpace data)

/-- The value that a whole text is: what `json.Unmarshal` takes it for. -/
def parseText (data : Bytes) : Option Json :=
  match parseFirst data with
  | some (v, rest) => if skipSpace rest = [] then some v else none
  | none => none

end GoJson
