import ResourceApi.Json.Basic
import ResourceApi.Text.DecimalDigit
import ResourceApi.Text.Encoding

/-!
Reading JSON text. A later member with the key of an earlier one takes its place; infinities and not-a-number
are read by name; a text is one value with blank space around it.
-/

namespace ResourceApi.Json.Reader

def skipSpace : List Char → List Char
  | c :: rest => if c == ' ' || c == '\n' || c == '\t' || c == '\r' then skipSpace rest else c :: rest
  | [] => []

/-- Removes a literal from the front. -/
def expect : List Char → List Char → Option (List Char)
  | [], cs => some cs
  | l :: ls, c :: cs => if l == c then expect ls cs else none
  | _ :: _, [] => none

def hexValue? (c : Char) : Option Nat :=
  if c.isDigit then Text.asciiDigitValue? c
  else if 'a' ≤ c && c ≤ 'f' then some (c.toNat - 87)
  else if 'A' ≤ c && c ≤ 'F' then some (c.toNat - 55)
  else none

def hex4 : List Char → Option (Nat × List Char)
  | a :: b :: c :: d :: rest => do
    let a ← hexValue? a; let b ← hexValue? b; let c ← hexValue? c; let d ← hexValue? d
    some (((a * 16 + b) * 16 + c) * 16 + d, rest)
  | _ => none

/-- A character from its code point; halves of a pair on their own become the replacement character. -/
def codePoint (n : Nat) : Char := if 0xD800 ≤ n ∧ n < 0xE000 then '\ufffd' else Char.ofNat n

/-- The character after a `u` escape, a second escape being taken as the low half of a pair. -/
def unicodeEscape (cs : List Char) : Option (Char × List Char) := do
  let (high, rest) ← hex4 cs
  if 0xD800 ≤ high ∧ high < 0xDC00 then
    match rest with
    | '\\' :: 'u' :: tail =>
      match hex4 tail with
      | some (low, after) =>
        if 0xDC00 ≤ low ∧ low < 0xE000 then
          some (Char.ofNat (0x10000 + (high - 0xD800) * 0x400 + (low - 0xDC00)), after)
        else some (codePoint high, rest)
      | none => none
    | _ => some (codePoint high, rest)
  else some (codePoint high, rest)

def simpleEscape? : Char → Option Char
  | '"' => some '"' | '\\' => some '\\' | '/' => some '/' | 'b' => some '\x08' | 'f' => some '\x0c'
  | 'n' => some '\n' | 'r' => some '\r' | 't' => some '\t' | _ => none

/-- The rest of a text after its opening quote. -/
def textBody : Nat → List Char → List Char → Option (String × List Char)
  | 0, _, _ => none
  | _ + 1, _, [] => none
  | fuel + 1, done, c :: rest =>
    if c == '"' then some (String.ofList done.reverse, rest)
    else if c == '\\' then
      match rest with
      | 'u' :: tail => match unicodeEscape tail with
        | some (d, after) => textBody fuel (d :: done) after
        | none => none
      | e :: tail => match simpleEscape? e with
        | some d => textBody fuel (d :: done) tail
        | none => none
      | [] => none
    else if c.toNat < 0x20 then none
    else textBody fuel (c :: done) rest

/-- A number: an integer part without leading zeros, then an optional fraction and exponent. -/
def number (cs : List Char) : Option (Json × List Char) :=
  let (negative, cs) : Bool × List Char := match cs with
    | '-' :: rest => (true, rest)
    | _ => (false, cs)
  let (whole, rest) : List Char × List Char := match cs with
    | '0' :: rest => (['0'], rest)
    | _ => Text.spanDigits cs
  if whole.isEmpty then none
  else
    let (fraction, rest) : List Char × List Char := match rest with
      | '.' :: tail => match Text.spanDigits tail with
        | ([], _) => ([], rest)
        | found => found
      | _ => ([], rest)
    let (exponent, rest) : Option Int × List Char :=
      let plain : Option Int × List Char := (none, rest)
      match rest with
      | e :: tail =>
        if e == 'e' || e == 'E' then
          let (sign, digits) : Int × List Char := match tail with
            | '-' :: t => (-1, t)
            | '+' :: t => (1, t)
            | _ => (1, tail)
          match Text.spanDigits digits with
          | ([], _) => plain
          | (ds, after) => (some (sign * Text.digitsValue ds), after)
        else plain
      | [] => plain
    if fraction.isEmpty && exponent.isNone then
      let n : Int := Text.digitsValue whole
      some (.int (if negative then -n else n), rest)
    else
      let power := exponent.getD 0 - fraction.length
      some (.double (Double.ofDecimal negative (Text.digitsValue (whole ++ fraction)) power), rest)

mutual
def value : Nat → List Char → Option (Json × List Char)
  | 0, _ => none
  | fuel + 1, cs =>
    match cs with
    | '"' :: rest => (textBody (rest.length + 1) [] rest).map fun (s, after) => (.text s, after)
    | '[' :: rest =>
      match skipSpace rest with
      | ']' :: after => some (.list [], after)
      | _ => items fuel [] rest
    | '\x7b' :: rest =>
      match skipSpace rest with
      | '\x7d' :: after => some (.object [], after)
      | _ => members fuel [] rest
    | 't' :: _ => (expect "true".toList cs).map (Json.bool true, ·)
    | 'f' :: _ => (expect "false".toList cs).map (Json.bool false, ·)
    | 'n' :: _ => (expect "null".toList cs).map (Json.null, ·)
    | 'N' :: _ => (expect "NaN".toList cs).map (Json.double .notANumber, ·)
    | 'I' :: _ => (expect "Infinity".toList cs).map (Json.double (.infinite false), ·)
    | '-' :: 'I' :: rest => (expect "nfinity".toList rest).map (Json.double (.infinite true), ·)
    | _ => number cs

/-- The items of a list, from the first one on. -/
def items : Nat → List Json → List Char → Option (Json × List Char)
  | 0, _, _ => none
  | fuel + 1, done, cs => do
    let (j, rest) ← value fuel (skipSpace cs)
    match skipSpace rest with
    | ',' :: after => items fuel (j :: done) after
    | ']' :: after => some (.list (j :: done).reverse, after)
    | _ => none

/-- The members of an object, from the first one on. -/
def members : Nat → Members → List Char → Option (Json × List Char)
  | 0, _, _ => none
  | fuel + 1, done, cs =>
    match skipSpace cs with
    | '"' :: rest => do
      let (key, rest) ← textBody (rest.length + 1) [] rest
      match skipSpace rest with
      | ':' :: rest =>
        let (j, rest) ← value fuel (skipSpace rest)
        let done := Members.put key j done
        match skipSpace rest with
        | ',' :: after => members fuel done after
        | '\x7d' :: after => some (.object done, after)
        | _ => none
      | _ => none
    | _ => none
end

end Reader

/-- The value a text stands for, if it is JSON. -/
def read (s : String) : Option Json :=
  let cs := s.toList
  match Reader.value (2 * cs.length + 2) (Reader.skipSpace cs) with
  | some (j, rest) => if (Reader.skipSpace rest).isEmpty then some j else none
  | none => none

/-- The value of a body of bytes: a text in any encoding, with or without a byte order mark. -/
def readBytes (bytes : ByteArray) : Option Json := (Text.Encoding.decode? bytes).bind read

end ResourceApi.Json
