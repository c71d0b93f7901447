import FloorControl.DoubleRange
import FloorControl.Json

/-!
# JSON as it is written

Reading a text goes in two steps. `JsonText.parse?` follows the grammar and nothing else: strict
JSON, nested as deep as the text is long, with strings and numbers kept as they are written. The
second step gives the text a value. `value?` does so for a whole text, which then must not be nested
too deep, nor hold half a surrogate pair or a number beyond the range of double precision; `kept?`
does so for the fields of a record that are wanted, and does not look at the others.
-/

namespace FloorControl

/-- A piece of a string as it is written: a character, or a UTF-16 unit given by its number. -/
inductive StringPiece where
  | char (c : Char)
  | unit (code : Nat)
  deriving DecidableEq, Repr

/-- A number as it is written: its digits before and after the point and its exponent. -/
structure NumberText where
  negative : Bool
  whole : List Nat
  /-- No digits if there is no point. -/
  fraction : List Nat
  exponent : Option Int
  deriving DecidableEq, Repr

inductive JsonText where
  | null
  | bool (value : Bool)
  | number (text : NumberText)
  | string (pieces : List StringPiece)
  | array (items : List JsonText)
  | object (members : List (List StringPiece × JsonText))

namespace JsonText

/-- Takes something off the front of a text, and gives it with the rest. -/
abbrev Reader (α : Type) := List Char → Option (α × List Char)

def isBlank (c : Char) : Bool := c = ' ' || c = '\t' || c = '\n' || c = '\r'

def skipBlanks (cs : List Char) : List Char := cs.dropWhile isBlank

def digitValue (c : Char) : Nat := c.toNat - '0'.toNat

def readDigits (cs : List Char) : List Nat × List Char :=
  ((cs.takeWhile Char.isDigit).map digitValue, cs.dropWhile Char.isDigit)

def readDigits1 : Reader (List Nat) := fun cs =>
  match readDigits cs with
  | ([], _) => none
  | answer => some answer

def ofDigits (digits : List Nat) : Nat := digits.foldl (fun n d => n * 10 + d) 0

/-- The digits before the point: a zero alone, or digits that do not begin with a zero. -/
def readWhole : Reader (List Nat)
  | '0' :: cs => some ([0], cs)
  | cs => readDigits1 cs

def readFraction : Reader (List Nat)
  | '.' :: cs => readDigits1 cs
  | cs => some ([], cs)

def readSignedExponent : Reader Int
  | '-' :: cs => (readDigits1 cs).map fun (digits, cs) => (-(ofDigits digits : Int), cs)
  | '+' :: cs => (readDigits1 cs).map fun (digits, cs) => ((ofDigits digits : Int), cs)
  | cs => (readDigits1 cs).map fun (digits, cs) => ((ofDigits digits : Int), cs)

def readExponent : Reader (Option Int)
  | 'e' :: cs => (readSignedExponent cs).map fun (e, cs) => (some e, cs)
  | 'E' :: cs => (readSignedExponent cs).map fun (e, cs) => (some e, cs)
  | cs => some (none, cs)

def readUnsigned (negative : Bool) : Reader NumberText := fun cs => do
  let (whole, cs) ← readWhole cs
  let (fraction, cs) ← readFraction cs
  let (exponent, cs) ← readExponent cs
  return (⟨negative, whole, fraction, exponent⟩, cs)

def readNumber : Reader NumberText
  | '-' :: cs => readUnsigned true cs
  | cs => readUnsigned false cs

def hexValue? (c : Char) : Option Nat :=
  if c.isDigit then some (digitValue c)
  else if 'a' ≤ c ∧ c ≤ 'f' then some (c.toNat - 'a'.toNat + 10)
  else if 'A' ≤ c ∧ c ≤ 'F' then some (c.toNat - 'A'.toNat + 10)
  else none

def hex4? (a b c d : Char) : Option Nat := do
  return (((← hexValue? a) * 16 + (← hexValue? b)) * 16 + (← hexValue? c)) * 16 + (← hexValue? d)

/-- The character that a letter behind a backslash stands for. -/
def escaped? : Char → Option Char
  | '"' => some '"'
  | '\\' => some '\\'
  | '/' => some '/'
  | 'b' => some '\x08'
  | 'f' => some '\x0c'
  | 'n' => some '\n'
  | 'r' => some '\r'
  | 't' => some '\t'
  | _ => none

/-- A string behind its opening quote, up to the closing one. Control characters must be
escaped. -/
def readString : Reader (List StringPiece)
  | [] => none
  | '"' :: cs => some ([], cs)
  | '\\' :: 'u' :: a :: b :: c :: d :: cs => do
    let code ← hex4? a b c d
    let (pieces, cs) ← readString cs
    return (.unit code :: pieces, cs)
  | '\\' :: e :: cs => do
    let c ← escaped? e
    let (pieces, cs) ← readString cs
    return (.char c :: pieces, cs)
  | c :: cs =>
    if c.toNat < 32 ∨ c = '\\' then none
    else do
      let (pieces, cs) ← readString cs
      return (.char c :: pieces, cs)

/-- Items with commas between them, at least one and at most the given number, up to the closing
bracket. -/
def readItems {α : Type} (item : Reader α) (close : Char) : (most : Nat) → Reader (List α)
  | 0, _ => none
  | most + 1, cs => do
    let (first, cs) ← item cs
    match skipBlanks cs with
    | [] => none
    | c :: cs =>
      if c = close then return ([first], cs)
      else if c = ',' then do
        let (rest, cs) ← readItems item close most cs
        return (first :: rest, cs)
      else none

def readSequence {α : Type} (item : Reader α) (close : Char) : Reader (List α) := fun cs =>
  match skipBlanks cs with
  | [] => none
  | c :: rest => if c = close then some ([], rest) else readItems item close cs.length cs

def readMember (value : Reader JsonText) : Reader (List StringPiece × JsonText) := fun cs =>
  match skipBlanks cs with
  | '"' :: cs => do
    let (name, cs) ← readString cs
    match skipBlanks cs with
    | ':' :: cs => do
      let (v, cs) ← value cs
      return ((name, v), cs)
    | _ => none
  | _ => none

/-- A value, with blanks before it, nested less deep than the given number. -/
def readValue : (depth : Nat) → Reader JsonText
  | 0, _ => none
  | depth + 1, cs =>
    match skipBlanks cs with
    | 'n' :: 'u' :: 'l' :: 'l' :: cs => some (.null, cs)
    | 't' :: 'r' :: 'u' :: 'e' :: cs => some (.bool true, cs)
    | 'f' :: 'a' :: 'l' :: 's' :: 'e' :: cs => some (.bool false, cs)
    | '"' :: cs => (readString cs).map fun (pieces, cs) => (.string pieces, cs)
    | '[' :: cs => (readSequence (readValue depth) ']' cs).map fun (items, cs) => (.array items, cs)
    | '{' :: cs =>
      (readSequence (readMember (readValue depth)) '}' cs).map fun (members, cs) =>
        (.object members, cs)
    | cs => (readNumber cs).map fun (n, cs) => (.number n, cs)

def parse? (text : String) : Option JsonText :=
  let cs := text.toList
  match readValue (cs.length + 1) cs with
  | some (v, rest) => if (skipBlanks rest).isEmpty then some v else none
  | none => none

end JsonText

def NumberText.value? (n : NumberText) : Option JsonNumber :=
  let magnitude := JsonText.ofDigits n.whole
  let decimal :=
    if DoubleRange.holdsDecimal n.whole n.fraction (n.exponent.getD 0) then
      some (JsonNumber.decimal n.negative (JsonText.ofDigits (n.whole ++ n.fraction))
        (n.exponent.getD 0 - n.fraction.length))
    else none
  if n.fraction.isEmpty && n.exponent.isNone then
    if !n.negative && magnitude < UInt64.size then some (.whole magnitude)
    else if n.negative && 0 < magnitude && magnitude ≤ Nat.pow 2 63 then some (.whole (-magnitude))
    else decimal
  else decimal

namespace JsonText

/-- The text of a string, if every surrogate in it is one of a pair. -/
def joinPieces? : List StringPiece → Option (List Char)
  | [] => some []
  | .char c :: rest => (joinPieces? rest).map (c :: ·)
  | .unit high :: .unit low :: rest =>
    if 0xD800 ≤ high ∧ high < 0xDC00 then
      if 0xDC00 ≤ low ∧ low < 0xE000 then
        (joinPieces? rest).map
          (Char.ofNat (0x10000 + (high - 0xD800) * 0x400 + (low - 0xDC00)) :: ·)
      else none
    else if 0xDC00 ≤ high ∧ high < 0xE000 then none
    else (joinPieces? (.unit low :: rest)).map (Char.ofNat high :: ·)
  | .unit code :: rest =>
    if 0xD800 ≤ code ∧ code < 0xE000 then none
    else (joinPieces? rest).map (Char.ofNat code :: ·)

def string? (pieces : List StringPiece) : Option String := (joinPieces? pieces).map String.ofList

mutual

/-- The value of a text that is nested at most `depth` deep. Of members of one name the last one
counts. -/
def value? : JsonText → (depth : Nat) → Option Json
  | .null, _ => some .null
  | .bool b, _ => some (.bool b)
  | .number n, _ => n.value?.map .number
  | .string pieces, _ => (string? pieces).map .string
  | .array _, 0 => none
  | .array items, depth + 1 => (valueItems? items depth).map .array
  | .object _, 0 => none
  | .object members, depth + 1 =>
    (valueMembers? members depth).map fun members =>
      .object (members.foldl (fun kept m => Json.setMember m.1 m.2 kept) [])

def valueItems? : List JsonText → (depth : Nat) → Option (List Json)
  | [], _ => some []
  | item :: rest, depth => do
    let item ← value? item depth
    let rest ← valueItems? rest depth
    return item :: rest

def valueMembers? : List (List StringPiece × JsonText) → (depth : Nat) →
    Option (List (String × Json))
  | [], _ => some []
  | (name, value) :: rest, depth => do
    let name ← string? name
    let value ← value? value depth
    let rest ← valueMembers? rest depth
    return (name, value) :: rest

end

end JsonText

/-- What is wanted of a text: all of it, or the fields of a record. -/
inductive Shape where
  | any
  | record (fields : List (String × Shape))

namespace JsonText

mutual

/-- The value of what is wanted of a text. A record is an object, in which a field may be given only
once and other members are not looked at, or an array of its first fields. -/
def kept? : JsonText → Shape → (depth : Nat) → Option Json
  | t, .any, depth => value? t depth
  | .object members, .record fields, depth + 1 => (keptMembers? members fields depth).map .object
  | .array items, .record fields, depth + 1 => (keptItems? items fields depth).map .array
  | _, .record _, _ => none

def keptItems? : List JsonText → List (String × Shape) → (depth : Nat) → Option (List Json)
  | [], _, _ => some []
  | _ :: _, [], _ => none
  | item :: rest, (_, shape) :: fields, depth => do
    let item ← kept? item shape depth
    let rest ← keptItems? rest fields depth
    return item :: rest

def keptMembers? : List (List StringPiece × JsonText) → List (String × Shape) → (depth : Nat) →
    Option (List (String × Json))
  | [], _, _ => some []
  | (name, value) :: rest, fields, depth => do
    let name ← string? name
    let others ← keptMembers? rest fields depth
    match fields.lookup name with
    | none => return others
    | some shape => do
      let value ← kept? value shape depth
      if (Json.member? name others).isSome then none else return (name, value) :: others

end

def depthLimit : Nat := 127

end JsonText

namespace Json

/-- The value of a text, of which only what is wanted has to have one. -/
def parseKept? (shape : Shape) (text : String) : Option Json :=
  (JsonText.parse? text).bind fun t => t.kept? shape JsonText.depthLimit

def parse? (text : String) : Option Json := parseKept? .any text

end Json
end FloorControl
