import FloorControl.Identity

/-!
# JSON values

The values that messages and configurations are written in, what can be read off them, and their
compact text. A whole number that fits 64 bits is kept exactly and apart from every other number,
because the fields of messages take whole numbers only.
-/

namespace FloorControl

inductive JsonNumber where
  /-- A whole number, written without point and exponent. -/
  | whole (value : Int)
  /-- Any other number: `significand` times the given power of ten, with its sign. -/
  | decimal (negative : Bool) (significand : Nat) (exponent : Int)
  deriving DecidableEq, Repr

inductive Json where
  | null
  | bool (value : Bool)
  | number (value : JsonNumber)
  | string (value : String)
  | array (items : List Json)
  /-- An object with its members in the order in which they are written. -/
  | object (members : List (String × Json))
  deriving Repr

namespace Json

def nat (n : Nat) : Json := .number (.whole n)

def uint8 (n : UInt8) : Json := nat n.toNat

def uint16 (n : UInt16) : Json := nat n.toNat

def uint32 (n : UInt32) : Json := nat n.toNat

def uint64 (n : UInt64) : Json := nat n.toNat

def word {α : Type} [Vocabulary α] (a : α) : Json := .string (Vocabulary.word a)

def ofOption {α : Type} (f : α → Json) : Option α → Json
  | some a => f a
  | none => .null

/-- Put a member where one of the same name is, or at the end. -/
def setMember (name : String) (value : Json) : List (String × Json) → List (String × Json)
  | [] => [(name, value)]
  | (other, v) :: rest =>
    if other = name then (name, value) :: rest else (other, v) :: setMember name value rest

/-- Put a member at its place in the order of names. -/
def placeMember (name : String) (value : Json) : List (String × Json) → List (String × Json)
  | [] => [(name, value)]
  | (other, v) :: rest =>
    if name < other then (name, value) :: (other, v) :: rest
    else (other, v) :: placeMember name value rest

def sortMembers (members : List (String × Json)) : List (String × Json) :=
  members.foldr (fun m sorted => placeMember m.1 m.2 sorted) []

def member? (name : String) (members : List (String × Json)) : Option Json := members.lookup name

def below? (bound : Nat) : Json → Option Nat
  | .number (.whole (.ofNat n)) => if n < bound then some n else none
  | _ => none

def uint8? (j : Json) : Option UInt8 := (j.below? UInt8.size).map UInt8.ofNat

def uint16? (j : Json) : Option UInt16 := (j.below? UInt16.size).map UInt16.ofNat

def uint32? (j : Json) : Option UInt32 := (j.below? UInt32.size).map UInt32.ofNat

def uint64? (j : Json) : Option UInt64 := (j.below? UInt64.size).map UInt64.ofNat

def bool? : Json → Option Bool
  | .bool b => some b
  | _ => none

def string? : Json → Option String
  | .string s => some s
  | _ => none

def array? : Json → Option (List Json)
  | .array items => some items
  | _ => none

/-- A word of a vocabulary, by itself or as the name of the only member of an object, whose value
is then one of those that say nothing more. -/
def wordWith? (α : Type) [Vocabulary α] (saysNothing : Json → Bool) : Json → Option α
  | .string s => Vocabulary.ofWord? s
  | .object [(s, value)] => if saysNothing value then Vocabulary.ofWord? s else none
  | _ => none

def isNull : Json → Bool
  | .null => true
  | _ => false

def isUnit : Json → Bool
  | .null => true
  | .object [] => true
  | _ => false

/-- The fields of a record, which is written as an object, or as an array of its first fields in
the order of their declaration. Members that are no field are passed over later, because nobody
asks for them. -/
def fields? (names : List String) : Json → Option (List (String × Json))
  | .object members => some members
  | .array items => if items.length ≤ names.length then some (names.zip items) else none
  | _ => none

def required {α : Type} (read : Json → Option α) (name : String) (fields : List (String × Json)) :
    Option α :=
  (member? name fields).bind read

/-- A field that may be missing, in which case it has the given value. -/
def optional {α : Type} (read : Json → Option α) (name : String) (missing : α)
    (fields : List (String × Json)) : Option α :=
  match member? name fields with
  | some j => read j
  | none => some missing

def hexDigit (n : Nat) : Char := Nat.digitChar n

/-- A character inside quotes. Quotes and backslashes are escaped, and so are control characters,
by a letter where they have one. -/
def escapeChar (c : Char) : List Char :=
  match c with
  | '"' => ['\\', '"']
  | '\\' => ['\\', '\\']
  | '\n' => ['\\', 'n']
  | '\r' => ['\\', 'r']
  | '\t' => ['\\', 't']
  | '\x08' => ['\\', 'b']
  | '\x0c' => ['\\', 'f']
  | c =>
    if c.toNat < 32 then ['\\', 'u', '0', '0', hexDigit (c.toNat / 16), hexDigit (c.toNat % 16)]
    else [c]

def quote (s : String) : List Char := '"' :: s.toList.flatMap escapeChar ++ ['"']

def renderInt (i : Int) : List Char :=
  match i with
  | .ofNat n => Nat.toDigits 10 n
  | .negSucc n => '-' :: Nat.toDigits 10 (n + 1)

def renderNumber : JsonNumber → List Char
  | .whole i => renderInt i
  | .decimal negative significand exponent =>
    (if negative then ['-'] else []) ++ Nat.toDigits 10 significand ++ 'e' :: renderInt exponent

mutual

def render : Json → List Char
  | .null => ['n', 'u', 'l', 'l']
  | .bool true => ['t', 'r', 'u', 'e']
  | .bool false => ['f', 'a', 'l', 's', 'e']
  | .number n => renderNumber n
  | .string s => quote s
  | .array [] => ['[', ']']
  | .array (item :: rest) => '[' :: render item ++ renderItems rest
  | .object [] => ['{', '}']
  | .object ((name, value) :: rest) =>
    '{' :: quote name ++ ':' :: render value ++ renderMembers rest

def renderItems : List Json → List Char
  | [] => [']']
  | item :: rest => ',' :: render item ++ renderItems rest

def renderMembers : List (String × Json) → List Char
  | [] => ['}']
  | (name, value) :: rest => ',' :: quote name ++ ':' :: render value ++ renderMembers rest

end

/-- The compact text of a value, without any blank. -/
def text (j : Json) : String := String.ofList j.render

end Json
end FloorControl
