import Curve25519.Text.Listing

/-! Keys in transit: as an array of thirty-two numbers in text, written without blanks and read
with blanks between its parts, or as the first thirty-two octets of a stream. -/

namespace Curve25519.OctetArray

def write (bytes : Bytes32) : String := bracketed "," (bytes.toList.map UInt8.toNat)

def isBlank (c : Char) : Bool := c == ' ' || c == '\t' || c == '\n' || c == '\r'

def expect (mark : Char) (text : List Char) : Option (List Char) :=
  match text.dropWhile isBlank with
  | c :: rest => if c = mark then some rest else none
  | [] => none

def decimal (digits : List Char) : Nat :=
  digits.foldl (fun n digit => 10 * n + (digit.toNat - '0'.toNat)) 0

def isNumeral : List Char → Bool
  | [] => false
  | first :: rest => first != '0' || rest.isEmpty

def readOctet (text : List Char) : Option (UInt8 × List Char) :=
  let text := text.dropWhile isBlank
  let digits := text.takeWhile Char.isDigit
  if isNumeral digits ∧ decimal digits < 256 then
    some (.ofNat (decimal digits), text.dropWhile Char.isDigit)
  else none

def readOctets : (count : Nat) → (mark : Char) → List Char → Option (List UInt8 × List Char)
  | 0, _, text => some ([], text)
  | count + 1, mark, text => do
      let (octet, text) ← readOctet (← expect mark text)
      let (octets, text) ← readOctets count ',' text
      return (octet :: octets, text)

/-- The octets that a text spells, if it is an array of thirty-two of them and nothing else. -/
def read? (text : String) : Option Bytes32 := do
  let (octets, rest) ← readOctets 32 '[' text.toList
  let rest ← expect ']' rest
  if rest.all isBlank then Bytes32.ofList? octets else none

def takeFirst? (octets : List UInt8) : Option Bytes32 := Bytes32.ofList? (octets.take 32)

end Curve25519.OctetArray
