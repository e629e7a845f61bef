/-! Quoted strings and padded numbers of listings.  A quoted string is written between double quotes
with control characters escaped; the inner text of a listing's string constants only has its line
breaks and tabs escaped. -/

namespace TemplateMachine.Text

/-- A control character: the two blocks of them and the delete character between. -/
def isControl (c : Char) : Bool := c.toNat < 0x20 || (0x7f ≤ c.toNat && c.toNat < 0xa0)

/-- The written form of a character between quotes. -/
def quotedChar (c : Char) : List Char :=
  if c = '\x22' then ['\\', '\x22']
  else if c = '\\' then ['\\', '\\']
  else if c = '\n' then ['\\', 'n']
  else if c = '\r' then ['\\', 'r']
  else if c = '\t' then ['\\', 't']
  else if c = '\x00' then ['\\', '0']
  else if isControl c then '\\' :: 'u' :: '\x7b' :: (Nat.toDigits 16 c.toNat ++ ['\x7d'])
  else [c]

/-- The string between double quotes, with quotes, backslashes and control characters escaped. -/
def quoted (s : String) : String :=
  String.ofList ('\x22' :: (s.toList.flatMap quotedChar ++ ['\x22']))

/-- Items between square brackets, a comma and a blank between them. -/
def bracketed (items : List String) : String := "[" ++ ", ".intercalate items ++ "]"

/-- Quoted strings between square brackets. -/
def quotedList (items : List String) : String := bracketed (items.map quoted)

/-- The string with line breaks and tabs escaped and all else as it is. -/
def singleLine (s : String) : String :=
  String.ofList (s.toList.flatMap fun c =>
    if c = '\n' then ['\\', 'n'] else if c = '\t' then ['\\', 't'] else [c])

/-- The digits with zeros in front up to the given width. -/
def padLeft (width : Nat) (digits : List Char) : List Char :=
  List.replicate (width - digits.length) '0' ++ digits

/-- A number in decimal, at least four digits wide. -/
def padded (n : Nat) : String := String.ofList (padLeft 4 (Nat.toDigits 10 n))

/-- An integer in decimal, at least four characters wide, its sign included. -/
def paddedInt (n : Int) : String :=
  if n < 0 then String.ofList ('-' :: padLeft 3 (Nat.toDigits 10 n.natAbs)) else padded n.natAbs

/-- An integer with its sign, also when it is positive. -/
def signed (n : Int) : String :=
  (if n < 0 then "-" else "+") ++ toString n.natAbs

end TemplateMachine.Text
