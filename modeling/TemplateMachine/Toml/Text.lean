import TemplateMachine.Text.Hex
import TemplateMachine.Toml.Basic

/-! The parts of a line of TOML: blanks, comments, keys and strings.  Each reader takes the
characters that are left and returns what it read and the rest. -/

namespace TemplateMachine.Toml

def isBlank (c : Char) : Bool := c = ' ' || c = '\t'

/-- Characters that may stand in comments and in strings on one line. -/
def isText (c : Char) : Bool := c = '\t' || (0x20 ≤ c.toNat && c.toNat ≠ 0x7f)

def skipBlank (cs : List Char) : List Char := cs.dropWhile isBlank

/-- The rest after the end of a line, if it is the end. -/
def newline? : List Char → Option (List Char)
  | '\n' :: rest => some rest
  | '\r' :: '\n' :: rest => some rest
  | _ => none

/-- The rest after a comment, which need not be there. -/
def skipComment (cs : List Char) : List Char :=
  match cs with
  | '#' :: rest => rest.dropWhile isText
  | _ => cs

theorem length_dropWhile_le {p : Char → Bool} (cs : List Char) :
    (cs.dropWhile p).length ≤ cs.length := (List.dropWhile_suffix p).length_le

theorem length_skipComment_le (cs : List Char) : (skipComment cs).length ≤ cs.length := by
  unfold skipComment
  split
  · exact Nat.le_trans (length_dropWhile_le _) (Nat.le_succ _)
  · exact Nat.le_refl _

theorem length_lt_of_newline? {cs rest : List Char} (h : newline? cs = some rest) :
    rest.length < cs.length := by
  unfold newline? at h
  split at h
  · injection h with h
    simp [← h]
  · injection h with h
    simp only [← h, List.length_cons]
    omega
  · contradiction

/-- The rest after blanks, comments and ends of lines. -/
def skipLines (cs : List Char) : List Char :=
  match _h : newline? (skipComment (skipBlank cs)) with
  | some next => skipLines next
  | none => skipBlank cs
termination_by cs.length
decreasing_by
  exact Nat.lt_of_lt_of_le (length_lt_of_newline? ‹_›)
    (Nat.le_trans (length_skipComment_le _) (length_dropWhile_le cs))

/-- The rest of a line that holds nothing more. -/
def endOfLine? (cs : List Char) : Option (List Char) :=
  match skipComment (skipBlank cs) with
  | [] => some []
  | rest => newline? rest

/-! ### Strings -/

/-- The character of a code point. -/
def charOf? (n : Nat) : Option Char :=
  if n < 0xD800 || (0xE000 ≤ n && n < 0x110000) then some (Char.ofNat n) else none

/-- The number of hexadecimal digits, as many as given. -/
def readHex (n : Nat) : Nat → List Char → Option (Nat × List Char)
  | 0, cs => some (n, cs)
  | width + 1, c :: rest =>
    match Text.hexValue? c with
    | some digit => readHex (n * 16 + digit) width rest
    | none => none
  | _ + 1, [] => none

/-- The character of an escape behind its backslash. -/
def readEscape (cs : List Char) : Option (Char × List Char) :=
  match cs with
  | 'b' :: rest => some ('\x08', rest)
  | 't' :: rest => some ('\t', rest)
  | 'n' :: rest => some ('\n', rest)
  | 'f' :: rest => some ('\x0c', rest)
  | 'r' :: rest => some ('\r', rest)
  | '\x22' :: rest => some ('\x22', rest)
  | '\\' :: rest => some ('\\', rest)
  | 'u' :: rest => do
    let (n, rest) ← readHex 0 4 rest
    return (← charOf? n, rest)
  | 'U' :: rest => do
    let (n, rest) ← readHex 0 8 rest
    return (← charOf? n, rest)
  | _ => none

/-- A string on one line up to its closing quote, given the characters in front in reverse.  Only
between double quotes are there escapes.  The fuel is the number of characters. -/
def readLineString (quote : Char) (done : List Char) : Nat → List Char →
    Option (String × List Char)
  | 0, _ => none
  | _, [] => none
  | fuel + 1, c :: rest =>
    if c = quote then some (String.ofList done.reverse, rest)
    else if c = '\\' && quote = '\x22' then do
      let (c, rest) ← readEscape rest
      readLineString quote (c :: done) fuel rest
    else if isText c then readLineString quote (c :: done) fuel rest
    else none

/-- The rest after blanks and ends of lines. -/
def skipBreaks : List Char → List Char
  | '\n' :: rest => skipBreaks rest
  | '\r' :: '\n' :: rest => skipBreaks rest
  | c :: rest => if isBlank c then skipBreaks rest else c :: rest
  | [] => []

/-- The rest behind the end of a line that a backslash takes away, with the blanks and ends of
lines that follow it. -/
def joinedLine? (cs : List Char) : Option (List Char) :=
  (newline? (skipBlank cs)).map skipBreaks

/-- A string over several lines up to its three closing quotes, in front of which two more may
stand.  The fuel is the number of characters. -/
def readLongString (quote : Char) (done : List Char) : Nat → List Char →
    Option (String × List Char)
  | 0, _ => none
  | fuel + 1, cs =>
    let quotes := (cs.takeWhile (· = quote)).length
    if 3 ≤ quotes then
      let inner := min (quotes - 3) 2
      some (String.ofList ((List.replicate inner quote ++ done).reverse), cs.drop (inner + 3))
    else match newline? cs with
      | some rest => readLongString quote ('\n' :: done) fuel rest
      | none =>
        match cs with
        | [] => none
        | c :: rest =>
          if c = '\\' && quote = '\x22' then
            match joinedLine? rest with
            | some rest => readLongString quote done fuel rest
            | none => do
              let (c, rest) ← readEscape rest
              readLongString quote (c :: done) fuel rest
          else if isText c then readLongString quote (c :: done) fuel rest
          else none

/-- A string of any kind. -/
def readString (cs : List Char) : Option (String × List Char) :=
  let fuel := cs.length + 1
  let long (quote : Char) (rest : List Char) : Option (String × List Char) :=
    readLongString quote [] fuel ((newline? rest).getD rest)
  match cs with
  | '\x22' :: '\x22' :: '\x22' :: rest => long '\x22' rest
  | '\x27' :: '\x27' :: '\x27' :: rest => long '\x27' rest
  | '\x22' :: rest => readLineString '\x22' [] fuel rest
  | '\x27' :: rest => readLineString '\x27' [] fuel rest
  | _ => none

/-! ### Keys -/

/-- How deep values may be nested, and how many names a key may have. -/
def maxDepth : Nat := 79

def isBareKey (c : Char) : Bool := c.isAlphanum || c = '_' || c = '-'

/-- A key without dots: a string on one line, or a word. -/
def readSimpleKey (cs : List Char) : Option (String × List Char) :=
  match cs with
  | '\x22' :: rest => readLineString '\x22' [] (cs.length + 1) rest
  | '\x27' :: rest => readLineString '\x27' [] (cs.length + 1) rest
  | cs =>
    match cs.span isBareKey with
    | ([], _) => none
    | (name, rest) => some (String.ofList name, rest)

/-- A key that may have dots, with the blanks around it: the names up to the last, and the last.
The fuel bounds the number of names. -/
def readKey (path : List String) : Nat → List Char → Option ((List String × String) × List Char)
  | 0, _ => none
  | fuel + 1, cs => do
    let (name, rest) ← readSimpleKey (skipBlank cs)
    match skipBlank rest with
    | '.' :: rest => readKey (path ++ [name]) fuel rest
    | rest => return ((path, name), rest)

end TemplateMachine.Toml
